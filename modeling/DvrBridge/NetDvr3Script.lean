import DvrBridge.NetDvr3Framing

/-! A device that writes frame after frame, some of them followed by junk, and a driver that reads
what has arrived so far: the frames in front of junk are lost, all others are yielded. -/
namespace DvrBridge.NetDvr3
open H264 Search

/-- A frame and the junk behind it. -/
structure Written where
  frame : DvrFrame
  junk : Bytes := []

def Written.bytes (w : Written) : Bytes := w.frame.bytes ++ w.junk

/-- What a device writes when it is never stopped. -/
structure Script where
  preamble : Bytes
  written : Nat → Written

namespace Script

/-- Frames `i` to `n - 1`. -/
def between (sc : Script) (i n : Nat) : Bytes :=
  (List.range' i (n - i)).flatMap fun j => (sc.written j).bytes

/-- The first `n` frames without those in front of junk. -/
def kept (sc : Script) (n : Nat) : List VideoFrame :=
  (List.range n).filterMap fun i =>
    if (sc.written i).junk = [] then some (sc.written i).frame.video else none

/-- Of the first frames `i` are dealt with, and perhaps the next one is being lost; every lost frame
costs one resynchronisation. -/
def Counted (sc : Script) (i resyncs : Nat) : Prop :=
  resyncs + (sc.kept i).length = i ∨
    ((sc.written i).junk ≠ [] ∧ resyncs + (sc.kept i).length = i + 1)

/-- The frames fit their length field, and the magic comes first where a header begins: behind the
preamble, and from within a frame that is followed by junk. -/
structure Readable (sc : Script) (n : Nat) : Prop where
  preamble : sc.preamble.length ≤ 65528
  start : find magic (sc.preamble ++ (sc.written 0).bytes.take 8) = some (sc.preamble.length + 4)
  fits : ∀ i < n, (sc.written i).frame.Fits
  bounded : ∀ i < n, (sc.written i).bytes.length ≤ maxFrame
  lone : ∀ i < n, (sc.written i).junk ≠ [] →
    find magic ((sc.written i).bytes.drop 8 ++ (sc.written (i + 1)).bytes.take 8) =
      some ((sc.written i).bytes.length - 4)

theorem Readable.mono {sc : Script} {n m : Nat} (h : sc.Readable n) (hm : m ≤ n) :
    sc.Readable m :=
  ⟨h.preamble, h.start, fun i hi => h.fits i (hi.trans_le hm),
    fun i hi => h.bounded i (hi.trans_le hm), fun i hi => h.lone i (hi.trans_le hm)⟩

variable (sc : Script) {i n : Nat}

theorem between_cons (h : i < n) :
    sc.between i n = (sc.written i).bytes ++ sc.between (i + 1) n := by
  have hr : List.range' i (n - i) = i :: List.range' (i + 1) (n - (i + 1)) := by
    rw [← List.range'_succ]
    congr 1
    omega
  rw [between, hr, List.flatMap_cons, ← between]

theorem between_snoc (h : i ≤ n) :
    sc.between i (n + 1) = sc.between i n ++ (sc.written n).bytes := by
  have hr : List.range' i (n + 1 - i) = List.range' i (n - i) ++ [n] := by
    rw [show n + 1 - i = n - i + 1 by omega, List.range'_concat]
    congr 2
    omega
  rw [between, hr, List.flatMap_append, List.flatMap_singleton, ← between]

theorem between_self : sc.between n n = [] := by
  rw [between, Nat.sub_self]
  rfl

theorem kept_succ : sc.kept (i + 1) =
    sc.kept i ++ if (sc.written i).junk = [] then [(sc.written i).frame.video] else [] := by
  rw [kept, List.range_succ, List.filterMap_append, ← kept]
  congr 1
  by_cases h : (sc.written i).junk = [] <;> simp [h]

/-- Without junk every frame is kept. -/
theorem kept_of_clear (h : ∀ i, (sc.written i).junk = []) (n : Nat) :
    sc.kept n = (List.range n).map fun i => (sc.written i).frame.video := by
  simp [kept, h]

end Script

/-! A frame at the start of the buffer. -/

section Buffer
variable {buf rest tail : Bytes} {t : DvrFrame}

theorem take_frameHeader (h : buf ++ rest = t.bytes ++ tail) (hl : headerLen ≤ buf.length) :
    buf.take headerLen = frameHeader t.seq t.tsMs t.keyframe t.au.length := by
  have htake := congrArg (List.take headerLen) h
  rwa [List.take_append_of_le_length hl, DvrFrame.bytes, List.append_assoc,
    List.take_left' (frameHeader_length ..)] at htake

theorem take_au (h : buf ++ rest = t.bytes ++ tail) (hl : headerLen + t.au.length ≤ buf.length) :
    (buf.take (headerLen + t.au.length)).drop headerLen = t.au := by
  have htake := congrArg (List.take (headerLen + t.au.length)) h
  rw [List.take_append_of_le_length hl, List.take_left' (DvrFrame.bytes_length t)] at htake
  rw [htake, DvrFrame.bytes, List.drop_left' (frameHeader_length ..)]

theorem drop_bytes {w : Bytes} (h : buf ++ rest = w ++ tail) (hl : w.length ≤ buf.length) :
    buf.drop w.length ++ rest = tail := by
  have hdrop := congrArg (List.drop w.length) h
  rwa [List.drop_append_of_le_length hl, List.drop_left] at hdrop

omit t in
theorem take_drop_append {w : Bytes} {k m : Nat} (h : k + m ≤ w.length) :
    ((w ++ tail).drop k).take m = (w.drop k).take m := by
  rw [List.drop_append_of_le_length (by omega),
    List.take_append_of_le_length (by rw [List.length_drop]; omega)]

end Buffer

theorem Written.bytes_length (w : Written) :
    w.bytes.length = headerLen + w.frame.au.length + w.junk.length := by
  rw [bytes, List.length_append, DvrFrame.bytes_length]

/-- A header begins with a sequence number and the magic. -/
theorem Written.drop_four (w : Written) : w.bytes.drop 4 = magic ++ w.bytes.drop 8 := by
  have hm : (w.bytes.drop 4).take 4 = magic := by
    rw [bytes, DvrFrame.bytes, List.append_assoc]
    exact frameHeader_magic ..
  have := List.take_append_drop 4 (w.bytes.drop 4)
  rwa [hm, List.drop_drop, eq_comm] at this

theorem Written.take_eight (w : Written) : (w.bytes.take 8).drop 4 = magic := by
  have hl := w.bytes_length
  have h8 : w.bytes.take 8 = w.bytes.take 4 ++ (w.bytes.drop 4).take 4 := by
    rw [← List.take_add]
  have h4 : (w.bytes.take 4).length = 4 := by
    rw [List.length_take, Nat.min_eq_left (by simp only [headerLen] at hl; omega)]
  rw [h8, List.drop_left' h4, w.drop_four]
  rfl

/-- Whether the driver waits for bytes. -/
def Parser.Waits (p : Parser) : Prop :=
  p.move = some (.read 4096) ∨ ∃ k, p.move = some (.readExactly k)

theorem Parser.Waits.header {p : Parser} (h : p.Waits) (hpc : p.pc = .header) :
    p.buf.length < headerLen := by
  by_contra hl
  simp only [Waits, move, hpc, headerMove, if_neg hl] at h
  split at h
  · simp at h
  · split at h <;> simp at h

theorem Parser.Waits.body {p : Parser} {hdr : FrameHeader} (h : p.Waits) (hpc : p.pc = .body hdr) :
    p.buf.length < headerLen + hdr.payloadLen + 8 := by
  by_contra hl
  simp only [Waits, move, hpc, bodyMove, if_neg hl] at h
  split at h <;> simp at h

/-! The phases of a run. -/

/-- Where the driver is in what the device has written so far, and what it has yielded. -/
inductive Reached (sc : Script) (n : Nat) (p : Parser) (rest : Bytes) : List ParserOutput → Prop
  | preamble : p.pc = .preamble → p.buf ++ rest = sc.preamble ++ sc.between 0 n →
      p.resyncs = 0 → Reached sc n p rest []
  | header (i : Nat) : i < n → p.pc = .header → p.buf ++ rest = sc.between i n →
      p.resyncs + (sc.kept i).length = i → Reached sc n p rest ((sc.kept i).map .frame)
  | body (i : Nat) : i < n → p.pc = .body (sc.written i).frame.header →
      p.buf ++ rest = sc.between i n → p.resyncs + (sc.kept i).length = i →
      Reached sc n p rest ((sc.kept i).map .frame)
  /-- the magic of the frame that is being lost is still in front -/
  | skip (i : Nat) : i < n → (sc.written i).junk ≠ [] → p.pc = .resync 0 → 4 ≤ p.buf.length →
      p.buf ++ rest = (sc.written i).bytes.drop 4 ++ sc.between (i + 1) n →
      p.resyncs + (sc.kept i).length = i + 1 → Reached sc n p rest ((sc.kept i).map .frame)
  | scan (i : Nat) (s : Bytes) (scanned : Nat) : i < n → (sc.written i).junk ≠ [] →
      p.pc = .resync scanned ∨ p.pc = .resyncRead scanned →
      p.buf ++ rest = s ++ sc.between (i + 1) n →
      find magic (s ++ (sc.written (i + 1)).bytes.take 8) = some (s.length + 4) →
      scanned + s.length ≤ maxFrame → p.resyncs + (sc.kept i).length = i + 1 →
      Reached sc n p rest ((sc.kept i).map .frame)
  | raised (i : Nat) : i ≤ n - 1 → p.pc = .raised → sc.Counted i p.resyncs →
      Reached sc n p rest ((sc.kept i).map .frame ++ [.raised])

namespace Reached
variable {sc : Script} {n : Nat} {p q : Parser} {rest rest' : Bytes} {i : ParserInput}
  {h o : List ParserOutput}

/-- The device writes one frame more. -/
theorem grow (hr : Reached sc n p rest h) :
    Reached sc (n + 1) p (rest ++ (sc.written n).bytes) h := by
  have happ {j : Nat} {s : Bytes} (hj : j ≤ n) (hb : p.buf ++ rest = s ++ sc.between j n) :
      p.buf ++ (rest ++ (sc.written n).bytes) = s ++ sc.between j (n + 1) := by
    rw [← List.append_assoc, hb, sc.between_snoc hj, List.append_assoc]
  cases hr with
  | preamble hpc hb hz => exact .preamble hpc (happ (Nat.zero_le _) hb) hz
  | header j hj hpc hb hc => exact .header j (by omega) hpc (happ (s := []) (by omega) hb) hc
  | body j hj hpc hb hc => exact .body j (by omega) hpc (happ (s := []) (by omega) hb) hc
  | skip j hj hjunk hpc hl hb hc => exact .skip j (by omega) hjunk hpc hl (happ (by omega) hb) hc
  | scan j s scanned hj hjunk hpc hb hf hs hc =>
    exact .scan j s scanned (by omega) hjunk hpc (happ (by omega) hb) hf hs hc
  | raised j hj hpc hc => exact .raised j (by omega) hpc hc

/-- The buffer and what is missing of the next header. -/
theorem exists_more {s : Bytes} {j : Nat} (hj : j ≤ n) (hb : p.buf ++ rest = s ++ sc.between j n) :
    ∃ more tail, p.buf ++ more = s ++ (sc.written j).bytes.take 8 ++ tail := by
  rcases Nat.lt_or_eq_of_le hj with hlt | rfl
  · refine ⟨rest, (sc.written j).bytes.drop 8 ++ sc.between (j + 1) n, ?_⟩
    rw [hb, sc.between_cons hlt, List.append_assoc, ← List.append_assoc (List.take 8 _),
      List.take_append_drop]
  · rw [sc.between_self, List.append_nil] at hb
    exact ⟨rest ++ (sc.written j).bytes.take 8, [], by rw [← List.append_assoc, hb, List.append_nil]⟩

/-- A search of what was received finds the next header as soon as its magic is there. -/
theorem find_buf {s : Bytes} {j : Nat} (hj : j ≤ n)
    (hf : find magic (s ++ (sc.written j).bytes.take 8) = some (s.length + 4))
    (hb : p.buf ++ rest = s ++ sc.between j n) :
    find magic p.buf = if s.length + 8 ≤ p.buf.length then some (s.length + 4) else none := by
  obtain ⟨more, tail, hm⟩ := exists_more hj hb
  have hall := find_append_of_some _ _ tail _ hf
  rw [← hm] at hall
  exact find_of_append magic p.buf more _ hall

theorem length_between (sc : Script) {j : Nat} (hj : j < n) : headerLen ≤ (sc.between j n).length := by
  have := (sc.written j).bytes_length
  rw [sc.between_cons hj, List.length_append]
  omega

theorem preamble_step (hg : sc.Readable n) (hpc : p.pc = .preamble)
    (hb : p.buf ++ rest = sc.preamble ++ sc.between 0 n) (hz : p.resyncs = 0)
    (hs : Stepped p .preamble i q o) (hr : rest = i.chunk ++ rest')
    (heof : i = .eof → rest.length < p.wanted) : Reached sc n q rest' o ∧
      (i ≠ .timeout → q.pc = .raised →
        i = .eof ∧ o = (sc.kept (n - 1)).map .frame ++ [.raised]) := by
  have hfind := find_buf (Nat.zero_le n) hg.start hb
  have hroom (hn : ∀ k, find magic p.buf = some k → k < 4) :
      p.buf.length < sc.preamble.length + 8 := by
    by_contra hl
    rw [if_pos (by omega)] at hfind
    have := hn _ hfind
    omega
  cases hs with
  | found k hk h4 =>
    rw [hfind] at hk
    obtain ⟨hl, hk⟩ := Option.ite_none_right_eq_some.mp hk
    cases hk
    have hd := drop_bytes hb (by omega)
    have hn : 0 < n := by
      refine Nat.pos_of_ne_zero ?_
      rintro rfl
      have := congrArg List.length hb
      rw [sc.between_self, List.append_nil, List.length_append] at this
      omega
    refine ⟨.header 0 hn rfl ?_ (by simpa [Script.kept] using hz), by simp⟩
    rw [hr] at hd
    simpa [ParserInput.chunk] using hd
  | notFound hn hl =>
    have := hroom hn
    have := hg.preamble
    simp only [maxPreamble] at hl
    omega
  | preambleRead chunk _ _ _ _ =>
    refine ⟨.preamble rfl ?_ hz, by simp⟩
    rw [← hb, hr, List.append_assoc]
    rfl
  | preambleFails i hn _ hi =>
    refine ⟨.raised 0 (Nat.zero_le _) rfl (.inl (by simp [Parser.raise, hz, Script.kept])), ?_⟩
    intro htime _
    obtain rfl := hi.resolve_right htime
    refine ⟨rfl, ?_⟩
    have hlt := hroom hn
    have hrest := heof rfl
    rw [Parser.wanted, hpc] at hrest
    simp only at hrest
    have hn0 : n = 0 := by
      by_contra hne
      have hl := length_between sc (Nat.pos_of_ne_zero hne)
      have hlen := congrArg List.length hb
      rw [List.length_append, List.length_append] at hlen
      simp only [headerLen] at hl
      omega
    subst hn0
    rfl

theorem header_step (hg : sc.Readable n) {j : Nat} (hj : j < n) (hpc : p.pc = .header)
    (hb : p.buf ++ rest = sc.between j n) (hc : p.resyncs + (sc.kept j).length = j)
    (hs : Stepped p .header i q o) (hr : rest = i.chunk ++ rest')
    (heof : i = .eof → rest.length < p.wanted) :
    Reached sc n q rest' ((sc.kept j).map .frame ++ o) ∧ (i ≠ .timeout → q.pc ≠ .raised) := by
  have hframe := hb
  rw [sc.between_cons hj, Written.bytes, List.append_assoc] at hframe
  cases hs with
  | headerRead chunk _ _ =>
    rw [List.append_nil]
    refine ⟨.header j hj rfl ?_ hc, by simp⟩
    rw [← hb, hr, List.append_assoc]
    rfl
  | headerFails i hl hi =>
    refine ⟨.raised j (Nat.le_sub_one_of_lt hj) rfl (.inl hc), fun htime => ?_⟩
    obtain rfl := hi.resolve_right htime
    have hrest := heof rfl
    rw [Parser.wanted, hpc] at hrest
    have hlen := congrArg List.length hb
    have := length_between sc hj
    rw [List.length_append] at hlen
    simp only at hrest
    omega
  | badHeader hl hbad =>
    have hfit := hg.fits j hj
    have := hbad (sc.written j).frame.header
      (by rw [take_frameHeader hframe hl, DvrFrame.parse_header hfit])
    have := hfit.2
    simp only [maxFrame, DvrFrame.header] at *
    omega
  | parsed hdr hl hd _ =>
    rw [take_frameHeader hframe hl, DvrFrame.parse_header (hg.fits j hj), Option.some.injEq] at hd
    subst hd
    rw [List.append_nil]
    refine ⟨.body j hj rfl ?_ hc, by simp⟩
    rw [← hb, hr]
    rfl

/-- Behind a frame stands the magic of the next one, or junk. -/
theorem magic_behind (hg : sc.Readable n) {j : Nat} (hj : j < n)
    (hb : p.buf ++ rest = sc.between j n)
    (hl : headerLen + (sc.written j).frame.au.length + 8 ≤ p.buf.length) :
    (((p.buf.drop (headerLen + (sc.written j).frame.au.length)).take 8).drop 4).take 4 = magic ↔
      (sc.written j).junk = [] := by
  have hlen := (sc.written j).bytes_length
  have hframe := hb
  rw [sc.between_cons hj] at hframe
  obtain ⟨more, tail, hm⟩ := exists_more hj hframe
  have h8 : ((sc.written (j + 1)).bytes.take 8).length = 8 := by
    have := (sc.written (j + 1)).bytes_length
    rw [List.length_take, Nat.min_eq_left (by simp only [headerLen] at this; omega)]
  have hnext : (((p.buf.drop (headerLen + (sc.written j).frame.au.length)).take 8).drop 4).take 4 =
      (((sc.written j).bytes ++ (sc.written (j + 1)).bytes.take 8).drop
        (headerLen + (sc.written j).frame.au.length + 4)).take 4 := by
    have htext := congrArg
      (fun l => (l.drop (headerLen + (sc.written j).frame.au.length + 4)).take 4) hm
    rw [take_drop_append (by omega),
      take_drop_append (by rw [List.length_append, h8]; omega)] at htext
    rw [List.drop_take, List.take_take, List.drop_drop]
    exact htext
  rw [hnext]
  constructor
  · intro he
    by_contra hjunk
    obtain ⟨-, -, hfirst⟩ := (find_eq_some_iff ..).mp (hg.lone j hj hjunk)
    have hpos := List.length_pos_iff.mpr hjunk
    refine hfirst (headerLen + (sc.written j).frame.au.length - 4)
      (by simp only [headerLen] at *; omega) ?_
    rw [← List.drop_append_of_le_length (by simp only [headerLen] at *; omega), List.drop_drop,
      show 8 + (headerLen + (sc.written j).frame.au.length - 4) =
        headerLen + (sc.written j).frame.au.length + 4 by simp only [headerLen]; omega, ← he]
    exact List.take_prefix 4 _
  · intro hjunk
    rw [hjunk, List.length_nil, Nat.add_zero] at hlen
    rw [← hlen, ← List.drop_drop, List.drop_left, (sc.written (j + 1)).take_eight]
    rfl

theorem body_step (hg : sc.Readable n) {j : Nat} (hj : j < n)
    (hpc : p.pc = .body (sc.written j).frame.header) (hb : p.buf ++ rest = sc.between j n)
    (hc : p.resyncs + (sc.kept j).length = j)
    (hs : Stepped p (.body (sc.written j).frame.header) i q o) (hr : rest = i.chunk ++ rest')
    (heof : i = .eof → rest.length < p.wanted) :
    Reached sc n q rest' ((sc.kept j).map .frame ++ o) ∧
      (i ≠ .timeout → q.pc = .raised → (sc.written j).junk = [] →
        i = .eof ∧ (sc.kept j).map .frame ++ o = (sc.kept (n - 1)).map .frame ++ [.raised]) := by
  have hlen := (sc.written j).bytes_length
  have hframe := hb
  rw [sc.between_cons hj] at hframe
  have hau := hframe
  rw [Written.bytes, List.append_assoc] at hau
  cases hs with
  | bodyRead _ chunk _ _ =>
    rw [List.append_nil]
    refine ⟨.body j hj rfl ?_ hc, by simp⟩
    rw [← hb, hr, List.append_assoc]
    rfl
  | bodyFails _ i hl hi =>
    refine ⟨.raised j (Nat.le_sub_one_of_lt hj) rfl (.inl hc), ?_⟩
    intro htime _ hjunk
    obtain rfl := hi.resolve_right htime
    refine ⟨rfl, ?_⟩
    have hrest := heof rfl
    rw [Parser.wanted, hpc] at hrest
    simp only [DvrFrame.header] at hrest
    -- a successor would be long enough
    have hlast : j + 1 = n := by
      by_contra hne
      have hnext := length_between sc (show j + 1 < n by omega)
      have htotal := congrArg List.length hframe
      rw [List.length_append, List.length_append] at htotal
      simp only [headerLen] at *
      omega
    rw [← hlast]
    rfl
  | framed _ hl _ hnxt =>
    have hjunk := (magic_behind hg hj hb hl).mp hnxt
    rw [hjunk, List.length_nil, Nat.add_zero] at hlen
    have hl' : headerLen + (sc.written j).frame.au.length + 8 ≤ p.buf.length := hl
    have hd := drop_bytes hframe (by omega)
    have hn : j + 1 < n := by
      by_contra hge
      rw [show n = j + 1 by omega, sc.between_self] at hframe
      have htotal := congrArg List.length hframe
      rw [List.length_append, List.append_nil] at htotal
      omega
    have hout : (sc.kept j).map ParserOutput.frame ++
        [.frame (Parser.videoFrame (sc.written j).frame.header
          ((p.buf.take (headerLen + (sc.written j).frame.header.payloadLen)).drop headerLen))] =
        (sc.kept (j + 1)).map .frame := by
      rw [sc.kept_succ, if_pos hjunk, List.map_append,
        show (sc.written j).frame.header.payloadLen = (sc.written j).frame.au.length from rfl,
        take_au hau (by omega), DvrFrame.video_header]
      rfl
    rw [hout]
    refine ⟨.header (j + 1) hn rfl ?_ ?_, by simp⟩
    · rw [hr, hlen] at hd
      exact hd
    · rw [sc.kept_succ, if_pos hjunk, List.length_append, List.length_singleton, ← Nat.add_assoc, hc]
  | lied _ hl hlied =>
    have hl' : headerLen + (sc.written j).frame.au.length + 8 ≤ p.buf.length := hl
    have hjunk : (sc.written j).junk ≠ [] := by
      intro hjunk
      refine hlied ⟨?_, (magic_behind hg hj hb hl).mpr hjunk⟩
      exact (take_au hau (by omega)).symm ▸ (hg.fits j hj).1
    rw [List.append_nil]
    refine ⟨.skip j hj hjunk rfl ?_ ?_ ?_, by simp⟩
    · rw [Parser.startResync_buf, List.length_drop]
      omega
    · have hd := congrArg (List.drop 4) hframe
      rw [List.drop_append_of_le_length (by omega),
        List.drop_append_of_le_length (by simp only [headerLen] at hlen; omega), hr] at hd
      exact hd
    · simp only [Parser.startResync]
      omega

theorem skip_step (hg : sc.Readable n) {j : Nat} (hj : j < n) (hjunk : (sc.written j).junk ≠ [])
    (hl : 4 ≤ p.buf.length)
    (hb : p.buf ++ rest = (sc.written j).bytes.drop 4 ++ sc.between (j + 1) n)
    (hc : p.resyncs + (sc.kept j).length = j + 1) (hs : Stepped p (.resync 0) i q o)
    (hr : rest = i.chunk ++ rest') :
    Reached sc n q rest' ((sc.kept j).map .frame ++ o) ∧ q.pc ≠ .raised := by
  rw [(sc.written j).drop_four, List.append_assoc] at hb
  have hbuf : magic <+: p.buf := by
    have hp : magic <+: p.buf ++ rest := hb ▸ List.prefix_append _ _
    exact List.prefix_of_prefix_length_le hp (List.prefix_append _ _) hl
  have hfind : find magic p.buf = some 0 :=
    (find_eq_some_iff ..).mpr ⟨Nat.zero_le _, hbuf, fun k hk => absurd hk (Nat.not_lt_zero k)⟩
  cases hs with
  | scanFound _ k hk h4 =>
    rw [hfind, Option.some.injEq] at hk
    omega
  | scanNone _ hk =>
    rw [hfind] at hk
    cases hk
  | scanSkip _ k hk _ =>
    rw [hfind, Option.some.injEq] at hk
    subst hk
    have hlen := (sc.written j).bytes_length
    have hbound := hg.bounded j hj
    rw [List.append_nil]
    refine ⟨.scan j ((sc.written j).bytes.drop 8) 0 hj hjunk (.inr rfl) ?_ ?_ ?_ hc, by simp⟩
    · have hd := drop_bytes hb hl
      rw [hr] at hd
      exact hd
    · rw [hg.lone j hj hjunk, List.length_drop]
      congr 1
    · rw [List.length_drop]
      omega

theorem scan_step {j scanned : Nat} {s : Bytes} (hj : j < n)
    (hjunk : (sc.written j).junk ≠ []) (hpc : p.pc = .resync scanned ∨ p.pc = .resyncRead scanned)
    (hb : p.buf ++ rest = s ++ sc.between (j + 1) n)
    (hf : find magic (s ++ (sc.written (j + 1)).bytes.take 8) = some (s.length + 4))
    (hm : scanned + s.length ≤ maxFrame) (hc : p.resyncs + (sc.kept j).length = j + 1)
    (hs : Stepped p p.pc i q o) (hr : rest = i.chunk ++ rest') :
    Reached sc n q rest' ((sc.kept j).map .frame ++ o) := by
  have hfind := find_buf (Nat.succ_le_of_lt hj) hf hb
  have hkept : sc.kept (j + 1) = sc.kept j := by
    rw [sc.kept_succ, if_neg hjunk, List.append_nil]
  rcases hpc with hpc | hpc
  · rw [hpc] at hs
    cases hs with
    | scanFound _ k hk h4 =>
      rw [hfind] at hk
      obtain ⟨hl, hk⟩ := Option.ite_none_right_eq_some.mp hk
      cases hk
      have hd := drop_bytes hb (by omega)
      have hn : j + 1 < n := by
        by_contra hge
        rw [show n = j + 1 by omega, sc.between_self] at hb
        have htotal := congrArg List.length hb
        rw [List.length_append, List.append_nil] at htotal
        omega
      rw [List.append_nil, ← hkept]
      refine .header (j + 1) hn rfl ?_ (by rw [hkept]; exact hc)
      rw [hr] at hd
      simpa [ParserInput.chunk] using hd
    | scanSkip _ k hk h4 =>
      rw [hfind] at hk
      obtain ⟨-, hk⟩ := Option.ite_none_right_eq_some.mp hk
      cases hk
      omega
    | scanNone _ hk =>
      rw [hfind, ite_eq_right_iff] at hk
      have hl : p.buf.length < s.length + 8 := by
        by_contra hl
        cases hk (by omega)
      rw [List.append_nil]
      refine .scan j (s.drop (p.buf.length - 7)) _ hj hjunk (.inr rfl) ?_ ?_ ?_ hc
      · have hd := congrArg (List.drop (p.buf.length - 7)) hb
        rw [List.drop_append_of_le_length (by omega), List.drop_append_of_le_length (by omega)] at hd
        rw [hr] at hd
        exact hd
      · have hd := find_drop _ _ _ (p.buf.length - 7) hf (by omega)
        rw [List.drop_append_of_le_length (by omega)] at hd
        rw [hd, List.length_drop]
        congr 1
        omega
      · rw [List.length_drop]
        omega
  · rw [hpc] at hs
    cases hs with
    | scanRead _ chunk _ _ =>
      rw [List.append_nil]
      refine .scan j s scanned hj hjunk (.inl rfl) ?_ hf hm hc
      rw [← hb, hr, List.append_assoc]
      rfl
    | scanFails _ _ _ _ => exact .raised j (Nat.le_sub_one_of_lt hj) rfl (.inr ⟨hjunk, hc⟩)
    | scanEnd _ hlt => omega

/-- Every step of the driver stays in the phases. When no frame is followed by junk, the driver
gives up at the end of the stream, with all frames but the last yielded. -/
theorem step (hg : sc.Readable n) (hp : Reached sc n p rest h) (hs : p.step i = some (q, o))
    (hr : rest = i.chunk ++ rest') (heof : i = .eof → rest.length < p.wanted) :
    Reached sc n q rest' (h ++ o) ∧
      (i ≠ .timeout → q.pc = .raised → (∀ j, (sc.written j).junk = []) →
        i = .eof ∧ h ++ o = (sc.kept (n - 1)).map .frame ++ [.raised]) := by
  have hst := Parser.stepped hs
  cases hp with
  | preamble hpc hb hz =>
    rw [hpc] at hst
    obtain ⟨hq, he⟩ := preamble_step hg hpc hb hz hst hr heof
    exact ⟨hq, fun hi hq _ => he hi hq⟩
  | header j hj hpc hb hc =>
    rw [hpc] at hst
    obtain ⟨hq, he⟩ := header_step hg hj hpc hb hc hst hr heof
    exact ⟨hq, fun hi hq => absurd hq (he hi)⟩
  | body j hj hpc hb hc =>
    rw [hpc] at hst
    obtain ⟨hq, he⟩ := body_step hg hj hpc hb hc hst hr heof
    exact ⟨hq, fun hi hq hall => he hi hq (hall j)⟩
  | skip j hj hjunk hpc hl hb hc =>
    rw [hpc] at hst
    obtain ⟨hq, he⟩ := skip_step hg hj hjunk hl hb hc hst hr
    exact ⟨hq, fun _ hq => absurd hq he⟩
  | scan j s scanned hj hjunk hpc hb hf hm hc =>
    exact ⟨scan_step hj hjunk hpc hb hf hm hc hst hr, fun _ _ hall => absurd (hall j) hjunk⟩
  | raised _ _ hpc _ =>
    rw [hpc] at hst
    cases hst

/-- A driver that has read everything and waits for more has yielded all frames but the last. -/
theorem waiting (hg : sc.Readable n) (hp : Reached sc n p [] h) (hpc : p.pc ≠ .raised)
    (hclear : ∀ j, (sc.written j).junk = []) (hw : p.step .go = none) :
    h = (sc.kept (n - 1)).map .frame := by
  have hwaits : p.Waits := by
    refine (Parser.enabled hpc).resolve_left ?_
    rintro ⟨r, hr⟩
    rw [hw] at hr
    cases hr
  cases hp with
  | preamble hpc hb hz =>
    rcases Nat.eq_zero_or_pos n with rfl | hn
    · rfl
    · have hl := congrArg List.length hb
      have hframe := length_between sc hn
      rw [List.append_nil, List.length_append] at hl
      have hfind := find_buf (Nat.zero_le n) hg.start hb
      rw [if_pos (by simp only [headerLen] at hframe; omega)] at hfind
      simp [Parser.Waits, Parser.move, hpc, Parser.preambleMove, hfind] at hwaits
  | header j hj hpc hb hc =>
    have hframe := length_between sc hj
    rw [List.append_nil] at hb
    rw [← hb] at hframe
    exact absurd (hwaits.header hpc) (Nat.not_lt.mpr hframe)
  | body j hj hpc hb hc =>
    have hshort := hwaits.body hpc
    have hlast : j + 1 = n := by
      by_contra hne
      have hnext := length_between sc (show j + 1 < n by omega)
      have hl := congrArg List.length hb
      have hframe := (sc.written j).bytes_length
      rw [sc.between_cons hj, List.append_nil, List.length_append] at hl
      simp only [headerLen, DvrFrame.header] at *
      omega
    rw [← hlast]
    rfl
  | skip j _ hjunk => exact absurd (hclear j) hjunk
  | scan j _ _ _ hjunk => exact absurd (hclear j) hjunk
  | raised _ _ h => exact absurd h hpc

end Reached
end DvrBridge.NetDvr3
