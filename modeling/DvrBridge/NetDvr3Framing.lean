import DvrBridge.NetDvr3Steps

/-! The framing round trip: what the driver yields of a stream that a device wrote frame by frame. -/
namespace DvrBridge.NetDvr3
open H264 Search Machine

/-! The header. -/

theorem field_le (a b : Bytes) (i k n : Nat) (h : a.length = i) :
    field (a ++ le k n ++ b) i k = n % 256 ^ k := by
  rw [field, List.append_assoc, List.drop_left' h, List.take_left' (le_length k n), readLe_le]

theorem frameHeader_length (seq tsMs : Int) (key : Bool) (n : Int) :
    (frameHeader seq tsMs key n).length = headerLen := by
  simp [frameHeader, headerLen]

/-- The magic of a header stands at offset 4. -/
theorem frameHeader_magic (seq tsMs : Int) (key : Bool) (n : Int) (rest : Bytes) :
    ((frameHeader seq tsMs key n ++ rest).drop 4).take 4 = magic := by
  have h : frameHeader seq tsMs key n ++ rest = le 4 (seq % 2 ^ 32).toNat ++ (magic ++
      (le 4 0 ++ le 4 ((seq + 0x1000) % 2 ^ 32).toNat ++ le 4 (tsMs % 2 ^ 32).toNat ++
        [if key then frameI else frameP, 0] ++ le 2 ((n - 4) % 2 ^ 16).toNat ++ rest)) := by
    have hm : magic = le 2 0x0063 ++ le 2 0x000c := by decide
    simp only [frameHeader, hm, List.append_assoc]
  rw [h, List.drop_left' (le_length _ _)]
  exact List.take_left' rfl

/-- The parser reads back the fields of a header. -/
theorem parse_layout (seqA seqB ts len : Nat) (ftype : UInt8) :
    parseFrameHeader (le 4 seqA ++ le 2 0x0063 ++ le 2 0x000c ++ le 4 0 ++ le 4 seqB ++ le 4 ts ++
        [ftype, 0] ++ le 2 len) =
      some { seq := seqA % 256 ^ 4, tsMs := ts % 256 ^ 4, ftype := ftype,
             payloadLen := len % 256 ^ 2 + 4 } := by
  generalize hb : le 4 seqA ++ le 2 0x0063 ++ le 2 0x000c ++ le 4 0 ++ le 4 seqB ++ le 4 ts ++
    [ftype, 0] ++ le 2 len = hdr
  have hseq : field hdr 0 4 = seqA % 256 ^ 4 := by
    subst hb
    simpa only [List.append_assoc, List.nil_append] using field_le [] _ 0 4 seqA rfl
  have h63 : field hdr 4 2 = 0x0063 % 256 ^ 2 := by
    subst hb
    simpa only [List.append_assoc] using field_le (le 4 seqA) _ 4 2 0x0063 (by simp)
  have h0c : field hdr 6 2 = 0x000c % 256 ^ 2 := by
    subst hb
    simpa only [List.append_assoc] using
      field_le (le 4 seqA ++ le 2 0x0063) _ 6 2 0x000c (by simp)
  have hts : field hdr 16 4 = ts % 256 ^ 4 := by
    subst hb
    simpa only [List.append_assoc] using
      field_le (le 4 seqA ++ le 2 0x0063 ++ le 2 0x000c ++ le 4 0 ++ le 4 seqB) _ 16 4 ts (by simp)
  have hlen : field hdr 22 2 = len % 256 ^ 2 := by
    subst hb
    simpa only [List.append_assoc, List.append_nil] using
      field_le (le 4 seqA ++ le 2 0x0063 ++ le 2 0x000c ++ le 4 0 ++ le 4 seqB ++ le 4 ts ++
        [ftype, 0]) [] 22 2 len (by simp)
  have hty : hdr.getD 20 0 = ftype := by
    subst hb
    simp [List.getD_eq_getElem?_getD]
  rw [parseFrameHeader, if_neg (by rw [h63, h0c]; decide), hseq, hts, hlen, hty]

namespace DvrFrame

/-- The access units that the length field can announce. -/
def Fits (f : DvrFrame) : Prop := start4 <+: f.au ∧ f.au.length ≤ 65539

instance (f : DvrFrame) : Decidable f.Fits := inferInstanceAs (Decidable (_ ∧ _))

def header (f : DvrFrame) : FrameHeader :=
  { seq := (f.seq % 2 ^ 32).toNat
    tsMs := (f.tsMs % 2 ^ 32).toNat
    ftype := if f.keyframe then frameI else frameP
    payloadLen := f.au.length }

theorem parse_header {f : DvrFrame} (hf : f.Fits) :
    parseFrameHeader (frameHeader f.seq f.tsMs f.keyframe f.au.length) = some f.header := by
  have h4 : 4 ≤ f.au.length := hf.1.length_le
  have hlen := hf.2
  rw [frameHeader, parse_layout, header, Option.some.injEq, FrameHeader.mk.injEq]
  refine ⟨by omega, by omega, rfl, by omega⟩

theorem bytes_length (f : DvrFrame) : f.bytes.length = headerLen + f.au.length := by
  rw [bytes, List.length_append, frameHeader_length]

theorem video_header (f : DvrFrame) : Parser.videoFrame f.header f.au = f.video := by
  have hts : ((f.tsMs % 2 ^ 32).toNat : Int) = f.tsMs % 2 ^ 32 := by omega
  have hkey : ((if f.keyframe then frameI else frameP) = frameI) = (f.keyframe = true) := by
    cases f.keyframe <;> decide
  simp only [Parser.videoFrame, header, video, hts, hkey, Bool.decide_eq_true]

end DvrFrame

/-! What the loops see at the start of a frame. -/

section Buffer
variable {p : Parser} {rest : Bytes} {t : DvrFrame} {todo : List DvrFrame}

theorem encode_cons : encode (t :: todo) = t.bytes ++ encode todo := List.flatMap_cons

theorem take_header (h : p.buf ++ rest = encode (t :: todo)) (hl : headerLen ≤ p.buf.length) :
    p.buf.take headerLen = frameHeader t.seq t.tsMs t.keyframe t.au.length := by
  have htake := congrArg (List.take headerLen) h
  rw [List.take_append_of_le_length hl, encode_cons, DvrFrame.bytes, List.append_assoc,
    List.take_left' (frameHeader_length ..)] at htake
  exact htake

theorem take_payload (h : p.buf ++ rest = encode (t :: todo))
    (hl : headerLen + t.au.length ≤ p.buf.length) :
    (p.buf.take (headerLen + t.au.length)).drop headerLen = t.au := by
  have htake := congrArg (List.take (headerLen + t.au.length)) h
  rw [List.take_append_of_le_length hl, encode_cons,
    List.take_left' (DvrFrame.bytes_length t)] at htake
  rw [htake, DvrFrame.bytes, List.drop_left' (frameHeader_length ..)]

theorem drop_frame (h : p.buf ++ rest = encode (t :: todo))
    (hl : headerLen + t.au.length ≤ p.buf.length) :
    p.buf.drop (headerLen + t.au.length) ++ rest = encode todo := by
  have hdrop := congrArg (List.drop (headerLen + t.au.length)) h
  rw [List.drop_append_of_le_length hl, encode_cons,
    List.drop_left' (DvrFrame.bytes_length t)] at hdrop
  exact hdrop

/-- The bytes behind a frame that has a successor hold the successor's magic. -/
theorem next_magic (h : p.buf ++ rest = encode (t :: todo))
    (hl : headerLen + t.au.length + 8 ≤ p.buf.length) :
    todo ≠ [] ∧ (((p.buf.drop (headerLen + t.au.length)).take 8).drop 4).take 4 = magic := by
  have hdrop := drop_frame h (by omega)
  cases todo with
  | nil =>
    have hlen := congrArg List.length hdrop
    simp [encode] at hlen
    omega
  | cons u todo =>
    refine ⟨by simp, ?_⟩
    have h8 := congrArg (List.take 8) hdrop
    rw [List.take_append_of_le_length (by rw [List.length_drop]; omega)] at h8
    rw [h8, List.drop_take, List.take_take, encode_cons, DvrFrame.bytes, List.append_assoc]
    exact frameHeader_magic ..

end Buffer

/-! The phases of a run. -/

/-- Where the driver is in the stream of a preamble and frames, and what it has yielded. -/
inductive Phase (preamble : Bytes) (fs : List DvrFrame) (p : Parser) (rest : Bytes) :
    List ParserOutput → Prop where
  | preamble : p.pc = .preamble → p.buf ++ rest = preamble ++ encode fs → Phase preamble fs p rest []
  | header (done : List DvrFrame) (t : DvrFrame) (todo : List DvrFrame) : fs = done ++ t :: todo →
      p.pc = .header → p.buf ++ rest = encode (t :: todo) →
      Phase preamble fs p rest (done.map fun t => .frame t.video)
  | body (done : List DvrFrame) (t : DvrFrame) (todo : List DvrFrame) : fs = done ++ t :: todo →
      p.pc = .body t.header → p.buf ++ rest = encode (t :: todo) →
      Phase preamble fs p rest (done.map fun t => .frame t.video)
  | ended : p.pc = .raised →
      Phase preamble fs p rest ((fs.dropLast.map fun t => .frame t.video) ++ [.raised])

namespace Phase
variable {preamble : Bytes} {fs : List DvrFrame} {p q : Parser} {rest rest' : Bytes}
  {i : ParserInput} {o : List ParserOutput}

/-- The first magic is found as soon as it is in the buffer. -/
theorem find_buf (hb : p.buf ++ rest = preamble ++ encode fs)
    (hm : find magic (preamble ++ encode fs) = some (preamble.length + 4)) :
    find magic p.buf =
      if preamble.length + 8 ≤ p.buf.length then some (preamble.length + 4) else none := by
  rw [← hb] at hm
  exact find_of_append magic p.buf rest _ hm

/-- A search that fails leaves room in the buffer. -/
theorem buf_lt (hb : p.buf ++ rest = preamble ++ encode fs)
    (hm : find magic (preamble ++ encode fs) = some (preamble.length + 4))
    (hn : ∀ i, find magic p.buf = some i → i < 4) : p.buf.length < preamble.length + 8 := by
  have hfind := find_buf hb hm
  by_contra hl
  rw [if_pos (by omega)] at hfind
  have := hn _ hfind
  omega

theorem preamble_step (hpre : preamble.length ≤ 65528) (hne : fs ≠ [])
    (hm : find magic (preamble ++ encode fs) = some (preamble.length + 4))
    (hpc : p.pc = .preamble) (hb : p.buf ++ rest = preamble ++ encode fs)
    (hs : Stepped p .preamble i q o) (hr : rest = i.chunk ++ rest')
    (heof : i = .eof → rest.length < p.wanted) (htime : i ≠ .timeout) :
    Phase preamble fs q rest' o ∧ q.resyncs = p.resyncs := by
  obtain ⟨t, todo, rfl⟩ := List.exists_cons_of_ne_nil hne
  cases hs with
  | found k hk h4 =>
    rw [find_buf hb hm] at hk
    obtain ⟨hl, hk⟩ := Option.ite_none_right_eq_some.mp hk
    cases hk
    refine ⟨.header [] t todo rfl rfl ?_, rfl⟩
    have hd := congrArg (List.drop preamble.length) hb
    rw [List.drop_append_of_le_length (by omega), List.drop_left, hr] at hd
    simpa [ParserInput.chunk] using hd
  | notFound hn hl =>
    have := buf_lt hb hm hn
    simp only [maxPreamble] at hl
    omega
  | preambleRead chunk _ _ _ _ =>
    refine ⟨.preamble rfl ?_, rfl⟩
    rw [← hb, hr, List.append_assoc]
    rfl
  | preambleFails i hn _ hi =>
    rcases hi with rfl | rfl
    · have hlt := buf_lt hb hm hn
      have hrest := heof rfl
      rw [Parser.wanted, hpc] at hrest
      simp only at hrest
      have hlen := congrArg List.length hb
      rw [List.length_append, List.length_append, encode_cons, List.length_append,
        DvrFrame.bytes_length, headerLen] at hlen
      omega
    · exact absurd rfl htime

theorem header_step {done todo : List DvrFrame} {t : DvrFrame} (hfit : t.Fits)
    (hfs : fs = done ++ t :: todo) (hpc : p.pc = .header)
    (hb : p.buf ++ rest = encode (t :: todo)) (hs : Stepped p .header i q o)
    (hr : rest = i.chunk ++ rest') (heof : i = .eof → rest.length < p.wanted)
    (htime : i ≠ .timeout) :
    Phase preamble fs q rest' ((done.map fun t => .frame t.video) ++ o) ∧
      q.resyncs = p.resyncs := by
  have hlen := congrArg List.length hb
  rw [List.length_append, encode_cons, List.length_append, DvrFrame.bytes_length] at hlen
  cases hs with
  | headerRead chunk _ _ =>
    rw [List.append_nil]
    refine ⟨.header done t todo hfs rfl ?_, rfl⟩
    rw [← hb, hr, List.append_assoc]
    rfl
  | headerFails i hl hi =>
    rcases hi with rfl | rfl
    · have hrest := heof rfl
      rw [Parser.wanted, hpc] at hrest
      simp only at hrest
      omega
    · exact absurd rfl htime
  | badHeader hl hbad =>
    have := hbad t.header (by rw [take_header hb hl, DvrFrame.parse_header hfit])
    have := hfit.2
    simp only [maxFrame, DvrFrame.header] at *
    omega
  | parsed hdr hl hd _ =>
    rw [take_header hb hl, DvrFrame.parse_header hfit, Option.some.injEq] at hd
    subst hd
    rw [List.append_nil]
    refine ⟨.body done t todo hfs rfl ?_, rfl⟩
    rw [← hb, hr]
    rfl

theorem body_step {done todo : List DvrFrame} {t : DvrFrame} (hfit : t.Fits)
    (hfs : fs = done ++ t :: todo) (hpc : p.pc = .body t.header)
    (hb : p.buf ++ rest = encode (t :: todo)) (hs : Stepped p (.body t.header) i q o)
    (hr : rest = i.chunk ++ rest') (heof : i = .eof → rest.length < p.wanted)
    (htime : i ≠ .timeout) :
    Phase preamble fs q rest' ((done.map fun t => .frame t.video) ++ o) ∧
      q.resyncs = p.resyncs := by
  cases hs with
  | bodyRead _ chunk _ _ =>
    rw [List.append_nil]
    refine ⟨.body done t todo hfs rfl ?_, rfl⟩
    rw [← hb, hr, List.append_assoc]
    rfl
  | bodyFails _ i hl hi =>
    rcases hi with rfl | rfl
    · have hrest := heof rfl
      rw [Parser.wanted, hpc] at hrest
      -- a successor would be long enough
      have htodo : todo = [] := by
        cases todo with
        | nil => rfl
        | cons u todo =>
          have hlen := congrArg List.length hb
          rw [List.length_append, encode_cons, encode_cons, List.length_append,
            List.length_append, DvrFrame.bytes_length, DvrFrame.bytes_length] at hlen
          simp only [DvrFrame.header, headerLen] at hrest hlen
          omega
      have hlast : fs.dropLast = done := by rw [hfs, htodo, List.dropLast_concat]
      rw [← hlast]
      exact ⟨.ended rfl, rfl⟩
    · exact absurd rfl htime
  | framed _ hl _ _ =>
    have hl' : headerLen + t.au.length + 8 ≤ p.buf.length := hl
    obtain ⟨htodo, -⟩ := next_magic hb hl'
    obtain ⟨u, todo, rfl⟩ := List.exists_cons_of_ne_nil htodo
    have hpay := take_payload hb (by omega)
    have hout : (done.map fun t => ParserOutput.frame t.video) ++
        [.frame (Parser.videoFrame t.header
          ((p.buf.take (headerLen + t.header.payloadLen)).drop headerLen))] =
        (done ++ [t]).map fun t => .frame t.video := by
      rw [List.map_append, show t.header.payloadLen = t.au.length from rfl, hpay,
        DvrFrame.video_header]
      rfl
    rw [hout]
    refine ⟨.header (done ++ [t]) u todo (by rw [hfs, List.append_assoc]; rfl) rfl ?_, rfl⟩
    have hd := drop_frame hb (by omega)
    rwa [hr] at hd
  | lied _ hl hlied =>
    have hl' : headerLen + t.au.length + 8 ≤ p.buf.length := hl
    refine absurd ⟨?_, (next_magic hb hl').2⟩ hlied
    have hpay := take_payload hb (by omega)
    exact hpay.symm ▸ hfit.1

/-- Every step stays in the phases and starts no resynchronisation. -/
theorem step (hpre : preamble.length ≤ 65528) (hne : fs ≠ []) (hfit : ∀ t ∈ fs, t.Fits)
    (hm : find magic (preamble ++ encode fs) = some (preamble.length + 4)) {f f' : Feed}
    {a : Arrival} {h : List ParserOutput} (hp : Phase preamble fs f.parser f.rest h)
    (hs : f.step a = some (f', o)) :
    Phase preamble fs f'.parser f'.rest (h ++ o) ∧ f'.parser.resyncs = f.parser.resyncs := by
  obtain ⟨i, hi, hr, hshort, htime⟩ := Feed.step_cases hs
  have heof : i = .eof → f.rest.length < f.parser.wanted :=
    fun h => Feed.rest_lt_of_short (hshort h)
  have hst := Parser.stepped hi
  cases hp with
  | preamble hpc hb =>
    rw [hpc] at hst
    exact preamble_step hpre hne hm hpc hb hst hr heof htime
  | header done t todo hfs hpc hb =>
    rw [hpc] at hst
    exact header_step (hfit t (by simp [hfs])) hfs hpc hb hst hr heof htime
  | body done t todo hfs hpc hb =>
    rw [hpc] at hst
    exact body_step (hfit t (by simp [hfs])) hfs hpc hb hst hr heof htime
  | ended hpc =>
    rw [hpc] at hst
    cases hst

end Phase

/-- Whatever chunks the stream of a preamble and frames comes in, the driver yields all frames but
the last, in order, without a resynchronisation, and ends with a `DriverError`. -/
theorem framing_round_trip (preamble : Bytes) (fs : List DvrFrame)
    (hpre : preamble.length ≤ 65528) (hne : fs ≠ [])
    (hfit : ∀ f ∈ fs, start4 <+: f.au ∧ 4 ≤ f.au.length ∧ f.au.length ≤ 65539)
    (hm : find magic (preamble ++ encode fs) = some (preamble.length + 4))
    (as : List Arrival) (f : Feed) (out : List ParserOutput)
    (hr : run Feed.step (Feed.start (preamble ++ encode fs)) as = some (f, out)) :
    as.length ≤ 8 * (preamble ++ encode fs).length + 3 ∧
      (f.parser.pc = .raised ∨ ∃ a, (f.step a).isSome = true) ∧
      (f.parser.pc = .raised →
        out = (fs.dropLast.map fun t => .frame t.video) ++ [.raised] ∧ f.parser.resyncs = 0) ∧
      out <+: (fs.dropLast.map fun t => .frame t.video) ++ [.raised] := by
  have hfit' : ∀ t ∈ fs, t.Fits := fun t ht => ⟨(hfit t ht).1, (hfit t ht).2.2⟩
  have hinv : Phase preamble fs f.parser f.rest out ∧ f.parser.resyncs = 0 := by
    refine run_invariant' (fun f out => Phase preamble fs f.parser f.rest out ∧ f.parser.resyncs = 0)
      ⟨.preamble rfl rfl, rfl⟩ ?_ hr
    rintro c h a c' o ⟨hp, hz⟩ hs
    obtain ⟨hp', hz'⟩ := Phase.step hpre hne hfit' hm hp hs
    exact ⟨hp', hz'.trans hz⟩
  obtain ⟨hp, hz⟩ := hinv
  refine ⟨?_, ?_, ?_, ?_⟩
  · have := Feed.run_length_le hr
    simpa [Feed.weight, Feed.start, Parser.weight, Nat.add_comm] using this
  · by_cases hpc : f.parser.pc = .raised
    · exact .inl hpc
    · exact .inr (Feed.enabled hpc)
  · intro hpc
    refine ⟨?_, hz⟩
    cases hp with
    | preamble h _ => rw [hpc] at h; cases h
    | header _ _ _ _ h _ => rw [hpc] at h; cases h
    | body _ _ _ _ h _ => rw [hpc] at h; cases h
    | ended _ => rfl
  · have hbefore : ∀ done t todo, fs = done ++ t :: todo →
        (done.map fun t => ParserOutput.frame t.video) <+:
          (fs.dropLast.map fun t => .frame t.video) ++ [.raised] := by
      rintro done t todo rfl
      rw [List.dropLast_append_of_ne_nil (by simp), List.map_append, List.append_assoc]
      exact List.prefix_append _ _
    cases hp with
    | preamble _ _ => exact List.nil_prefix
    | header done t todo hfs _ _ => exact hbefore done t todo hfs
    | body done t todo hfs _ _ => exact hbefore done t todo hfs
    | ended _ => exact List.prefix_rfl

/-- Two frames behind a short preamble; the first payload holds the magic. -/
def twoFrames : List DvrFrame :=
  [{ seq := 7, tsMs := 2 ^ 32 + 40, keyframe := true, au := [0, 0, 0, 1, 0x63, 0, 0x0c, 0] },
    { seq := 8, tsMs := 80, keyframe := false, au := [0, 0, 0, 1, 0x41] }]

def twoChunks : List Arrival :=
  [.bytes 3, .bytes 8, .go, .bytes 16, .go, .bytes 16, .go, .bytes 16, .go, .eof]

theorem two_frames_run :
    ((run Feed.step (Feed.start ([1, 2, 3] ++ encode twoFrames)) twoChunks).map fun r =>
      decide (r.1.parser.pc = .raised)) = some true := by
  decide +kernel

theorem framing_round_trip_two : ∃ f out,
    run Feed.step (Feed.start ([1, 2, 3] ++ encode twoFrames)) twoChunks = some (f, out) ∧
      f.parser.pc = .raised ∧ f.parser.resyncs = 0 ∧
      out = [.frame { payload := [0, 0, 0, 1, 0x63, 0, 0x0c, 0], tsMs := some 40, keyframe := true },
        .raised] := by
  obtain ⟨⟨f, out⟩, hr, hd⟩ := Option.map_eq_some_iff.mp two_frames_run
  have hpc := of_decide_eq_true hd
  obtain ⟨-, -, hend, -⟩ := framing_round_trip [1, 2, 3] twoFrames (by decide) (by decide)
    (by decide) (by decide +kernel) twoChunks f out hr
  obtain ⟨hout, hz⟩ := hend hpc
  refine ⟨f, out, hr, hpc, hz, hout.trans ?_⟩
  decide

end DvrBridge.NetDvr3
