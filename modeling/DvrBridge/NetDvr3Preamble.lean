import DvrBridge.NetDvr3ScanLaw

/-! The two searches for a header: the preamble phase of `frames` against the scan loop of
`_resync`, on one stream that goes on for ever or ends somewhere. -/
namespace DvrBridge.NetDvr3
open H264 Search Machine Window
variable (s : Nat → UInt8) (stop : Option Nat)

/-- A driver that has read the stream up to `pos`. The device closes the connection at `stop`, if
it does. -/
structure Reading where
  parser : Parser := {}
  pos : Nat := 0

/-- Whether the device sends that much. -/
def sends (n : Nat) : Bool := stop.all (n ≤ ·)

namespace Reading

/-- Whether the stream is too short for the awaited read. -/
def short (r : Reading) : Bool :=
  match r.parser.move with
  | some (.read _) => !sends stop (r.pos + 1)
  | some (.readExactly n) => !sends stop (r.pos + n)
  | _ => false

def step (r : Reading) : Arrival → Option (Reading × List ParserOutput)
  | .go => (r.parser.step .go).map fun q => ({ r with parser := q.1 }, q.2)
  | .bytes k =>
    if sends stop (r.pos + k) then
      (r.parser.step (.data (slice s r.pos k))).map fun q => (⟨q.1, r.pos + k⟩, q.2)
    else none
  | .eof =>
    if r.short stop then (r.parser.step .eof).map fun q => ({ r with parser := q.1 }, q.2) else none

/-- The steps of one loop only; the run ends where the loop does. -/
def loopStep (l : Pc → Bool) (r : Reading) (a : Arrival) : Option (Reading × List ParserOutput) :=
  if l r.parser.pc then r.step s stop a else none

/-- The loop has ended at the header that starts at position `h`. -/
def FoundAt (h : Nat) (r : Reading) : Prop :=
  r.parser.pc = .header ∧ r.pos = h + r.parser.buf.length

end Reading

/-- The preamble phase of `frames`. -/
def Pc.preambleLoop : Pc → Bool
  | .preamble => true
  | _ => false

/-- The loop of `_resync`. -/
def Pc.scanLoop : Pc → Bool
  | .resync _ | .resyncRead _ => true
  | _ => false

/-- The scan loop, from the first byte with an empty buffer, finds the header at `h`. -/
def ScanFinds (h : Nat) : Prop :=
  ∃ as r out, run (Reading.loopStep s stop Pc.scanLoop) { parser := { pc := .resync 0 } } as =
    some (r, out) ∧ r.FoundAt h

/-- Whatever the chunks are, the preamble phase comes to an end at the header at `h`. -/
def PreambleFinds (h : Nat) : Prop :=
  Terminates (Reading.loopStep s stop Pc.preambleLoop) {} fun r _ => r.FoundAt h

namespace Reading
variable {s stop}

theorem step_cases {r r' : Reading} {a : Arrival} {o : List ParserOutput}
    (h : r.step s stop a = some (r', o)) :
    ∃ i, r.parser.step i = some (r'.parser, o) ∧ i.chunk = slice s r.pos i.chunk.length ∧
      r'.pos = r.pos + i.chunk.length ∧ (sends stop r.pos = true → sends stop r'.pos = true) ∧
      (i = .eof → r.short stop = true) ∧ i ≠ .timeout := by
  cases a with
  | go =>
    obtain ⟨⟨q, o'⟩, hs, he⟩ := Option.map_eq_some_iff.mp h
    cases he
    exact ⟨.go, hs, rfl, rfl, id, by simp, by simp⟩
  | bytes k =>
    obtain ⟨hk, h⟩ := Option.ite_none_right_eq_some.mp h
    obtain ⟨⟨q, o'⟩, hs, he⟩ := Option.map_eq_some_iff.mp h
    cases he
    refine ⟨.data (slice s r.pos k), hs, ?_, ?_, fun _ => hk, by simp, by simp⟩
    · simp [ParserInput.chunk]
    · simp [ParserInput.chunk]
  | eof =>
    obtain ⟨hshort, h⟩ := Option.ite_none_right_eq_some.mp h
    obtain ⟨⟨q, o'⟩, hs, he⟩ := Option.map_eq_some_iff.mp h
    cases he
    exact ⟨.eof, hs, rfl, rfl, id, fun _ => hshort, by simp⟩

theorem sends_of_le {m n : Nat} (h : sends stop n = true) (hmn : m ≤ n) :
    sends stop m = true := by
  unfold sends at h ⊢
  cases stop with
  | none => rfl
  | some e =>
    simp only [Option.all_some, decide_eq_true_eq] at h ⊢
    omega

/-- The connection is closed only on a read that needs more bytes than there are. -/
theorem not_sends_of_short {r : Reading} (h : r.short stop = true) :
    sends stop (r.pos + r.parser.wanted) = false := by
  unfold short at h
  split at h
  · rename_i n hm
    rw [(Parser.awaits hm).2]
    simpa using h
  · rename_i n hm
    rw [← Parser.awaits hm]
    simpa using h
  · cases h

/-- The stream never blocks the driver. -/
theorem enabled {r : Reading} (h : r.parser.pc ≠ .raised) :
    ∃ a, (r.step s stop a).isSome = true := by
  rcases Parser.enabled h with ⟨q, hq⟩ | hm | ⟨n, hm⟩
  · exact ⟨.go, by simp [step, hq]⟩
  · cases hsend : sends stop (r.pos + 1) with
    | true =>
      have hne : slice s r.pos 1 ≠ [] := by simp [slice]
      exact ⟨.bytes 1, by simp [step, hsend, Parser.step, hm, hne]⟩
    | false => exact ⟨.eof, by simp [step, short, hm, hsend, Parser.step]⟩
  · cases hsend : sends stop (r.pos + n) with
    | true => exact ⟨.bytes n, by simp [step, hsend, Parser.step, hm]⟩
    | false => exact ⟨.eof, by simp [step, short, hm, hsend, Parser.step]⟩

end Reading

/-- `first` is where the first magic stands. -/
def FirstMagic (first : Nat) : Prop := MagicAt s first ∧ ∀ j < first, ¬ MagicAt s j

section Loops
variable {s stop}

/-! The scan loop. -/

variable (s stop) in
/-- Where no magic starts in the first four bytes, the loop has not passed one; it ends at the
first. -/
def ScanState (r : Reading) : Prop :=
  sends stop r.pos = true ∧ ∃ base, Buffered s r.parser.buf r.pos base ∧
    match r.parser.pc with
    | .resync _ | .resyncRead _ => ∀ j < base + 4, ¬ MagicAt s j
    | .header => FirstMagic s (base + 4) ∧ 8 ≤ r.parser.buf.length
    | _ => True

theorem ScanState.step {r r' : Reading} {a : Arrival} {o : List ParserOutput}
    (h : ScanState s stop r) (hs : r.loopStep s stop Pc.scanLoop a = some (r', o)) :
    ScanState s stop r' := by
  obtain ⟨hin, hs⟩ := Option.ite_none_right_eq_some.mp hs
  obtain ⟨i, hp, hc, hpos, hsends, -, -⟩ := Reading.step_cases hs
  obtain ⟨hsent, base, hb, hclear⟩ := h
  have hstep := Parser.stepped hp
  refine ⟨hsends hsent, ?_⟩
  generalize r.parser.pc = pc at hin hclear hstep
  generalize r'.parser = q at hstep ⊢
  cases hstep with
  | scanFound scanned k hk h4 =>
    obtain ⟨hk4, hka, hkn⟩ := hb.find_some hk
    refine ⟨base + (k - 4), hpos ▸ hb.drop (by omega), ⟨?_, ?_⟩, ?_⟩
    · rwa [Nat.add_assoc, Nat.sub_add_cancel h4]
    · intro j hj
      rcases Nat.lt_or_ge j base with hlt | hge
      · exact hclear j (by omega)
      · have := hkn (j - base) (by omega)
        rwa [Nat.add_sub_cancel' hge] at this
    · rw [List.length_drop]
      omega
  | scanSkip scanned k hk h4 =>
    obtain ⟨-, hka, -⟩ := hb.find_some hk
    exact absurd hka (hclear _ (by omega))
  | scanNone scanned hk =>
    have hnone := hb.find_none hk
    refine ⟨base + (r.parser.buf.length - 7), hpos ▸ hb.drop (Nat.sub_le ..), ?_⟩
    intro j hj
    rcases Nat.lt_or_ge j (base + 4) with hlt | hge
    · exact hclear j hlt
    · have := hnone (j - base) (by omega)
      rwa [Nat.add_sub_cancel' (by omega)] at this
  | scanRead scanned chunk hl hcl => exact ⟨base, hpos ▸ hb.append hc, hclear⟩
  | scanFails scanned i _ hi =>
    refine ⟨base, ?_, trivial⟩
    rw [hpos]
    rcases hi with rfl | rfl <;> exact hb
  | scanEnd scanned _ =>
    refine ⟨base, ?_, trivial⟩
    rw [hpos]
    exact hb
  | found _ _ _ | notFound _ _ | preambleRead _ _ _ _ _ | preambleFails _ _ _ _
  | headerRead _ _ _ | headerFails _ _ _ | badHeader _ _ | parsed _ _ _ _ | bodyRead _ _ _ _
  | bodyFails _ _ _ _ | framed _ _ _ _ | lied _ _ _ => cases hin

/-- Where no magic starts in the first four bytes, the loop stops at the first, which is whole. -/
theorem scanFinds_first {h : Nat} (hearly : ∀ i < 4, ¬ MagicAt s i) (hf : ScanFinds s stop h) :
    FirstMagic s (h + 4) ∧ sends stop (h + 8) = true := by
  obtain ⟨as, r, out, hr, hpc, hpos⟩ := hf
  obtain ⟨hsent, base, hb, hstate⟩ : ScanState s stop r := by
    refine run_invariant' (fun r _ => ScanState s stop r) ?_ ?_ hr
    · refine ⟨?_, 0, ⟨rfl, rfl⟩, hearly⟩
      cases stop <;> simp [sends]
    · exact fun r _ a r' o hi hs => hi.step hs
  rw [hpc] at hstate
  obtain ⟨hfirst, hlen⟩ := hstate
  have hbase : base = h := by
    have := hb.pos_eq
    omega
  exact ⟨hbase ▸ hfirst, Reading.sends_of_le hsent (by omega)⟩

/-! The preamble phase. -/

variable (s) in
/-- After `t` steps the preamble phase has the stream from its first byte on, at most one chunk
beyond the first magic, or is at its header. -/
def PreambleState (first t : Nat) (r : Reading) : Prop :=
  r.pos ≤ first + 4099 ∧
    (r.parser.pc = .preamble ∧ Buffered s r.parser.buf r.pos 0 ∧ t ≤ r.pos ∨
      r.FoundAt (first - 4) ∧ t ≤ r.pos + 1)

theorem PreambleState.step {first t : Nat} {r r' : Reading} {a : Arrival} {o : List ParserOutput}
    (hfirst : FirstMagic s first) (h4 : 4 ≤ first) (h60004 : first ≤ 60004)
    (hsends : sends stop (first + 4) = true) (h : PreambleState s first t r)
    (hs : r.loopStep s stop Pc.preambleLoop a = some (r', o)) :
    PreambleState s first (t + 1) r' := by
  obtain ⟨hin, hs⟩ := Option.ite_none_right_eq_some.mp hs
  obtain ⟨i, hp, hc, hpos, -, hshort, htime⟩ := Reading.step_cases hs
  obtain ⟨hle, ⟨hpc, hb, ht⟩ | ⟨⟨hpc, -⟩, -⟩⟩ := h
  · have hfind := hb.find_first hfirst
    have hlen := hb.pos_eq
    have hfails := hb.length_lt_of_fails hfirst h4
    have hstep := Parser.stepped hp
    rw [hpc] at hstep
    unfold PreambleState Reading.FoundAt
    generalize r'.parser = q at hstep ⊢
    cases hstep with
    | found k hk hk4 =>
      rw [hk] at hfind
      obtain ⟨hl, hfind⟩ := Option.ite_none_right_eq_some.mp hfind.symm
      cases hfind
      simp only [ParserInput.chunk, List.length_nil] at hpos
      refine ⟨by omega, .inr ⟨⟨rfl, ?_⟩, by omega⟩⟩
      rw [List.length_drop]
      omega
    | notFound hn hl =>
      have := hfails hn
      simp only [maxPreamble] at hl
      omega
    | preambleRead chunk hn hl hne hcl =>
      have := hfails hn
      have := List.length_pos_iff.mpr hne
      simp only [ParserInput.chunk] at hpos hc
      exact ⟨by omega, .inl ⟨rfl, hpos ▸ hb.append hc, by omega⟩⟩
    | preambleFails i hn hl hi =>
      rcases hi with rfl | rfl
      · have hno := Reading.not_sends_of_short (hshort rfl)
        have hwanted : r.parser.wanted = 1 := by
          unfold Parser.wanted
          rw [hpc]
        have := hfails hn
        rw [Reading.sends_of_le hsends (by omega)] at hno
        cases hno
      · exact absurd rfl htime
  · rw [hpc] at hin
    cases hin

theorem preambleFinds_of_first {first : Nat} (hfirst : FirstMagic s first) (h4 : 4 ≤ first)
    (h60004 : first ≤ 60004) (hsends : sends stop (first + 4) = true) :
    PreambleFinds s stop (first - 4) := by
  have hstate : ∀ as r out,
      run (Reading.loopStep s stop Pc.preambleLoop) {} as = some (r, out) →
        PreambleState s first as.length r := by
    intro as r out hr
    refine run_invariant_inputs (fun r as _ => PreambleState s first as.length r) ?_ ?_ hr
    · exact ⟨Nat.zero_le _, .inl ⟨rfl, ⟨rfl, rfl⟩, Nat.le_refl _⟩⟩
    · intro r as _ a r' o hi hs
      rw [List.length_append]
      exact hi.step hfirst h4 h60004 hsends hs
  refine ⟨⟨first + 4100, ?_⟩, ?_⟩
  · intro as r out hr
    obtain ⟨hle, ⟨-, -, ht⟩ | ⟨-, ht⟩⟩ := hstate as r out hr
    · omega
    · omega
  · intro as r out hr hstuck
    obtain ⟨-, ⟨hpc, -, -⟩ | ⟨hfound, -⟩⟩ := hstate as r out hr
    · have hlive : r.parser.pc ≠ .raised := by simp [hpc]
      obtain ⟨a, ha⟩ := Reading.enabled hlive
      have := hstuck a
      rw [Reading.loopStep, if_pos (by rw [hpc]; rfl)] at this
      rw [this] at ha
      cases ha
    · exact hfound

/-- Behind a magic in the first four bytes the preamble phase sees no other. -/
theorem no_header_of_early {i : Nat} (hi : i < 4) (hm : MagicAt s i) {as : List Arrival}
    {r : Reading} {out : List ParserOutput}
    (hr : run (Reading.loopStep s stop Pc.preambleLoop) {} as = some (r, out)) :
    r.parser.pc ≠ .header := by
  have hinv : r.parser.pc = .raised ∨
      r.parser.pc = .preamble ∧ Buffered s r.parser.buf r.pos 0 := by
    refine run_invariant' (fun r _ => r.parser.pc = .raised ∨
      r.parser.pc = .preamble ∧ Buffered s r.parser.buf r.pos 0) ?_ ?_ hr
    · exact .inr ⟨rfl, rfl, rfl⟩
    · rintro r _ a r' o h hs
      obtain ⟨hin, hs⟩ := Option.ite_none_right_eq_some.mp hs
      obtain ⟨j, hp, hc, hpos, -, -, -⟩ := Reading.step_cases hs
      obtain hpc | ⟨hpc, hb⟩ := h
      · rw [hpc] at hin
        cases hin
      · have hstep := Parser.stepped hp
        rw [hpc] at hstep
        generalize r'.parser = q at hstep ⊢
        cases hstep with
        | found k hk h4 =>
          obtain ⟨-, -, hno⟩ := hb.find_some hk
          rw [← Nat.zero_add i] at hm
          exact absurd hm (hno i (by omega))
        | notFound _ _ => exact .inl rfl
        | preambleRead chunk _ _ _ _ => exact .inr ⟨rfl, hpos ▸ hb.append hc⟩
        | preambleFails _ _ _ _ => exact .inl rfl
  obtain hpc | ⟨hpc, -⟩ := hinv
  · simp [hpc]
  · simp [hpc]

end Loops

/-- Where the scan loop finds a header in the first 60000 bytes, the preamble phase finds the same
one, whatever the chunks are, exactly if no magic starts in the first four bytes of the stream. -/
theorem preambleFinds_iff (h : Nat) (hscan : ScanFinds s stop h) (h60000 : h ≤ 60000) :
    PreambleFinds s stop h ↔ ∀ i < 4, ¬ MagicAt s i := by
  constructor
  · intro hp i hi hm
    obtain ⟨as, r, out, hr, hpc, -⟩ := hp.exists_end
    exact no_header_of_early hi hm hr hpc
  · intro hearly
    obtain ⟨hfirst, hsends⟩ := scanFinds_first hearly hscan
    exact preambleFinds_of_first hfirst (by omega) (by omega) hsends

/-! The steps of the scan loop. -/

section scan
variable {s stop} {buf : Bytes} {resyncs scanned pos : Nat} {info : StreamInfo}

theorem scan_discards (hfind : find magic buf = none) :
    Reading.loopStep s stop Pc.scanLoop ⟨⟨.resync scanned, buf, resyncs, info⟩, pos⟩ .go =
      some (⟨⟨.resyncRead (scanned + (buf.length - 7)), buf.drop (buf.length - 7), resyncs, info⟩,
        pos⟩, []) := by
  simp [Reading.loopStep, Pc.scanLoop, Reading.step, Parser.step, Parser.move, Parser.resyncMove,
    hfind]

theorem scan_skips {i : Nat} (hfind : find magic buf = some i) (hi : i < 4) :
    Reading.loopStep s stop Pc.scanLoop ⟨⟨.resync scanned, buf, resyncs, info⟩, pos⟩ .go =
      some (⟨⟨.resyncRead scanned, buf.drop (i + 4), resyncs, info⟩, pos⟩, []) := by
  simp [Reading.loopStep, Pc.scanLoop, Reading.step, Parser.step, Parser.move, Parser.resyncMove,
    hfind, Nat.not_le.mpr hi]

theorem scan_finds {i : Nat} (hfind : find magic buf = some i) (hi : 4 ≤ i) :
    Reading.loopStep s stop Pc.scanLoop ⟨⟨.resync scanned, buf, resyncs, info⟩, pos⟩ .go =
      some (⟨⟨.header, buf.drop (i - 4), resyncs, info⟩, pos⟩, []) := by
  simp [Reading.loopStep, Pc.scanLoop, Reading.step, Parser.step, Parser.move, Parser.resyncMove,
    hfind, hi]

theorem scan_reads {buf' : Bytes} (hmax : scanned ≤ maxFrame)
    (hsends : sends stop (pos + 4096) = true) (hbuf : buf ++ slice s pos 4096 = buf') :
    Reading.loopStep s stop Pc.scanLoop ⟨⟨.resyncRead scanned, buf, resyncs, info⟩, pos⟩
        (.bytes 4096) =
      some (⟨⟨.resync scanned, buf', resyncs, info⟩, pos + 4096⟩, []) := by
  simp [Reading.loopStep, Pc.scanLoop, Reading.step, Parser.step, Parser.move, Parser.receive,
    hsends, Nat.not_lt.mpr hmax, hbuf]

end scan

/-- A header of zeros behind eight bytes, and nothing else. -/
def oneMagic (i : Nat) : UInt8 := [1, 0, 0, 0, 0, 0, 0, 0, 0x63, 0, 0x0c, 0].getD i 0

/-- The same behind a magic. -/
def twoMagics (i : Nat) : UInt8 := [0x63, 0, 0x0c, 0, 0, 0, 0, 0, 0x63, 0, 0x0c, 0].getD i 0

theorem oneMagic_scan : ScanFinds oneMagic none 4 := by
  have hnil : find magic [] = none := rfl
  have hfind : find magic (slice oneMagic 0 4096) = some 8 :=
    (find_slice_eq_some_iff oneMagic magic (by decide) 0 4096 8).mpr (by decide)
  let loop := Reading.loopStep oneMagic none Pc.scanLoop
  have hrun :=
    calc run loop ⟨{ pc := .resync 0 }, 0⟩ [.go, .bytes 4096, .go]
      _ = run loop ⟨{ pc := .resyncRead 0 }, 0⟩ [.bytes 4096, .go] :=
        run_cons_of_step (scan_discards hnil) _
      _ = run loop ⟨{ pc := .resync 0, buf := slice oneMagic 0 4096 }, 4096⟩ [.go] :=
        run_cons_of_step (scan_reads (Nat.zero_le _) rfl (List.nil_append _)) _
      _ = run loop ⟨{ pc := .header, buf := (slice oneMagic 0 4096).drop 4 }, 4096⟩ [] :=
        run_cons_of_step (scan_finds hfind (by decide)) _
  exact ⟨_, _, _, hrun, rfl, by simp⟩

theorem preambleFinds_oneMagic : PreambleFinds oneMagic none 4 :=
  (preambleFinds_iff oneMagic none 4 oneMagic_scan (by decide)).mpr (by decide)

theorem twoMagics_scan : ScanFinds twoMagics none 4 := by
  have hnil : find magic [] = none := rfl
  have hfind : find magic (slice twoMagics 0 4096) = some 0 :=
    (find_slice_eq_some_iff twoMagics magic (by decide) 0 4096 0).mpr (by decide)
  have hbuf : (slice twoMagics 0 4096).drop 4 ++ slice twoMagics 4096 4096 =
      slice twoMagics 4 8188 := by
    rw [drop_slice twoMagics (by decide)]
    exact slice_append twoMagics 4 4092 4096
  have hnext : find magic (slice twoMagics 4 8188) = some 4 :=
    (find_slice_eq_some_iff twoMagics magic (by decide) 4 8188 4).mpr (by decide)
  let loop := Reading.loopStep twoMagics none Pc.scanLoop
  have hrun :=
    calc run loop ⟨{ pc := .resync 0 }, 0⟩ [.go, .bytes 4096, .go, .bytes 4096, .go]
      _ = run loop ⟨{ pc := .resyncRead 0 }, 0⟩ [.bytes 4096, .go, .bytes 4096, .go] :=
        run_cons_of_step (scan_discards hnil) _
      _ = run loop ⟨{ pc := .resync 0, buf := slice twoMagics 0 4096 }, 4096⟩
          [.go, .bytes 4096, .go] :=
        run_cons_of_step (scan_reads (Nat.zero_le _) rfl (List.nil_append _)) _
      _ = run loop ⟨{ pc := .resyncRead 0, buf := (slice twoMagics 0 4096).drop 4 }, 4096⟩
          [.bytes 4096, .go] :=
        run_cons_of_step (scan_skips hfind (by decide)) _
      _ = run loop ⟨{ pc := .resync 0, buf := slice twoMagics 4 8188 }, 8192⟩ [.go] :=
        run_cons_of_step (scan_reads (Nat.zero_le _) rfl hbuf) _
      _ = run loop ⟨{ pc := .header, buf := (slice twoMagics 4 8188).drop 0 }, 8192⟩ [] :=
        run_cons_of_step (scan_finds hnext (by decide)) _
  exact ⟨_, _, _, hrun, rfl, by simp⟩

/-- The scan loop skips a magic at the very beginning; the preamble phase does not get past it. -/
theorem not_preambleFinds : ¬ ∀ (s : Nat → UInt8) (stop : Option Nat) (h : Nat),
    ScanFinds s stop h → h ≤ 60000 → PreambleFinds s stop h := by
  intro hall
  obtain ⟨as, r, out, hr, hpc, -⟩ :=
    (hall twoMagics none 4 twoMagics_scan (by decide)).exists_end
  exact no_header_of_early (by decide : 0 < 4) (by decide) hr hpc

end DvrBridge.NetDvr3
