import DvrBridge.NetDvr3Scan

/-! The driver follows the scanner: which move of the scanner each of its states belongs to, and how
many steps a move takes at most. -/
namespace DvrBridge.NetDvr3
open H264 Search Machine Window
variable (s : Nat → UInt8)

/-- No magic has been passed since the last skipped position: the buffer starts there, or at least
four bytes before the next magic. -/
def Clear (pos base : Nat) : Prop :=
  pos ≤ base ∧ (pos < base → ∀ j, pos ≤ j → j < base + 4 → ¬ MagicAt s j)

theorem Clear.scanned_le {s : Nat → UInt8} {pos base : Nat} (h : Clear s pos base)
    (hdense : ∀ i, ∃ m, i ≤ m ∧ m + 4 ≤ i + 2 ^ 20 ∧ MagicAt s m) : base - pos ≤ 2 ^ 20 := by
  rcases Nat.lt_or_ge pos base with hlt | hge
  · obtain ⟨m, hm, hend, ha⟩ := hdense pos
    by_contra hbig
    exact h.2 hlt m hm (by omega) ha
  · omega

theorem Clear.start {s : Nat → UInt8} (pos : Nat) : Clear s pos pos :=
  ⟨Nat.le_refl _, fun h => absurd h (Nat.lt_irrefl _)⟩

/-- A bound for the steps before the scanner's `n`-th move. -/
def stepsFor (n : Nat) : Nat := 64100 + (2 ^ 20 + 8) * n

theorem stepsFor_succ (n : Nat) : stepsFor (n + 1) = stepsFor n + 1048584 := by
  simp only [stepsFor]
  omega

/-- The scanner's state after `n` moves and the driver's after `t` steps; the buffer starts at
`base`. -/
inductive Tracks (first : Nat) (p : Parser) (base n t : Nat) : Pc → Scanner → Prop where
  | preamble : base = 0 → n = 0 → p.buf.length ≤ 64099 → t ≤ p.buf.length →
      Tracks first p base n t .preamble (.header (first - 4))
  | header : MagicAt s (base + 4) →
      t ≤ stepsFor n + (if p.buf.length < headerLen then 0 else 1) →
      Tracks first p base n t .header (.header base)
  | body : MagicAt s (base + 4) →
      t ≤ stepsFor n + 2 +
        (if p.buf.length < headerLen + payloadLenAt s base + 8 then 0 else 1) →
      Tracks first p base n t (.body (headerAt s base)) (.header base)
  -- the buffer starts with the magic of the rejected header
  | desync (q : Nat) : base = q + 4 → MagicAt s (q + 4) → ¬ FrameAt s q → 4 ≤ p.buf.length →
      t ≤ stepsFor n + 4 → Tracks first p base n t (.resync 0) (.header q)
  | search (pos scanned : Nat) : Clear s pos base → scanned = base - pos → 4096 ≤ p.buf.length →
      t ≤ stepsFor n + scanned + 1 → Tracks first p base n t (.resync scanned) (.skipped pos)
  | read (pos scanned : Nat) : Clear s pos base → scanned = base - pos →
      t ≤ stepsFor n + scanned → Tracks first p base n t (.resyncRead scanned) (.skipped pos)

/-- A step of the driver is at most one move of the scanner. -/
inductive Moves (n : Nat) (st : Scanner) : Nat → Scanner → List ParserOutput → Prop where
  | stays : Moves n st n st []
  | moves : Moves n st (n + 1) (st.move s).1 ((st.move s).2.map .frame)

/-- What a step leaves. -/
def Followed (first : Nat) (q : Parser) (pos n t : Nat) (st : Scanner) (o : List ParserOutput) :
    Prop :=
  ∃ n' st' base, Moves s n st n' st' o ∧ Buffered s q.buf pos base ∧
    Tracks s first q base n' (t + 1) q.pc st'

section Steps
variable {s} {first : Nat} {p q : Parser} {pos base n t : Nat} {i : ParserInput}
  {o : List ParserOutput}

theorem preamble_followed (hfirst : MagicAt s first ∧ ∀ j < first, ¬ MagicAt s j)
    (h4 : 4 ≤ first) (h60000 : first ≤ 60000) (hb : Buffered s p.buf pos 0)
    (ht : t ≤ p.buf.length) (hlen : p.buf.length ≤ 64099) (hs : Stepped p .preamble i q o)
    (hc : i.chunk = slice s pos i.chunk.length) (heof : i ≠ .eof) (htime : i ≠ .timeout) :
    Followed s first q (pos + i.chunk.length) 0 t (.header (first - 4)) o := by
  have hshort := hb.length_lt_of_fails hfirst h4
  cases hs with
  | found k hk _ =>
    obtain ⟨hk4, -, -⟩ := hb.find_some hk
    rw [hb.find_first hfirst] at hk
    obtain ⟨-, hk⟩ := Option.ite_none_right_eq_some.mp hk
    cases hk
    have hd := hb.drop (k := first - 4) (by omega)
    rw [Nat.zero_add] at hd
    refine ⟨0, _, first - 4, .stays, hd, .header ?_ ?_⟩
    · rw [Nat.sub_add_cancel h4]
      exact hfirst.1
    · simp only [stepsFor]
      omega
  | notFound hn hl =>
    have := hshort hn
    simp only [maxPreamble] at hl
    omega
  | preambleRead chunk hn hl hne hcl =>
    have hlt := hshort hn
    have hpos := List.length_pos_iff.mpr hne
    refine ⟨0, _, 0, .stays, hb.append hc, .preamble rfl rfl ?_ ?_⟩
    · simp only [List.length_append]
      omega
    · simp only [List.length_append]
      omega
  | preambleFails i _ _ hi => exact absurd hi (by simp [heof, htime])

theorem header_followed (hb : Buffered s p.buf pos base) (hm : MagicAt s (base + 4))
    (ht : t ≤ stepsFor n + (if p.buf.length < headerLen then 0 else 1))
    (hs : Stepped p .header i q o) (hc : i.chunk = slice s pos i.chunk.length) (heof : i ≠ .eof)
    (htime : i ≠ .timeout) :
    Followed s first q (pos + i.chunk.length) n t (.header base) o := by
  cases hs with
  | headerRead chunk hl hcl =>
    rw [if_pos hl] at ht
    refine ⟨n, _, base, .stays, hb.append hc, .header hm ?_⟩
    rw [if_neg (by simp only [List.length_append]; omega)]
    omega
  | headerFails i _ hi => exact absurd hi (by simp [heof, htime])
  | badHeader hl hbad =>
    have hgood := hbad (headerAt s base) (by rw [hb.take_header hl, parse_headerAt s hm])
    have := payloadLenAt_le s base
    simp only [headerAt, maxFrame] at hgood
    omega
  | parsed hdr hl hd _ =>
    rw [hb.take_header hl, parse_headerAt s hm, Option.some.injEq] at hd
    subst hd
    rw [if_neg (Nat.not_lt.mpr hl)] at ht
    refine ⟨n, _, base, .stays, hb, .body hm ?_⟩
    omega

theorem body_followed (hb : Buffered s p.buf pos base) (hm : MagicAt s (base + 4))
    (ht : t ≤ stepsFor n + 2 +
      (if p.buf.length < headerLen + payloadLenAt s base + 8 then 0 else 1))
    (hs : Stepped p (.body (headerAt s base)) i q o)
    (hc : i.chunk = slice s pos i.chunk.length) (heof : i ≠ .eof) (htime : i ≠ .timeout) :
    Followed s first q (pos + i.chunk.length) n t (.header base) o := by
  -- what the driver checks is what the scanner checks
  have hcheck : headerLen + payloadLenAt s base + 8 ≤ p.buf.length →
      ((start4 <+: (p.buf.take (headerLen + payloadLenAt s base)).drop headerLen ∧
        (((p.buf.drop (headerLen + payloadLenAt s base)).take 8).drop 4).take 4 = magic) ↔
      FrameAt s base) := by
    intro hl
    rw [hb.payload (by omega), hb.peek hl, ← Nat.add_assoc]
    rfl
  cases hs with
  | bodyRead _ chunk hl hcl =>
    have hl' : p.buf.length < headerLen + payloadLenAt s base + 8 := hl
    have hcl' : chunk.length = headerLen + payloadLenAt s base + 8 - p.buf.length := hcl
    rw [if_pos hl'] at ht
    refine ⟨n, _, base, .stays, hb.append hc, .body hm ?_⟩
    rw [if_neg (by simp only [List.length_append]; omega)]
    omega
  | bodyFails _ i _ hi => exact absurd hi (by simp [heof, htime])
  | framed _ hl h₁ h₂ =>
    have hl' : headerLen + payloadLenAt s base + 8 ≤ p.buf.length := hl
    have hframe := (hcheck hl').mp ⟨h₁, h₂⟩
    have hmove : (Scanner.header base).move s =
        (.header (base + 24 + payloadLenAt s base), [frameAt s base]) := if_pos hframe
    have hmoves : Moves s n (.header base) (n + 1) _ _ := .moves
    rw [hmove] at hmoves
    have hpay : (p.buf.take (headerLen + payloadLenAt s base)).drop headerLen = payloadAt s base :=
      hb.payload (by omega)
    refine ⟨n + 1, .header (base + 24 + payloadLenAt s base), base + 24 + payloadLenAt s base,
      ?_, ?_, .header hframe.2 ?_⟩
    · have hout : Parser.videoFrame (headerAt s base)
          ((p.buf.take (headerLen + (headerAt s base).payloadLen)).drop headerLen) =
          frameAt s base := by
        rw [show (headerAt s base).payloadLen = payloadLenAt s base from rfl, hpay]
        rfl
      rw [hout]
      exact hmoves
    · have hd := hb.drop (k := headerLen + payloadLenAt s base) (by omega)
      rwa [← Nat.add_assoc] at hd
    · rw [if_neg (Nat.not_lt.mpr hl')] at ht
      rw [stepsFor_succ]
      refine Nat.le_trans ?_ (Nat.le_add_right _ _)
      omega
  | lied _ hl hlied =>
    have hl' : headerLen + payloadLenAt s base + 8 ≤ p.buf.length := hl
    refine ⟨n, _, base + 4, .stays, hb.drop (by omega), .desync base rfl hm ?_ ?_ ?_⟩
    · exact fun hf => hlied ((hcheck hl').mpr hf)
    · rw [Parser.startResync_buf, List.length_drop]
      omega
    · rw [if_neg (Nat.not_lt.mpr hl')] at ht
      omega

theorem desync_followed {q₀ : Nat} (hb : Buffered s p.buf pos (q₀ + 4))
    (hm : MagicAt s (q₀ + 4)) (hbad : ¬ FrameAt s q₀) (ht : t ≤ stepsFor n + 4)
    (hs : Stepped p (.resync 0) i q o) (hl : 4 ≤ p.buf.length) :
    Followed s first q (pos + i.chunk.length) n t (.header q₀) o := by
  have hfind : find magic p.buf = some 0 := by
    rw [hb.eq_slice]
    exact (find_slice_eq_some_iff s magic (by decide) _ _ 0).mpr ⟨hl, hm, by simp⟩
  cases hs with
  | scanFound _ k hk h4 =>
    rw [hfind] at hk
    cases hk
    omega
  | scanSkip _ k hk _ =>
    rw [hfind] at hk
    cases hk
    have hmove : (Scanner.header q₀).move s = (.skipped (q₀ + 8), []) := if_neg hbad
    have hmoves : Moves s n (.header q₀) (n + 1) _ _ := .moves
    rw [hmove] at hmoves
    refine ⟨n + 1, _, q₀ + 8, hmoves, hb.drop hl, .read (q₀ + 8) 0 (.start _) (by omega) ?_⟩
    rw [stepsFor_succ]
    omega
  | scanNone _ hk =>
    rw [hfind] at hk
    cases hk

theorem search_followed {pos₀ scanned : Nat} (hb : Buffered s p.buf pos base)
    (hclear : Clear s pos₀ base) (hsc : scanned = base - pos₀)
    (hdense : ∀ i, ∃ m, i ≤ m ∧ m + 4 ≤ i + 2 ^ 20 ∧ MagicAt s m) (hl : 4096 ≤ p.buf.length)
    (ht : t ≤ stepsFor n + scanned + 1) (hs : Stepped p (.resync scanned) i q o) :
    Followed s first q (pos + i.chunk.length) n t (.skipped pos₀) o := by
  have hscanned := hclear.scanned_le hdense
  obtain ⟨hle, hno⟩ := hclear
  -- the first magic in the buffer is the next one of the scanner
  have hnext : ∀ k, find magic p.buf = some k → next s magic pos₀ = base + k := by
    intro k hk
    obtain ⟨-, hka, hkn⟩ := hb.find_some hk
    refine next_eq s (by omega) hka ?_
    intro j hj hjk
    rcases Nat.lt_or_ge j base with hjb | hjb
    · exact hno (by omega) j hj (by omega)
    · have := hkn (j - base) (by omega)
      rwa [Nat.add_sub_cancel' hjb] at this
  cases hs with
  | scanFound _ k hk h4 =>
    have hmove : (Scanner.skipped pos₀).move s = (.header (base + k - 4), []) := by
      simp only [Scanner.move, hnext k hk]
      rw [if_pos (by omega)]
    have hmoves : Moves s n (.skipped pos₀) (n + 1) _ _ := .moves
    rw [hmove] at hmoves
    obtain ⟨hk4, hka, -⟩ := hb.find_some hk
    have hd := hb.drop (k := k - 4) (by omega)
    rw [← Nat.add_sub_assoc h4] at hd
    refine ⟨n + 1, _, base + k - 4, hmoves, hd, .header ?_ ?_⟩
    · rwa [Nat.sub_add_cancel (by omega)]
    · rw [stepsFor_succ]
      refine Nat.le_trans ?_ (Nat.le_add_right _ _)
      omega
  | scanSkip _ k hk h4 =>
    obtain ⟨hk4, hka, -⟩ := hb.find_some hk
    have heq : base = pos₀ := by
      by_contra hne
      exact hno (by omega) (base + k) (by omega) (by omega) hka
    have hmove : (Scanner.skipped pos₀).move s = (.skipped (base + k + 4), []) := by
      simp only [Scanner.move, hnext k hk]
      rw [if_neg (by omega)]
    have hmoves : Moves s n (.skipped pos₀) (n + 1) _ _ := .moves
    rw [hmove] at hmoves
    refine ⟨n + 1, _, base + k + 4, hmoves, hb.drop hk4,
      .read (base + k + 4) scanned (.start _) (by omega) ?_⟩
    rw [stepsFor_succ]
    omega
  | scanNone _ hk =>
    have hnone := hb.find_none hk
    have hd := hb.drop (k := p.buf.length - 7) (Nat.sub_le ..)
    refine ⟨n, _, _, .stays, hd, .read pos₀ _ ⟨by omega, ?_⟩ (by omega) (by omega)⟩
    intro _ j hj hjb
    rcases Nat.lt_or_ge j base with hlt | hge
    · exact hno (by omega) j hj (by omega)
    · have := hnone (j - base) (by omega)
      rwa [Nat.add_sub_cancel' hge] at this

theorem read_followed {pos₀ scanned : Nat} (hb : Buffered s p.buf pos base)
    (hclear : Clear s pos₀ base) (hsc : scanned = base - pos₀)
    (hdense : ∀ i, ∃ m, i ≤ m ∧ m + 4 ≤ i + 2 ^ 20 ∧ MagicAt s m)
    (ht : t ≤ stepsFor n + scanned) (hs : Stepped p (.resyncRead scanned) i q o)
    (hc : i.chunk = slice s pos i.chunk.length) (heof : i ≠ .eof) (htime : i ≠ .timeout) :
    Followed s first q (pos + i.chunk.length) n t (.skipped pos₀) o := by
  cases hs with
  | scanRead _ chunk _ hcl =>
    refine ⟨n, _, base, .stays, hb.append hc, .search pos₀ scanned hclear hsc ?_ ?_⟩
    · simp only [List.length_append]
      omega
    · omega
  | scanFails _ i _ hi => exact absurd hi (by simp [heof, htime])
  | scanEnd _ hmax =>
    have := hclear.scanned_le hdense
    simp only [maxFrame] at hmax
    omega

/-- Every step of the driver is at most one move of the scanner. -/
theorem Tracks.step (hfirst : MagicAt s first ∧ ∀ j < first, ¬ MagicAt s j)
    (h4 : 4 ≤ first) (h60000 : first ≤ 60000)
    (hdense : ∀ i, ∃ m, i ≤ m ∧ m + 4 ≤ i + 2 ^ 20 ∧ MagicAt s m) {st : Scanner}
    (ht : Tracks s first p base n t p.pc st) (hb : Buffered s p.buf pos base)
    (hs : Stepped p p.pc i q o) (hc : i.chunk = slice s pos i.chunk.length) (heof : i ≠ .eof)
    (htime : i ≠ .timeout) : Followed s first q (pos + i.chunk.length) n t st o := by
  generalize p.pc = pc at ht hs
  cases ht with
  | preamble hbase hn hlen ht =>
    subst hbase hn
    exact preamble_followed hfirst h4 h60000 hb ht hlen hs hc heof htime
  | header hm ht => exact header_followed hb hm ht hs hc heof htime
  | body hm ht => exact body_followed hb hm ht hs hc heof htime
  | desync q₀ hbase hm hbad hl ht =>
    subst hbase
    exact desync_followed hb hm hbad ht hs hl
  | search pos₀ scanned hclear hsc hl ht => exact search_followed hb hclear hsc hdense hl ht hs
  | read pos₀ scanned hclear hsc ht =>
    exact read_followed hb hclear hsc hdense ht hs hc heof htime

theorem Tracks.le_stepsFor (hdense : ∀ i, ∃ m, i ≤ m ∧ m + 4 ≤ i + 2 ^ 20 ∧ MagicAt s m) {pc : Pc}
    {st : Scanner} (h : Tracks s first p base n t pc st) : t ≤ stepsFor (n + 1) := by
  rw [stepsFor_succ]
  cases h with
  | preamble _ _ hlen ht =>
    simp only [stepsFor]
    omega
  | header _ ht => split at ht <;> omega
  | body _ ht => split at ht <;> omega
  | desync _ _ _ _ _ ht => omega
  | search pos scanned hclear hsc _ ht =>
    have := hclear.scanned_le hdense
    omega
  | read pos scanned hclear hsc ht =>
    have := hclear.scanned_le hdense
    omega

theorem Tracks.not_raised {st : Scanner} (h : Tracks s first p base n t p.pc st) :
    p.pc ≠ .raised := by
  intro hpc
  rw [hpc] at h
  cases h

end Steps

theorem scan_le (q : Nat) {k n : Nat} (h : k ≤ n) : (scan s q k).2 <+: (scan s q n).2 := by
  induction n, h using Nat.le_induction with
  | base => exact List.prefix_rfl
  | succ n _ ih => exact ih.trans (List.prefix_append _ _)

/-- On a stream without end that starts in the preamble's limit and never goes a mebibyte without
the magic, the driver yields the frames of the scanner: whatever the chunks are, what it has
yielded is what some moves of the scanner emit, any number of moves is done after enough steps,
and there is always a next step. -/
theorem resync_is_naive_scan (first : Nat) (hfirst : MagicAt s first ∧ ∀ j < first, ¬ MagicAt s j)
    (h4 : 4 ≤ first) (h60000 : first ≤ 60000)
    (hdense : ∀ i, ∃ m, i ≤ m ∧ m + 4 ≤ i + 2 ^ 20 ∧ MagicAt s m) (cs : List Cut) (e : Endless)
    (out : List ParserOutput) (hr : run (Endless.step s) {} cs = some (e, out)) :
    (∃ n, out = (scan s (first - 4) n).2.map .frame) ∧
      (∀ k, stepsFor k < cs.length → (scan s (first - 4) k).2.map .frame <+: out) ∧
      ∃ c, (e.step s c).isSome = true := by
  have hinv : ∃ n base, Buffered s e.parser.buf e.pos base ∧
      Tracks s first e.parser base n cs.length e.parser.pc (scan s (first - 4) n).1 ∧
      out = (scan s (first - 4) n).2.map .frame := by
    refine run_invariant_inputs (fun e cs out => ∃ n base,
      Buffered s e.parser.buf e.pos base ∧
      Tracks s first e.parser base n cs.length e.parser.pc (scan s (first - 4) n).1 ∧
      out = (scan s (first - 4) n).2.map .frame) ?_ ?_ hr
    · exact ⟨0, 0, ⟨rfl, rfl⟩, .preamble rfl rfl (Nat.zero_le _) (Nat.le_refl _), rfl⟩
    · rintro e cs h c e' o ⟨n, base, hb, ht, rfl⟩ hs
      obtain ⟨i, hi, hc, hpos, heof, htime⟩ := Endless.step_cases s hs
      obtain ⟨n', st', base', hm, hb', ht'⟩ :=
        ht.step hfirst h4 h60000 hdense hb (Parser.stepped hi) hc heof htime
      rw [← hpos] at hb'
      cases hm with
      | stays =>
        rw [List.append_nil, List.length_append]
        exact ⟨n, base', hb', ht', rfl⟩
      | moves =>
        rw [List.length_append]
        exact ⟨n + 1, base', hb', ht', (List.map_append ..).symm⟩
  obtain ⟨n, base, -, ht, hout⟩ := hinv
  refine ⟨⟨n, hout⟩, ?_, Endless.enabled s ht.not_raised⟩
  intro k hk
  have hle := ht.le_stepsFor hdense
  have hkn : k ≤ n := by
    simp only [stepsFor] at hk hle
    omega
  rw [hout]
  exact (scan_le s (first - 4) hkn).map _

/-- One frame over and over. -/
def sameFrame (i : Nat) : UInt8 :=
  [1, 0, 0, 0, 0x63, 0, 0x0c, 0, 0, 0, 0, 0, 2, 0, 0, 0, 40, 0, 0, 0, 0x64, 0, 4, 0,
    0, 0, 0, 1, 0x65, 1, 2, 3].getD (i % 32) 0

theorem sameFrame_magic (k : Nat) : MagicAt sameFrame (32 * k + 4) := by
  have h : ∀ j < 28, (32 * k + 4 + j) % 32 = 4 + j := fun j hj => by omega
  simp [MagicAt, At, slice, magic, List.range_succ, sameFrame, h]

/-- A false magic with another right behind it, then a unit that is shorter than its header says,
then `sameFrame`. -/
def lostFraming (i : Nat) : UInt8 :=
  [9, 0, 0, 0, 0x63, 0, 0x0c, 0, 0x63, 0, 0x0c, 0, 2, 0, 0, 0, 40, 0, 0, 0, 0x64, 0, 4, 0,
    9, 9, 9, 9, 9, 9, 9, 9,
    1, 0, 0, 0, 0x63, 0, 0x0c, 0, 0, 0, 0, 0, 2, 0, 0, 0, 40, 0, 0, 0, 0x64, 0, 8, 0,
    0, 0, 0, 1, 0x65, 1, 2, 3].getD i (sameFrame i)

theorem lostFraming_same {i : Nat} (h : 64 ≤ i) : lostFraming i = sameFrame i := by
  rw [lostFraming, List.getD_eq_getElem?_getD, List.getElem?_eq_none h, Option.getD_none]

theorem lostFraming_dense (i : Nat) :
    ∃ m, i ≤ m ∧ m + 4 ≤ i + 2 ^ 20 ∧ MagicAt lostFraming m := by
  refine ⟨32 * (i / 32 + 2) + 4, by omega, by omega, ?_⟩
  have hsame : slice lostFraming (32 * (i / 32 + 2) + 4) magic.length =
      slice sameFrame (32 * (i / 32 + 2) + 4) magic.length :=
    List.map_congr_left fun j _ => lostFraming_same (by omega)
  rw [MagicAt, At, hsame]
  exact sameFrame_magic _

def lostCuts : List Cut :=
  [.bytes 64, .go, .go, .go, .go, .bytes 4096, .go, .bytes 4096, .go, .go, .go, .go, .bytes 4096,
    .go, .go, .go]

set_option maxRecDepth 100000 in
theorem lostFraming_run :
    (run (Endless.step lostFraming) {} lostCuts).map (fun r => (r.1.parser.resyncs, r.2)) =
      some (2, [.frame
        { payload := [0, 0, 0, 1, 0x65, 1, 2, 3], tsMs := some 40, keyframe := true }]) := by
  decide +kernel

/-- The driver resynchronises twice before it yields the first frame. -/
theorem resync_is_naive_scan_lost : ∃ e out,
    run (Endless.step lostFraming) {} lostCuts = some (e, out) ∧ e.parser.resyncs = 2 ∧
      out = [.frame { payload := [0, 0, 0, 1, 0x65, 1, 2, 3], tsMs := some 40, keyframe := true }] ∧
      (∃ n, out = (scan lostFraming 0 n).2.map .frame) ∧
      ∃ c, (e.step lostFraming c).isSome = true := by
  obtain ⟨⟨e, out⟩, hr, hout⟩ := Option.map_eq_some_iff.mp lostFraming_run
  obtain ⟨hresyncs, hframes⟩ := Prod.mk.inj hout
  obtain ⟨hscan, -, hgo⟩ := resync_is_naive_scan lostFraming 4 (by decide) (by decide) (by decide)
    lostFraming_dense _ e out hr
  exact ⟨e, out, hr, hresyncs, hframes, hscan, hgo⟩

end DvrBridge.NetDvr3
