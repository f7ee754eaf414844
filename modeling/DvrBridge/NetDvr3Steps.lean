import DvrBridge.NetDvr3

/-! What a step of the driver can do, a measure that every step lowers, and the same for a device
that sends a finite stream. -/
namespace DvrBridge.NetDvr3
open H264 Search Machine

/-- The branches of the loops, by where the loops are. -/
inductive Stepped (p : Parser) : Pc → ParserInput → Parser → List ParserOutput → Prop where
  | found (i : Nat) : find magic p.buf = some i → 4 ≤ i →
      Stepped p .preamble .go
        { p with pc := .header, buf := p.buf.drop (i - 4),
                 info := parsePreamble p.info (p.buf.take (i - 4)) }
        []
  | notFound : (∀ i, find magic p.buf = some i → i < 4) → maxPreamble < p.buf.length →
      Stepped p .preamble .go p.raise [.raised]
  | preambleRead (chunk : Bytes) : (∀ i, find magic p.buf = some i → i < 4) →
      p.buf.length ≤ maxPreamble → chunk ≠ [] → chunk.length ≤ 4096 →
      Stepped p .preamble (.data chunk) { p with buf := p.buf ++ chunk, pc := .preamble } []
  | preambleFails (i : ParserInput) : (∀ i, find magic p.buf = some i → i < 4) →
      p.buf.length ≤ maxPreamble → i = .eof ∨ i = .timeout → Stepped p .preamble i p.raise [.raised]
  | headerRead (chunk : Bytes) : p.buf.length < headerLen →
      chunk.length = headerLen - p.buf.length →
      Stepped p .header (.data chunk) { p with buf := p.buf ++ chunk, pc := .header } []
  | headerFails (i : ParserInput) : p.buf.length < headerLen → i = .eof ∨ i = .timeout →
      Stepped p .header i p.raise [.raised]
  | badHeader : headerLen ≤ p.buf.length →
      (∀ hdr, parseFrameHeader (p.buf.take headerLen) = some hdr → maxFrame < hdr.payloadLen) →
      Stepped p .header .go p.startResync []
  | parsed (hdr : FrameHeader) : headerLen ≤ p.buf.length →
      parseFrameHeader (p.buf.take headerLen) = some hdr → hdr.payloadLen ≤ maxFrame →
      Stepped p .header .go { p with pc := .body hdr } []
  | bodyRead (hdr : FrameHeader) (chunk : Bytes) : p.buf.length < headerLen + hdr.payloadLen + 8 →
      chunk.length = headerLen + hdr.payloadLen + 8 - p.buf.length →
      Stepped p (.body hdr) (.data chunk) { p with buf := p.buf ++ chunk, pc := .body hdr } []
  | bodyFails (hdr : FrameHeader) (i : ParserInput) :
      p.buf.length < headerLen + hdr.payloadLen + 8 → i = .eof ∨ i = .timeout →
      Stepped p (.body hdr) i p.raise [.raised]
  | framed (hdr : FrameHeader) : headerLen + hdr.payloadLen + 8 ≤ p.buf.length →
      start4 <+: (p.buf.take (headerLen + hdr.payloadLen)).drop headerLen →
      (((p.buf.drop (headerLen + hdr.payloadLen)).take 8).drop 4).take 4 = magic →
      Stepped p (.body hdr) .go
        { p with pc := .header, buf := p.buf.drop (headerLen + hdr.payloadLen) }
        [.frame (Parser.videoFrame hdr ((p.buf.take (headerLen + hdr.payloadLen)).drop headerLen))]
  | lied (hdr : FrameHeader) : headerLen + hdr.payloadLen + 8 ≤ p.buf.length →
      ¬ (start4 <+: (p.buf.take (headerLen + hdr.payloadLen)).drop headerLen ∧
        (((p.buf.drop (headerLen + hdr.payloadLen)).take 8).drop 4).take 4 = magic) →
      Stepped p (.body hdr) .go p.startResync []
  | scanFound (scanned i : Nat) : find magic p.buf = some i → 4 ≤ i →
      Stepped p (.resync scanned) .go { p with pc := .header, buf := p.buf.drop (i - 4) } []
  | scanSkip (scanned i : Nat) : find magic p.buf = some i → i < 4 →
      Stepped p (.resync scanned) .go
        { p with pc := .resyncRead scanned, buf := p.buf.drop (i + 4) } []
  | scanNone (scanned : Nat) : find magic p.buf = none →
      Stepped p (.resync scanned) .go
        { p with
          pc := .resyncRead (scanned + (p.buf.length - 7)), buf := p.buf.drop (p.buf.length - 7) }
        []
  | scanRead (scanned : Nat) (chunk : Bytes) : scanned ≤ maxFrame → chunk.length = 4096 →
      Stepped p (.resyncRead scanned) (.data chunk)
        { p with buf := p.buf ++ chunk, pc := .resync scanned } []
  | scanFails (scanned : Nat) (i : ParserInput) : scanned ≤ maxFrame → i = .eof ∨ i = .timeout →
      Stepped p (.resyncRead scanned) i p.raise [.raised]
  | scanEnd (scanned : Nat) : maxFrame < scanned →
      Stepped p (.resyncRead scanned) .go p.raise [.raised]

namespace Parser

/-- What is done with the move of a loop. -/
def Follows (p : Parser) : Move → ParserInput → Parser → List ParserOutput → Prop
  | .go q f, i, q', o => i = .go ∧ q' = q ∧ o = (f.map .frame).toList
  | .raise, i, q', o => i = .go ∧ q' = p.raise ∧ o = [.raised]
  | .read n, i, q', o =>
    (∃ chunk, i = .data chunk ∧ chunk ≠ [] ∧ chunk.length ≤ n ∧ q' = p.receive chunk ∧ o = []) ∨
      ((i = .eof ∨ i = .timeout) ∧ q' = p.raise ∧ o = [.raised])
  | .readExactly n, i, q', o =>
    (∃ chunk, i = .data chunk ∧ chunk.length = n ∧ q' = p.receive chunk ∧ o = []) ∨
      ((i = .eof ∨ i = .timeout) ∧ q' = p.raise ∧ o = [.raised])

theorem follows_of_step {p q : Parser} {i : ParserInput} {o : List ParserOutput}
    (h : p.step i = some (q, o)) : ∃ m, p.move = some m ∧ p.Follows m i q o := by
  obtain ⟨m, hm, h⟩ := Option.bind_eq_some_iff.mp h
  refine ⟨m, hm, ?_⟩
  cases m with
  | go p' f =>
    cases i with
    | go =>
      cases h
      exact ⟨rfl, rfl, rfl⟩
    | data chunk => cases h
    | eof => cases h
    | timeout => cases h
  | raise =>
    cases i with
    | go =>
      cases h
      exact ⟨rfl, rfl, rfl⟩
    | data chunk => cases h
    | eof => cases h
    | timeout => cases h
  | read n =>
    cases i with
    | go => cases h
    | data chunk =>
      obtain ⟨⟨hne, hl⟩, h⟩ := Option.ite_none_right_eq_some.mp h
      cases h
      exact .inl ⟨chunk, rfl, hne, hl, rfl, rfl⟩
    | eof =>
      cases h
      exact .inr ⟨.inl rfl, rfl, rfl⟩
    | timeout =>
      cases h
      exact .inr ⟨.inr rfl, rfl, rfl⟩
  | readExactly n =>
    cases i with
    | go => cases h
    | data chunk =>
      obtain ⟨hl, h⟩ := Option.ite_none_right_eq_some.mp h
      cases h
      exact .inl ⟨chunk, rfl, hl, rfl, rfl⟩
    | eof =>
      cases h
      exact .inr ⟨.inl rfl, rfl, rfl⟩
    | timeout =>
      cases h
      exact .inr ⟨.inr rfl, rfl, rfl⟩

theorem preambleRead_stepped {p q : Parser} {i : ParserInput} {o : List ParserOutput}
    (hpc : p.pc = .preamble) (hf : ∀ i, find magic p.buf = some i → i < 4)
    (h : p.Follows p.preambleRead i q o) : Stepped p .preamble i q o := by
  unfold preambleRead at h
  split at h
  · rename_i hl
    obtain ⟨rfl, rfl, rfl⟩ := h
    exact .notFound hf hl
  · rename_i hl
    rcases h with ⟨chunk, rfl, hne, hc, rfl, rfl⟩ | ⟨hi, rfl, rfl⟩
    · have := Stepped.preambleRead chunk hf (Nat.not_lt.mp hl) hne hc
      simpa [receive, hpc] using this
    · exact .preambleFails i hf (Nat.not_lt.mp hl) hi

theorem preambleMove_stepped {p q : Parser} {i : ParserInput} {o : List ParserOutput}
    (hpc : p.pc = .preamble) (h : p.Follows p.preambleMove i q o) :
    Stepped p .preamble i q o := by
  unfold preambleMove at h
  split at h
  · rename_i k hk
    split at h
    · rename_i h4
      obtain ⟨rfl, rfl, rfl⟩ := h
      exact .found k hk h4
    · rename_i h4
      refine preambleRead_stepped hpc ?_ h
      intro j hj
      rw [hk, Option.some.injEq] at hj
      omega
  · rename_i hk
    refine preambleRead_stepped hpc ?_ h
    intro j hj
    rw [hk] at hj
    cases hj

theorem headerMove_stepped {p q : Parser} {i : ParserInput} {o : List ParserOutput}
    (hpc : p.pc = .header) (h : p.Follows p.headerMove i q o) : Stepped p .header i q o := by
  unfold headerMove at h
  split at h
  · rename_i hl
    rcases h with ⟨chunk, rfl, hc, rfl, rfl⟩ | ⟨hi, rfl, rfl⟩
    · have := Stepped.headerRead chunk hl hc
      simpa [receive, hpc] using this
    · exact .headerFails i hl hi
  · rename_i hl
    split at h
    · rename_i hn
      obtain ⟨rfl, rfl, rfl⟩ := h
      exact .badHeader (Nat.not_lt.mp hl) (by simp [hn])
    · rename_i hdr hd
      split at h
      · rename_i hm
        obtain ⟨rfl, rfl, rfl⟩ := h
        exact .badHeader (Nat.not_lt.mp hl) (by simpa [hd] using hm)
      · rename_i hm
        obtain ⟨rfl, rfl, rfl⟩ := h
        exact .parsed hdr (Nat.not_lt.mp hl) hd (Nat.not_lt.mp hm)

theorem bodyMove_stepped {p q : Parser} {hdr : FrameHeader} {i : ParserInput}
    {o : List ParserOutput} (hpc : p.pc = .body hdr) (h : p.Follows (p.bodyMove hdr) i q o) :
    Stepped p (.body hdr) i q o := by
  simp only [bodyMove] at h
  split at h
  · rename_i hl
    rcases h with ⟨chunk, rfl, hc, rfl, rfl⟩ | ⟨hi, rfl, rfl⟩
    · have := Stepped.bodyRead hdr chunk hl hc
      simpa [receive, hpc] using this
    · exact .bodyFails hdr i hl hi
  · rename_i hl
    split at h
    · rename_i hf
      obtain ⟨rfl, rfl, rfl⟩ := h
      exact .framed hdr (Nat.not_lt.mp hl) hf.1 hf.2
    · rename_i hf
      obtain ⟨rfl, rfl, rfl⟩ := h
      exact .lied hdr (Nat.not_lt.mp hl) hf

theorem resyncMove_stepped {p q : Parser} {scanned : Nat} {i : ParserInput}
    {o : List ParserOutput} (h : p.Follows (p.resyncMove scanned) i q o) :
    Stepped p (.resync scanned) i q o := by
  unfold resyncMove at h
  split at h
  · rename_i k hk
    split at h
    · rename_i h4
      obtain ⟨rfl, rfl, rfl⟩ := h
      exact .scanFound scanned k hk h4
    · rename_i h4
      obtain ⟨rfl, rfl, rfl⟩ := h
      exact .scanSkip scanned k hk (Nat.not_le.mp h4)
  · rename_i hk
    obtain ⟨rfl, rfl, rfl⟩ := h
    exact .scanNone scanned hk

theorem resyncRead_stepped {p q : Parser} {scanned : Nat} {i : ParserInput}
    {o : List ParserOutput} (hpc : p.pc = .resyncRead scanned)
    (h : p.Follows (if maxFrame < scanned then .raise else .readExactly 4096) i q o) :
    Stepped p (.resyncRead scanned) i q o := by
  split at h
  · rename_i hs
    obtain ⟨rfl, rfl, rfl⟩ := h
    exact .scanEnd scanned hs
  · rename_i hs
    rcases h with ⟨chunk, rfl, hc, rfl, rfl⟩ | ⟨hi, rfl, rfl⟩
    · have := Stepped.scanRead scanned chunk (p := p) (Nat.not_lt.mp hs) hc
      simpa [receive, hpc] using this
    · exact .scanFails scanned i (Nat.not_lt.mp hs) hi

/-- Every step is one of the branches. -/
theorem stepped {p q : Parser} {i : ParserInput} {o : List ParserOutput}
    (h : p.step i = some (q, o)) : Stepped p p.pc i q o := by
  obtain ⟨m, hm, hf⟩ := follows_of_step h
  unfold move at hm
  split at hm
  · rename_i hpc
    cases hm
    rw [hpc]
    exact preambleMove_stepped hpc hf
  · rename_i hpc
    cases hm
    rw [hpc]
    exact headerMove_stepped hpc hf
  · rename_i hdr hpc
    cases hm
    rw [hpc]
    exact bodyMove_stepped hpc hf
  · rename_i scanned hpc
    cases hm
    rw [hpc]
    exact resyncMove_stepped hf
  · rename_i scanned hpc
    cases hm
    rw [hpc]
    exact resyncRead_stepped hpc hf
  · cases hm

/-- A step yields one frame, or raises, or does neither. -/
theorem step_output {p q : Parser} {i : ParserInput} {o : List ParserOutput}
    (h : p.step i = some (q, o)) : o = [] ∨ (∃ f, o = [.frame f]) ∨ o = [.raised] := by
  have hst := stepped h
  generalize p.pc = pc at hst
  cases hst <;> simp

/-- How many steps the driver can take at most without a new byte, given its buffer. -/
def weight (p : Parser) : Nat :=
  4 * p.buf.length +
    match p.pc with
    | .preamble => 3
    | .header => 2
    | .body _ => 1
    | .resync _ => 3
    | .resyncRead _ => 1
    | .raised => 0

@[simp] theorem raise_pc (p : Parser) : p.raise.pc = .raised := rfl
@[simp] theorem raise_buf (p : Parser) : p.raise.buf = p.buf := rfl
@[simp] theorem startResync_pc (p : Parser) : p.startResync.pc = .resync 0 := rfl
@[simp] theorem startResync_buf (p : Parser) : p.startResync.buf = p.buf.drop 4 := rfl

end Parser

/-- The bytes that a step receives. -/
def ParserInput.chunk : ParserInput → Bytes
  | .data chunk => chunk
  | _ => []

/-- Every iteration deletes bytes, goes on to the next loop or has read new bytes. -/
theorem Stepped.weight_lt {p q : Parser} {i : ParserInput} {o : List ParserOutput}
    (h : Stepped p p.pc i q o) : q.weight < p.weight + 8 * i.chunk.length := by
  obtain ⟨pc, buf, resyncs, info⟩ := p
  cases h with
  | found i hi h4 => simp [Parser.weight]; omega
  | notFound _ _ => simp [Parser.weight]; omega
  | preambleRead chunk _ _ hne _ =>
    have := List.length_pos_iff.mpr hne
    simp [Parser.weight, ParserInput.chunk]
    omega
  | preambleFails i _ _ _ => simp [Parser.weight]; omega
  | headerRead chunk hl hc =>
    simp only [Parser.weight, ParserInput.chunk, List.length_append]
    omega
  | headerFails i _ _ => simp [Parser.weight]; omega
  | badHeader hl _ =>
    simp only [Parser.weight, Parser.startResync_pc, Parser.startResync_buf, List.length_drop,
      headerLen] at hl ⊢
    omega
  | parsed hdr _ _ _ => simp [Parser.weight]; omega
  | bodyRead hdr chunk hl hc =>
    simp only [Parser.weight, ParserInput.chunk, List.length_append]
    omega
  | bodyFails hdr i _ _ => simp [Parser.weight]; omega
  | framed hdr hl _ _ =>
    simp only [Parser.weight, List.length_drop, headerLen] at hl ⊢
    omega
  | lied hdr hl _ =>
    simp only [Parser.weight, Parser.startResync_pc, Parser.startResync_buf, List.length_drop,
      headerLen] at hl ⊢
    omega
  | scanFound scanned i hi h4 => simp [Parser.weight]; omega
  | scanSkip scanned i hi _ => simp [Parser.weight]; omega
  | scanNone scanned _ => simp [Parser.weight]; omega
  | scanRead scanned chunk _ hc =>
    simp only [Parser.weight, ParserInput.chunk, List.length_append]
    omega
  | scanFails scanned i _ _ => simp [Parser.weight]; omega
  | scanEnd scanned _ => simp [Parser.weight]; omega

/-- How many bytes an awaited read needs. -/
def Parser.wanted (p : Parser) : Nat :=
  match p.pc with
  | .preamble => 1
  | .header => headerLen - p.buf.length
  | .body hdr => headerLen + hdr.payloadLen + 8 - p.buf.length
  | .resyncRead _ => 4096
  | _ => 0

/-- Only the preamble is read by chunks. -/
def Parser.Awaits (p : Parser) : Move → Prop
  | .read n => n = 4096 ∧ p.wanted = 1
  | .readExactly n => n = p.wanted
  | _ => True

theorem Parser.awaits {p : Parser} {m : Move} (h : p.move = some m) : p.Awaits m := by
  unfold move at h
  split at h
  · rename_i hpc
    cases h
    have hread : p.Awaits p.preambleRead := by
      unfold preambleRead
      split
      · trivial
      · simp [Awaits, wanted, hpc]
    unfold preambleMove
    split
    · split
      · trivial
      · exact hread
    · exact hread
  · rename_i hpc
    cases h
    unfold headerMove
    split
    · simp [Awaits, wanted, hpc]
    · split
      · trivial
      · split <;> trivial
  · rename_i hdr hpc
    cases h
    simp only [bodyMove]
    split
    · simp [Awaits, wanted, hpc]
    · split <;> trivial
  · cases h
    unfold resyncMove
    split
    · split <;> trivial
    · trivial
  · rename_i scanned hpc
    cases h
    split
    · trivial
    · simp [Awaits, wanted, hpc]
  · cases h

/-- Until a `DriverError` the driver waits for data or has something to do. -/
theorem Parser.enabled {p : Parser} (h : p.pc ≠ .raised) :
    (∃ r, p.step .go = some r) ∨ p.move = some (.read 4096) ∨ ∃ n, p.move = some (.readExactly n) := by
  cases hm : p.move with
  | none =>
    unfold move at hm
    split at hm <;> contradiction
  | some m =>
    cases m with
    | go q f => exact .inl ⟨(q, (f.map .frame).toList), by simp [step, hm]⟩
    | raise => exact .inl ⟨(p.raise, [.raised]), by simp [step, hm]⟩
    | read n => exact .inr (.inl (by rw [(awaits hm).1]))
    | readExactly n => exact .inr (.inr ⟨n, rfl⟩)

namespace Feed

/-- A step of the stream is a step of the driver on the bytes that leave the rest. -/
theorem step_cases {f f' : Feed} {a : Arrival} {o : List ParserOutput}
    (h : f.step a = some (f', o)) :
    ∃ i, f.parser.step i = some (f'.parser, o) ∧ f.rest = i.chunk ++ f'.rest ∧
      (i = .eof → f.short = true) ∧ i ≠ .timeout := by
  cases a with
  | go =>
    obtain ⟨⟨q, o'⟩, hs, he⟩ := Option.map_eq_some_iff.mp h
    cases he
    exact ⟨.go, hs, rfl, by simp, by simp⟩
  | bytes k =>
    obtain ⟨-, h⟩ := Option.ite_none_right_eq_some.mp h
    obtain ⟨⟨q, o'⟩, hs, he⟩ := Option.map_eq_some_iff.mp h
    cases he
    exact ⟨.data (f.rest.take k), hs, (List.take_append_drop k f.rest).symm, by simp, by simp⟩
  | eof =>
    obtain ⟨hshort, h⟩ := Option.ite_none_right_eq_some.mp h
    obtain ⟨⟨q, o'⟩, hs, he⟩ := Option.map_eq_some_iff.mp h
    cases he
    exact ⟨.eof, hs, rfl, fun _ => hshort, by simp⟩

/-- What the driver sees of an arrival. -/
def input (f : Feed) : Arrival → ParserInput
  | .go => .go
  | .bytes k => .data (f.rest.take k)
  | .eof => .eof

theorem step_input {f f' : Feed} {a : Arrival} {o : List ParserOutput}
    (h : f.step a = some (f', o)) :
    f.parser.step (f.input a) = some (f'.parser, o) ∧ f.rest = (f.input a).chunk ++ f'.rest ∧
      (a = .eof → f.short = true) := by
  cases a with
  | go =>
    obtain ⟨⟨q, o'⟩, hs, he⟩ := Option.map_eq_some_iff.mp h
    cases he
    exact ⟨hs, rfl, by simp⟩
  | bytes k =>
    obtain ⟨-, h⟩ := Option.ite_none_right_eq_some.mp h
    obtain ⟨⟨q, o'⟩, hs, he⟩ := Option.map_eq_some_iff.mp h
    cases he
    exact ⟨hs, (List.take_append_drop k f.rest).symm, by simp⟩
  | eof =>
    obtain ⟨hshort, h⟩ := Option.ite_none_right_eq_some.mp h
    obtain ⟨⟨q, o'⟩, hs, he⟩ := Option.map_eq_some_iff.mp h
    cases he
    exact ⟨hs, rfl, fun _ => hshort⟩

/-- The connection is closed only on a read that needs more bytes than there are. -/
theorem rest_lt_of_short {f : Feed} (h : f.short = true) : f.rest.length < f.parser.wanted := by
  unfold short at h
  split at h
  · rename_i n hm
    rw [(Parser.awaits hm).2, of_decide_eq_true h]
    exact Nat.one_pos
  · rename_i n hm
    rw [← Parser.awaits hm]
    exact of_decide_eq_true h
  · cases h

def weight (f : Feed) : Nat := f.parser.weight + 8 * f.rest.length

theorem weight_lt {f f' : Feed} {a : Arrival} {o : List ParserOutput}
    (h : f.step a = some (f', o)) : f'.weight < f.weight := by
  obtain ⟨i, hs, hr, -, -⟩ := step_cases h
  have hw := (Parser.stepped hs).weight_lt
  rw [weight, weight, hr, List.length_append]
  omega

/-- The stream never blocks the driver. -/
theorem enabled {f : Feed} (h : f.parser.pc ≠ .raised) : ∃ a, (f.step a).isSome = true := by
  rcases Parser.enabled h with ⟨r, hr⟩ | hm | ⟨n, hm⟩
  · exact ⟨.go, by simp [step, hr]⟩
  · rcases Nat.eq_zero_or_pos f.rest.length with hz | hz
    · refine ⟨.eof, ?_⟩
      simp [step, short, hm, List.length_eq_zero_iff.mp hz, Parser.step]
    · refine ⟨.bytes 1, ?_⟩
      have hne : f.rest ≠ [] := List.length_pos_iff.mp hz
      simp [step, hm, hne, Parser.step]
      omega
  · rcases Nat.lt_or_ge f.rest.length n with hl | hl
    · exact ⟨.eof, by simp [step, short, hm, hl, Parser.step]⟩
    · exact ⟨.bytes n, by simp [step, hm, hl, Parser.step]⟩

/-- No run on a finite stream is longer than the stream's bound. -/
theorem run_length_le {f f' : Feed} {as : List Arrival} {o : List ParserOutput}
    (h : run step f as = some (f', o)) : as.length ≤ f.weight := by
  have := run_measure weight (fun _ _ _ _ => weight_lt) h
  omega

end Feed

end DvrBridge.NetDvr3
