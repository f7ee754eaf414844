import DvrBridge.NetDvr3Steps
import Mathlib.Data.Prod.Lex

/-! The driver's loops make progress: on a finite stream they come to a `DriverError`, and none of
them goes round without a byte deleted or read. -/
namespace DvrBridge.NetDvr3
open H264 Search Machine

/-- A loop of `frames` or `_resync`, by its head. -/
inductive Loop where
  | preamble
  /-- the frame loop, and the loop that completes its header -/
  | header
  | body
  | resync
  deriving DecidableEq

/-- The loop at whose head the driver is. -/
def Pc.loop : Pc → Option Loop
  | .preamble => some .preamble
  | .header => some .header
  | .body _ => some .body
  | .resync _ => some .resync
  | .resyncRead _ | .raised => none

/-- How many steps can follow without a byte deleted or read. -/
def Pc.rank : Pc → Nat
  | .preamble | .resync _ => 3
  | .header => 2
  | .body _ | .resyncRead _ => 1
  | .raised => 0

theorem Pc.rank_eq_of_loop {pc pc' : Pc} {l : Loop} (h : pc.loop = some l)
    (h' : pc'.loop = some l) : pc.rank = pc'.rank := by
  cases pc <;> cases h <;> cases pc' <;> cases h' <;> rfl

/-- A step that receives nothing shortens the buffer, or keeps its length and lowers the rank. -/
theorem Stepped.quiet {p q : Parser} {i : ParserInput} {o : List ParserOutput}
    (h : Stepped p p.pc i q o) (hi : i.chunk = []) :
    q.buf.length < p.buf.length ∨
      q.buf.length = p.buf.length ∧ q.pc.rank < p.pc.rank := by
  generalize hpc : p.pc = pc at h
  cases h with
  | found k hk h4 =>
    simp only [List.length_drop, Pc.rank]
    omega
  | notFound _ _ => exact .inr ⟨rfl, by simp [Pc.rank]⟩
  | preambleRead chunk _ _ hne _ => exact absurd hi hne
  | preambleFails i _ _ _ => exact .inr ⟨rfl, by simp [Pc.rank]⟩
  | headerRead chunk hl hc =>
    have hz := congrArg List.length hi
    simp only [ParserInput.chunk, List.length_nil] at hz
    omega
  | headerFails i _ _ => exact .inr ⟨rfl, by simp [Pc.rank]⟩
  | badHeader hl _ =>
    simp only [Parser.startResync_buf, List.length_drop, headerLen] at hl ⊢
    omega
  | parsed hdr _ _ _ => exact .inr ⟨rfl, by simp [Pc.rank]⟩
  | bodyRead hdr chunk hl hc =>
    have hz := congrArg List.length hi
    simp only [ParserInput.chunk, List.length_nil] at hz
    omega
  | bodyFails hdr i _ _ => exact .inr ⟨rfl, by simp [Pc.rank]⟩
  | framed hdr hl _ _ =>
    simp only [List.length_drop, headerLen] at hl ⊢
    omega
  | lied hdr hl _ =>
    simp only [Parser.startResync_buf, List.length_drop, headerLen] at hl ⊢
    omega
  | scanFound scanned k hk h4 =>
    simp only [List.length_drop, Pc.rank]
    omega
  | scanSkip scanned k hk _ =>
    have hle := find_lt magic p.buf k hk
    have hlen : magic.length = 4 := rfl
    simp only [List.length_drop]
    omega
  | scanNone scanned _ =>
    simp only [List.length_drop, Pc.rank]
    omega
  | scanRead scanned chunk _ hc =>
    have hz := congrArg List.length hi
    simp only [ParserInput.chunk, List.length_nil] at hz
    omega
  | scanFails scanned i _ _ => exact .inr ⟨rfl, by simp [Pc.rank]⟩
  | scanEnd scanned _ => exact .inr ⟨rfl, by simp [Pc.rank]⟩

/-- The only output is that of the step, and a `DriverError` is where the driver ends. -/
theorem Stepped.raised_iff {p q : Parser} {i : ParserInput} {o : List ParserOutput}
    (h : Stepped p p.pc i q o) :
    if q.pc = .raised then o = [.raised] else ∃ fs : List VideoFrame, o = fs.map .frame := by
  generalize hpc : p.pc = pc at h
  cases h with
  | notFound _ _ | preambleFails _ _ _ _ | headerFails _ _ _ | bodyFails _ _ _ _
  | scanFails _ _ _ _ | scanEnd _ _ => rfl
  | framed hdr _ _ _ => exact ⟨[_], rfl⟩
  | found _ _ _ | preambleRead _ _ _ _ _ | headerRead _ _ _ | badHeader _ _ | parsed _ _ _ _
  | bodyRead _ _ _ _ | lied _ _ _ | scanFound _ _ _ _ | scanSkip _ _ _ _ | scanNone _ _
  | scanRead _ _ _ _ => exact ⟨[], rfl⟩

namespace Feed

/-- Unread bytes, buffered bytes and rank; the driver lowers them in this order. -/
def size (f : Feed) : Nat ×ₗ Nat ×ₗ Nat :=
  toLex (f.rest.length, toLex (f.parser.buf.length, f.parser.pc.rank))

theorem size_lt_iff {f g : Feed} :
    g.size < f.size ↔ g.rest.length < f.rest.length ∨ g.rest.length = f.rest.length ∧
      (g.parser.buf.length < f.parser.buf.length ∨
        g.parser.buf.length = f.parser.buf.length ∧ g.parser.pc.rank < f.parser.pc.rank) := by
  simp only [size, Prod.Lex.toLex_lt_toLex]

theorem size_lt {f g : Feed} {a : Arrival} {o : List ParserOutput}
    (h : f.step a = some (g, o)) : g.size < f.size := by
  obtain ⟨i, hs, hr, -, -⟩ := step_cases h
  rw [size_lt_iff, hr, List.length_append]
  by_cases hi : i.chunk = []
  · refine .inr ⟨by simp [hi], (Parser.stepped hs).quiet hi⟩
  · have := List.length_pos_iff.mpr hi
    exact .inl (by omega)

/-- Between two states something has been read from the stream or deleted from the buffer. -/
def Progressed (f g : Feed) : Prop :=
  g.rest.length < f.rest.length ∨ g.parser.buf.length < f.parser.buf.length

/-- The frames that have been yielded, and a `DriverError` if the driver is at its end. -/
def Shown (f : Feed) (out : List ParserOutput) : Prop :=
  ∃ fs : List VideoFrame,
    out = fs.map .frame ++ if f.parser.pc = .raised then [.raised] else []

theorem Shown.step {f g : Feed} {a : Arrival} {out o : List ParserOutput} (h : f.Shown out)
    (hs : f.step a = some (g, o)) : g.Shown (out ++ o) := by
  obtain ⟨fs, rfl⟩ := h
  obtain ⟨i, hp, -, -, -⟩ := step_cases hs
  have hlive : f.parser.pc ≠ .raised := by
    intro hpc
    simp [Parser.step, Parser.move, hpc] at hp
  have ho := (Parser.stepped hp).raised_iff
  rw [if_neg hlive, List.append_nil]
  split at ho
  · rename_i hraised
    exact ⟨fs, by rw [if_pos hraised, ho]⟩
  · rename_i hgoes
    obtain ⟨gs, rfl⟩ := ho
    exact ⟨fs ++ gs, by rw [if_neg hgoes, List.append_nil, List.map_append]⟩

/-- On every finite stream and whatever the chunks are, the driver yields some frames and raises a
`DriverError` after finitely many steps; and from the head of a loop back to it, it has read a byte
or deleted one. -/
theorem comes_to_driverError (stream : Bytes) :
    Terminates step (start stream)
        (fun f out => f.parser.pc = .raised ∧
          ∃ fs : List VideoFrame, out = fs.map .frame ++ [.raised]) ∧
      ∀ as bs f g out o l, run step (start stream) as = some (f, out) →
        run step f bs = some (g, o) → bs ≠ [] → f.parser.pc.loop = some l →
        g.parser.pc.loop = some l → f.Progressed g := by
  refine ⟨⟨⟨(start stream).weight, fun as f out hr => run_length_le hr⟩, ?_⟩, ?_⟩
  · intro as f out hr hstuck
    have hpc : f.parser.pc = .raised := by
      by_contra hne
      obtain ⟨a, ha⟩ := enabled hne
      rw [hstuck a] at ha
      cases ha
    have hshown : f.Shown out := run_invariant' Shown ⟨[], rfl⟩
      (fun f out a g o h hs => h.step hs) hr
    obtain ⟨fs, hout⟩ := hshown
    rw [if_pos hpc] at hout
    exact ⟨hpc, fs, hout⟩
  · intro as bs f g out o l _ hr hne hf hg
    have hlt := run_lt size (fun _ _ _ _ => size_lt) hne hr
    have hrank := Pc.rank_eq_of_loop hf hg
    rw [size_lt_iff] at hlt
    unfold Progressed
    omega

end Feed
end DvrBridge.NetDvr3
