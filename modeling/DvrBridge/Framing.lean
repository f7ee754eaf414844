import Mathlib.Tactic.Common

/-! Streams of self-delimiting messages, over any alphabet: a reader that takes one message off the
front of the input reads back every list of messages that was written. -/
namespace DvrBridge.Framing
variable {α β γ : Type*}

/-- Reads messages until the input is used up; each takes at least one symbol. -/
def readAll (next : List β → Option (α × List β)) : Nat → List β → Option (List α)
  | _, [] => some []
  | 0, _ :: _ => none
  | fuel + 1, b :: bs =>
    (next (b :: bs)).bind fun r => (readAll next fuel r.2).map (r.1 :: ·)

def read (next : List β → Option (α × List β)) (bs : List β) : Option (List α) :=
  readAll next bs.length bs

/-- `next` reads off what `write` wrote, whatever follows. -/
def Reads (next : List β → Option (α × List β)) (write : γ → List β) (value : γ → α) (g : γ) :
    Prop :=
  write g ≠ [] ∧ ∀ rest, next (write g ++ rest) = some (value g, rest)

theorem readAll_cons {next : List β → Option (α × List β)} {write : γ → List β} {value : γ → α}
    {g : γ} (h : Reads next write value g) (fuel : Nat) (rest : List β) :
    readAll next (fuel + 1) (write g ++ rest) = (readAll next fuel rest).map (value g :: ·) := by
  obtain ⟨hne, hnext⟩ := h
  have hn := hnext rest
  cases hw : write g with
  | nil => exact absurd hw hne
  | cons b bs =>
    rw [hw] at hn
    rw [List.cons_append] at hn ⊢
    rw [readAll, hn, Option.bind_some]

theorem readAll_flatMap {next : List β → Option (α × List β)} {write : γ → List β}
    {value : γ → α} (gs : List γ) (h : ∀ g ∈ gs, Reads next write value g) (fuel : Nat)
    (hf : gs.length ≤ fuel) : readAll next fuel (gs.flatMap write) = some (gs.map value) := by
  induction gs generalizing fuel with
  | nil => cases fuel <;> rfl
  | cons g gs ih =>
    cases fuel with
    | zero => simp at hf
    | succ fuel =>
      have hrest := ih (fun x hx => h x (List.mem_cons_of_mem g hx)) fuel
        (Nat.le_of_succ_le_succ hf)
      rw [List.flatMap_cons, readAll_cons (h g (List.mem_cons_self ..)), hrest]
      rfl

theorem length_le_flatMap {write : γ → List β} (gs : List γ) (h : ∀ g ∈ gs, write g ≠ []) :
    gs.length ≤ (gs.flatMap write).length := by
  induction gs with
  | nil => simp
  | cons g gs ih =>
    have hg := List.length_pos_iff.mpr (h g (List.mem_cons_self ..))
    have hgs := ih fun x hx => h x (List.mem_cons_of_mem g hx)
    rw [List.flatMap_cons, List.length_append, List.length_cons]
    omega

/-- What was written is read back. -/
theorem read_flatMap {next : List β → Option (α × List β)} {write : γ → List β} {value : γ → α}
    (gs : List γ) (h : ∀ g ∈ gs, Reads next write value g) :
    read next (gs.flatMap write) = some (gs.map value) :=
  readAll_flatMap gs h _ (length_le_flatMap gs fun g hg => (h g hg).1)

end DvrBridge.Framing
