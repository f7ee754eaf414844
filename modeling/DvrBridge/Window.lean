import DvrBridge.Search
import Mathlib.Data.List.Range
import Mathlib.Order.Lattice.Nat
import Mathlib.Tactic.Common

/-! Windows of an unbounded sequence, and the search for a pattern in a window. -/
namespace DvrBridge.Window
open Search
variable {α : Type*} (s : Nat → α)

def slice (i n : Nat) : List α := (List.range n).map fun k => s (i + k)

/-- `pat` stands at position `i`. -/
def At (pat : List α) (i : Nat) : Prop := slice s i pat.length = pat

instance [DecidableEq α] (pat : List α) (i : Nat) : Decidable (At s pat i) :=
  inferInstanceAs (Decidable (_ = _))

@[simp] theorem length_slice (i n : Nat) : (slice s i n).length = n := by
  simp [slice]

theorem slice_append (i m n : Nat) : slice s i m ++ slice s (i + m) n = slice s i (m + n) := by
  simp [slice, List.range_add, Nat.add_assoc]

theorem take_slice {k n : Nat} (h : k ≤ n) (i : Nat) : (slice s i n).take k = slice s i k := by
  obtain ⟨d, rfl⟩ := Nat.exists_eq_add_of_le h
  rw [← slice_append]
  exact List.take_left' (length_slice s i k)

theorem drop_slice {k n : Nat} (h : k ≤ n) (i : Nat) :
    (slice s i n).drop k = slice s (i + k) (n - k) := by
  obtain ⟨d, rfl⟩ := Nat.exists_eq_add_of_le h
  rw [← slice_append, Nat.add_sub_cancel_left]
  exact List.drop_left' (length_slice s i k)

theorem getD_slice {k n : Nat} (h : k < n) (i : Nat) (d : α) : (slice s i n).getD k d = s (i + k) := by
  simp [slice, List.getD_eq_getElem?_getD, List.getElem?_range h]

/-- A pattern stands in a window where it stands in the sequence. -/
theorem prefix_drop_slice_iff (pat : List α) (hp : 0 < pat.length) (i n j : Nat) :
    pat <+: (slice s i n).drop j ↔ j + pat.length ≤ n ∧ At s pat (i + j) := by
  constructor
  · intro h
    have hl := h.length_le
    rw [List.length_drop, length_slice] at hl
    refine ⟨by omega, ?_⟩
    rw [drop_slice s (by omega)] at h
    have ht := List.prefix_iff_eq_take.mp h
    rw [take_slice s (by omega)] at ht
    exact ht.symm
  · rintro ⟨hl, h⟩
    rw [drop_slice s (by omega)]
    refine List.prefix_iff_eq_take.mpr ?_
    rw [take_slice s (by omega)]
    exact h.symm

theorem find_slice_eq_some_iff [DecidableEq α] (pat : List α) (hp : 0 < pat.length) (i n j : Nat) :
    find pat (slice s i n) = some j ↔
      j + pat.length ≤ n ∧ At s pat (i + j) ∧ ∀ k < j, ¬ At s pat (i + k) := by
  rw [find_eq_some_iff, length_slice]
  simp only [prefix_drop_slice_iff s pat hp]
  constructor
  · rintro ⟨-, ⟨hl, ha⟩, hn⟩
    exact ⟨hl, ha, fun k hk h => hn k hk ⟨by omega, h⟩⟩
  · rintro ⟨hl, ha, hn⟩
    exact ⟨by omega, ⟨hl, ha⟩, fun k hk h => hn k hk h.2⟩

theorem find_slice_eq_none_iff [DecidableEq α] (pat : List α) (hp : 0 < pat.length) (i n : Nat) :
    find pat (slice s i n) = none ↔ ∀ k, k + pat.length ≤ n → ¬ At s pat (i + k) := by
  rw [find_eq_none_iff, length_slice]
  simp only [prefix_drop_slice_iff s pat hp]
  constructor
  · intro h k hk ha
    exact h k (by omega) ⟨hk, ha⟩
  · rintro h k - ⟨hk, ha⟩
    exact h k hk ha

/-- The first occurrence at or after a position. -/
noncomputable def next (pat : List α) (pos : Nat) : Nat := sInf {m | pos ≤ m ∧ At s pat m}

theorem next_eq {pat : List α} {pos m : Nat} (hle : pos ≤ m) (ha : At s pat m)
    (hn : ∀ j, pos ≤ j → j < m → ¬ At s pat j) : next s pat pos = m := by
  refine Nat.le_antisymm (Nat.sInf_le ⟨hle, ha⟩) ?_
  obtain ⟨h₁, h₂⟩ := Nat.sInf_mem (s := {m | pos ≤ m ∧ At s pat m}) ⟨m, hle, ha⟩
  by_contra hlt
  exact hn _ h₁ (Nat.not_le.mp hlt) h₂

end DvrBridge.Window
