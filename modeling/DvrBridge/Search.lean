import Mathlib.Data.List.Infix

/-! Leftmost occurrence of a pattern in a list, over any alphabet. -/
namespace DvrBridge.Search
variable {α : Type*} [DecidableEq α]

def find (pat xs : List α) : Option Nat := xs.tails.findIdx? (pat.isPrefixOf ·)

theorem find_eq_some_iff (pat xs : List α) (i : Nat) :
    find pat xs = some i ↔
      i ≤ xs.length ∧ pat <+: xs.drop i ∧ ∀ j < i, ¬ pat <+: xs.drop j := by
  unfold find
  rw [List.findIdx?_eq_some_iff_getElem]
  simp only [List.length_tails, List.getElem_tails, List.isPrefixOf_iff_prefix]
  constructor
  · rintro ⟨hi, hp, hj⟩
    exact ⟨by omega, hp, hj⟩
  · rintro ⟨hi, hp, hj⟩
    exact ⟨by omega, hp, hj⟩

theorem find_eq_none_iff (pat xs : List α) :
    find pat xs = none ↔ ∀ i ≤ xs.length, ¬ pat <+: xs.drop i := by
  unfold find
  rw [List.findIdx?_eq_none_iff]
  constructor
  · intro h i hi hp
    have hm : xs.drop i ∈ xs.tails := (List.mem_tails _ _).mpr (List.drop_suffix i xs)
    have := h _ hm
    rw [List.isPrefixOf_iff_prefix.mpr hp] at this
    contradiction
  · intro h t ht
    obtain ⟨k, hk⟩ := (List.mem_tails _ _).mp ht
    have hd : xs.drop k.length = t := by simp [← hk]
    have hn := h k.length (by simp [← hk])
    rw [hd, ← List.isPrefixOf_iff_prefix] at hn
    exact Bool.eq_false_iff.mpr hn

theorem find_lt (pat xs : List α) (i : Nat) (h : find pat xs = some i) :
    i + pat.length ≤ xs.length := by
  obtain ⟨hi, hp, -⟩ := (find_eq_some_iff pat xs i).mp h
  have := hp.length_le
  rw [List.length_drop] at this
  omega

omit [DecidableEq α] in
/-- An occurrence in a prefix is an occurrence in the whole list, and conversely when it ends
inside the prefix. -/
theorem prefix_drop_append_iff (pat xs ys : List α) (i : Nat) (h : i + pat.length ≤ xs.length) :
    pat <+: (xs ++ ys).drop i ↔ pat <+: xs.drop i := by
  rw [List.drop_append_of_le_length (by omega)]
  constructor
  · intro hp
    exact List.prefix_of_prefix_length_le hp (List.prefix_append _ _) (by simp; omega)
  · intro hp
    exact hp.trans (List.prefix_append _ _)

theorem find_append_of_some (pat xs ys : List α) (i : Nat) (h : find pat xs = some i) :
    find pat (xs ++ ys) = some i := by
  have hl := find_lt pat xs i h
  obtain ⟨-, hp, hj⟩ := (find_eq_some_iff pat xs i).mp h
  refine (find_eq_some_iff pat (xs ++ ys) i).mpr ⟨by simp; omega, ?_, ?_⟩
  · exact (prefix_drop_append_iff pat xs ys i hl).mpr hp
  · intro j hji hpj
    exact hj j hji ((prefix_drop_append_iff pat xs ys j (by omega)).mp hpj)

/-- What a search of a prefix returns when the first occurrence in the whole list is known. -/
theorem find_of_append (pat xs ys : List α) (i : Nat)
    (h : find pat (xs ++ ys) = some i) :
    find pat xs = if i + pat.length ≤ xs.length then some i else none := by
  obtain ⟨-, hp, hj⟩ := (find_eq_some_iff pat (xs ++ ys) i).mp h
  split
  · rename_i hl
    refine (find_eq_some_iff pat xs i).mpr ⟨by omega, ?_, ?_⟩
    · exact (prefix_drop_append_iff pat xs ys i hl).mp hp
    · intro j hji hpj
      exact hj j hji ((prefix_drop_append_iff pat xs ys j (by omega)).mpr hpj)
  · rename_i hl
    cases hf : find pat xs with
    | none => rfl
    | some k =>
      have := find_append_of_some pat xs ys k hf
      rw [h, Option.some.injEq] at this
      have := find_lt pat xs k hf
      omega

/-- The first occurrence, seen from a later start that it does not precede. -/
theorem find_drop (pat xs : List α) (i d : Nat) (h : find pat xs = some i) (hd : d ≤ i) :
    find pat (xs.drop d) = some (i - d) := by
  obtain ⟨hi, hp, hj⟩ := (find_eq_some_iff pat xs i).mp h
  refine (find_eq_some_iff ..).mpr ⟨by rw [List.length_drop]; omega, ?_, ?_⟩
  · rw [List.drop_drop, Nat.add_sub_cancel' hd]
    exact hp
  · intro j hji
    rw [List.drop_drop]
    exact hj (d + j) (by omega)

/-- A pair that ends a stretch without its second symbol is found there. -/
theorem find_pair {a b : α} (hab : a ≠ b) (l rest : List α) (hb : b ∉ l) :
    find [a, b] (l ++ a :: b :: rest) = some l.length := by
  refine (find_eq_some_iff ..).mpr ⟨by simp, ?_, ?_⟩
  · rw [List.drop_left]
    exact ⟨rest, rfl⟩
  · rintro j hj ⟨t, ht⟩
    have hnext : (l ++ a :: b :: rest)[j + 1]? = some b := by
      rw [← List.getElem?_drop, ← ht]
      rfl
    rcases Nat.lt_or_eq_of_le (Nat.succ_le_of_lt hj) with hlt | heq
    · rw [List.getElem?_append_left hlt] at hnext
      exact hb (List.mem_of_getElem? hnext)
    · rw [← Nat.succ_eq_add_one, heq, List.getElem?_append_right (Nat.le_refl _), Nat.sub_self] at hnext
      exact hab (Option.some.inj hnext)

/-- The first occurrence of a symbol. -/
theorem find_symbol {b : α} (l rest : List α) (hb : b ∉ l) :
    find [b] (l ++ b :: rest) = some l.length := by
  refine (find_eq_some_iff ..).mpr ⟨by simp, ?_, ?_⟩
  · rw [List.drop_left]
    exact ⟨rest, rfl⟩
  · rintro j hj ⟨t, ht⟩
    have hat : (l ++ b :: rest)[j]? = some b := by
      rw [← Nat.add_zero j, ← List.getElem?_drop, ← ht]
      rfl
    rw [List.getElem?_append_left hj] at hat
    exact hb (List.mem_of_getElem? hat)

theorem find_symbol_none_iff {b : α} {l : List α} : find [b] l = none ↔ b ∉ l := by
  constructor
  · intro h hm
    obtain ⟨front, back, rfl, hb⟩ := List.eq_append_cons_of_mem hm
    rw [find_symbol front back hb] at h
    cases h
  · intro h
    refine (find_eq_none_iff ..).mpr ?_
    rintro i - ⟨t, ht⟩
    have hb : b ∈ l.drop i := by
      rw [← ht]
      exact List.mem_cons_self ..
    exact h (List.mem_of_mem_drop hb)

theorem not_mem_take_of_find {b : α} {l : List α} {i : Nat} (h : find [b] l = some i) :
    b ∉ l.take i := by
  intro hm
  obtain ⟨front, back, rfl, hb⟩ := List.eq_append_cons_of_mem (List.mem_of_mem_take hm)
  rw [find_symbol front back hb, Option.some.injEq] at h
  rw [← h, List.take_left] at hm
  exact hb hm

/-- `replace` of Python: the occurrences of `pat`, from the left and without overlap, become `new`;
`skip` symbols belong to an occurrence already replaced. -/
def replaceFrom (pat new : List α) : Nat → List α → List α
  | _, [] => []
  | skip + 1, _ :: xs => replaceFrom pat new skip xs
  | 0, x :: xs =>
    if pat <+: x :: xs then new ++ replaceFrom pat new (pat.length - 1) xs
    else x :: replaceFrom pat new 0 xs

def replace (pat new xs : List α) : List α := replaceFrom pat new 0 xs

end DvrBridge.Search
