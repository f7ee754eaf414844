import DvrBridge.Search
import Mathlib.Data.List.DropRight

/-! Lists cut at the occurrences of a delimiter, over any alphabet. -/
namespace DvrBridge.Search
variable {α : Type*} [DecidableEq α] {pat : List α}

theorem find_eq_none_iff_absent (pat xs : List α) : find pat xs = none ↔ ¬ pat <:+: xs := by
  rw [find_eq_none_iff]
  constructor
  · rintro h ⟨l, r, rfl⟩
    apply h l.length (by simp)
    rw [List.append_assoc, List.drop_left]
    exact List.prefix_append _ _
  · intro h i hi hp
    exact h (hp.isInfix.trans (List.drop_suffix i xs).isInfix)

omit [DecidableEq α] in
/-- A symbol that the pattern lacks keeps its two sides apart. -/
theorem not_infix_join {z : α} {a b : List α} (hz : z ∉ pat) (ha : ¬ pat <:+: a)
    (hb : ¬ pat <:+: b) : ¬ pat <:+: a ++ z :: b := by
  rintro ⟨l, r, he⟩
  rw [List.append_assoc, List.append_eq_append_iff] at he
  rcases he with ⟨a', rfl, he⟩ | ⟨b', rfl, he⟩
  · -- the pattern begins on the left side
    rw [List.append_eq_append_iff] at he
    rcases he with ⟨c, rfl, -⟩ | ⟨c, rfl, he⟩
    · exact ha ⟨l, c, by rw [List.append_assoc]⟩
    · cases c with
      | nil => exact ha ⟨l, [], by simp⟩
      | cons x c =>
        rw [List.cons_append, List.cons.injEq] at he
        exact hz (by simp [he.1])
  · cases b' with
    | nil =>
      rw [List.nil_append] at he
      cases hp : pat with
      | nil => exact ha (hp ▸ List.nil_infix)
      | cons x pat' =>
        rw [hp, List.cons_append, List.cons.injEq] at he
        exact hz (by simp [hp, he.1])
    | cons x b' =>
      rw [List.cons_append, List.cons.injEq] at he
      exact hb ⟨b', r, by rw [List.append_assoc, ← he.2]⟩

omit [DecidableEq α] in
theorem not_infix_replicate {z : α} {b : List α} (hz : z ∉ pat) (hb : ¬ pat <:+: b) (n : Nat) :
    ¬ pat <:+: List.replicate n z ++ b := by
  induction n with
  | zero => exact hb
  | succ n ih =>
    have hne : ¬ pat <:+: [] := fun h => hb (List.infix_nil.mp h ▸ List.nil_infix)
    exact not_infix_join (a := []) hz hne ih

/-- No proper suffix of the delimiter begins it. -/
def Unbordered (pat : List α) : Prop := ∀ k < pat.length, 0 < k → ¬ pat.drop k <+: pat

instance (pat : List α) : Decidable (Unbordered pat) :=
  inferInstanceAs (Decidable (∀ k < pat.length, 0 < k → ¬ pat.drop k <+: pat))

omit [DecidableEq α] in
/-- Two occurrences of such a delimiter do not overlap. -/
theorem Unbordered.disjoint (hb : Unbordered pat) {xs : List α} {i j : Nat}
    (hi : pat <+: xs.drop i) (hj : pat <+: xs.drop j) (hij : i < j) : i + pat.length ≤ j := by
  by_contra hlt
  obtain ⟨k, rfl⟩ := Nat.exists_eq_add_of_lt hij
  have hk : k + 1 < pat.length := by omega
  apply hb (k + 1) hk (by omega)
  have hdrop : pat.drop (k + 1) <+: xs.drop (i + k + 1) := by
    have := hi.drop (k + 1)
    rwa [List.drop_drop, ← Nat.add_assoc] at this
  exact List.prefix_of_prefix_length_le hdrop hj (by simp)

/-- A stretch without the delimiter ends where the delimiter stands. -/
theorem Unbordered.find_append (hb : Unbordered pat) {p : List α} (hp : find pat p = none)
    (rest : List α) : find pat (p ++ (pat ++ rest)) = some p.length := by
  have hat : pat <+: (p ++ (pat ++ rest)).drop p.length := by
    rw [List.drop_left]
    exact List.prefix_append _ _
  refine (find_eq_some_iff ..).mpr ⟨by simp, hat, ?_⟩
  intro j hj hocc
  have hend := hb.disjoint hocc hat hj
  rw [prefix_drop_append_iff pat p _ j hend] at hocc
  exact (find_eq_none_iff pat p).mp hp j (by omega) hocc

/-- `Pieces pat xs ps t`: the stretches `ps` of `xs` end in a delimiter, `t` follows the last. -/
inductive Pieces (pat : List α) : List α → List (List α) → List α → Prop
  | last {xs : List α} : find pat xs = none → Pieces pat xs [] xs
  | cut {xs t : List α} {ps : List (List α)} {j : Nat} : find pat xs = some j →
      Pieces pat (xs.drop (j + pat.length)) ps t → Pieces pat xs (xs.take j :: ps) t

theorem exists_pieces (hp : pat ≠ []) (xs : List α) : ∃ ps t, Pieces pat xs ps t := by
  induction hn : xs.length using Nat.strong_induction_on generalizing xs with
  | _ n ih =>
    cases hf : find pat xs with
    | none => exact ⟨[], xs, .last hf⟩
    | some j =>
      have hl := find_lt pat xs j hf
      have hpos := List.length_pos_iff.mpr hp
      obtain ⟨ps, t, h⟩ := ih (xs.drop (j + pat.length)).length
        (by rw [List.length_drop]; omega) _ rfl
      exact ⟨_, t, .cut hf h⟩

namespace Pieces
variable {xs ys t u : List α} {ps qs : List (List α)}

/-- More of the list cuts what followed the last delimiter. -/
theorem append (h : Pieces pat xs ps t) (h' : Pieces pat (t ++ ys) qs u) :
    Pieces pat (xs ++ ys) (ps ++ qs) u := by
  induction h with
  | last => exact h'
  | @cut xs t ps j hf _ ih =>
    have hl := find_lt pat xs j hf
    have hrest := ih h'
    rw [← List.drop_append_of_le_length hl] at hrest
    have htake : (xs ++ ys).take j = xs.take j := List.take_append_of_le_length (by omega)
    rw [List.cons_append, ← htake]
    exact .cut (find_append_of_some pat xs ys j hf) hrest

/-- A delimiter in front is an empty stretch. -/
theorem behind (hb : Unbordered pat) (hne : find pat ([] : List α) = none)
    (h : Pieces pat xs ps t) : Pieces pat (pat ++ xs) ([] :: ps) t := by
  have h0 : find pat (pat ++ xs) = some 0 := hb.find_append hne xs
  refine .cut h0 ?_
  rwa [Nat.zero_add, List.drop_left]

/-- So is the one that ends the first stretch, seen from where it starts. -/
theorem of_delimiter (hb : Unbordered pat) (hne : find pat ([] : List α) = none) {k : Nat}
    (hk : find pat xs = some k) (h : Pieces pat (xs.drop (k + pat.length)) ps t) :
    Pieces pat (xs.drop k) ([] :: ps) t := by
  obtain ⟨-, ⟨r, hr⟩, -⟩ := (find_eq_some_iff ..).mp hk
  rw [← List.drop_drop, ← hr, List.drop_left] at h
  rw [← hr]
  exact h.behind hb hne

/-- Symbols in front at which no delimiter starts belong to the first stretch. -/
theorem of_drop {p : List α} {k : Nat} (hk : ∀ i < k, ¬ pat <+: xs.drop i) (hl : k ≤ xs.length)
    (h : Pieces pat (xs.drop k) (p :: ps) t) : Pieces pat xs ((xs.take k ++ p) :: ps) t := by
  cases h with
  | @cut _ _ _ j hf hrest =>
    obtain ⟨hj, hp, hn⟩ := (find_eq_some_iff ..).mp hf
    rw [List.drop_drop] at hp
    rw [List.length_drop] at hj
    have hfind : find pat xs = some (k + j) := by
      refine (find_eq_some_iff ..).mpr ⟨by omega, hp, ?_⟩
      intro i hi hocc
      by_cases hik : i < k
      · exact hk i hik hocc
      · obtain ⟨d, rfl⟩ := Nat.exists_eq_add_of_le (Nat.not_lt.mp hik)
        rw [← List.drop_drop] at hocc
        exact hn d (by omega) hocc
    rw [← List.take_add]
    rw [List.drop_drop, ← Nat.add_assoc] at hrest
    exact .cut hfind hrest

theorem of_drop_nil {k : Nat} (hk : ∀ i < k, ¬ pat <+: xs.drop i) (hl : k ≤ xs.length)
    (h : Pieces pat (xs.drop k) [] t) : Pieces pat xs [] xs := by
  cases h with
  | last hf =>
    apply Pieces.last
    rw [find_eq_none_iff] at hf ⊢
    intro i hi hocc
    by_cases hik : i < k
    · exact hk i hik hocc
    · obtain ⟨d, rfl⟩ := Nat.exists_eq_add_of_le (Nat.not_lt.mp hik)
      rw [← List.drop_drop] at hocc
      exact hf d (by rw [List.length_drop]; omega) hocc

/-- The last delimiter stands before the last stretch. -/
theorem exists_append {p : List α} (h : Pieces pat xs (p :: ps) t) :
    ∃ front, xs = front ++ (pat ++ t) := by
  induction ps generalizing xs p with
  | nil =>
    cases h with
    | @cut _ _ _ j hf hrest =>
      cases hrest with
      | last =>
        obtain ⟨hj, ⟨r, hr⟩, -⟩ := (find_eq_some_iff ..).mp hf
        refine ⟨xs.take j, ?_⟩
        rw [← List.drop_drop, ← hr, List.drop_left, hr, List.take_append_drop]
  | cons q ps ih =>
    cases h with
    | @cut _ _ _ j _ hrest =>
      obtain ⟨front, hfront⟩ := ih hrest
      refine ⟨xs.take (j + pat.length) ++ front, ?_⟩
      rw [List.append_assoc, ← hfront, List.take_append_drop]

theorem find_tail (h : Pieces pat xs ps t) : find pat t = none := by
  induction h with
  | last hf => exact hf
  | cut _ _ ih => exact ih

theorem find_of_mem (hp : pat ≠ []) (h : Pieces pat xs ps t) :
    ∀ p ∈ ps, find pat p = none := by
  induction h with
  | last => simp
  | @cut xs t ps j hf _ ih =>
    intro p hm
    cases hm with
    | tail _ hm => exact ih p hm
    | head =>
      have hl := find_lt pat xs j hf
      have hpos := List.length_pos_iff.mpr hp
      have happ : find pat (xs.take j ++ xs.drop j) = some j := by rwa [List.take_append_drop]
      rw [find_of_append pat (xs.take j) (xs.drop j) j happ, List.length_take]
      exact if_neg (by omega)

/-- Stretches without the delimiter, joined by it, are cut where they were joined. -/
theorem join (hb : Unbordered pat) (hps : ∀ p ∈ ps, find pat p = none) (ht : find pat t = none) :
    Pieces pat (ps.flatMap (· ++ pat) ++ t) ps t := by
  induction ps with
  | nil => exact .last ht
  | cons p ps ih =>
    obtain ⟨hp, hrest⟩ := List.forall_mem_cons.mp hps
    have hfind := hb.find_append hp (ps.flatMap (· ++ pat) ++ t)
    have hdrop : (p ++ (pat ++ (ps.flatMap (· ++ pat) ++ t))).drop (p.length + pat.length) =
        ps.flatMap (· ++ pat) ++ t := by
      rw [← List.drop_drop, List.drop_left, List.drop_left]
    have hcut := Pieces.cut hfind (hdrop ▸ ih hrest)
    rw [List.take_left] at hcut
    rw [List.flatMap_cons, List.append_assoc, List.append_assoc]
    exact hcut

end Pieces
end DvrBridge.Search
