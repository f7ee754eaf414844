import DvrBridge.Machine
import Mathlib.Algebra.Order.BigOperators.Group.Finset
import Mathlib.Algebra.BigOperators.Group.Finset.Piecewise
import Mathlib.Algebra.Order.Ring.Int
import Mathlib.Tactic.Common

/-! Sessions that are admitted while fewer than so many are live: the bound, what each session
keeps, and what all of them hold together. -/
namespace DvrBridge.Machine

/-- All sessions that were admitted, in order, and the numbers of those that are not over. -/
structure Pool (σ : Type*) where
  sessions : List σ := []
  live : List Nat := []

namespace Pool
variable {σ ι ο : Type*}

/-- A session more, unless `cap` are live. -/
def enter (cap : Int) (p : Pool σ) (s : σ) : Option (Pool σ) :=
  if cap ≤ p.live.length then none
  else some { sessions := p.sessions ++ [s], live := p.live ++ [p.sessions.length] }

/-- A step of session `k`; one that is over then is live no longer. -/
def move (step : Step σ ι ο) (gone : σ → Bool) (p : Pool σ) (k : Nat) (i : ι) :
    Option (Pool σ × List ο) :=
  p.sessions[k]?.bind fun s => (step s i).map fun r =>
    ({ sessions := p.sessions.set k r.1, live := if gone r.1 then p.live.erase k else p.live }, r.2)

theorem enter_eq_some {cap : Int} {p p' : Pool σ} {s : σ} : p.enter cap s = some p' ↔
    p.live.length < cap ∧
      p' = { sessions := p.sessions ++ [s], live := p.live ++ [p.sessions.length] } := by
  rw [enter, Option.ite_none_left_eq_some, Option.some.injEq, eq_comm (a := p'), Int.not_le]

theorem move_eq_some {step : Step σ ι ο} {gone : σ → Bool} {p p' : Pool σ} {k : Nat} {i : ι}
    {o : List ο} : p.move step gone k i = some (p', o) ↔
      ∃ s s', p.sessions[k]? = some s ∧ step s i = some (s', o) ∧
        p' = { sessions := p.sessions.set k s'
               live := if gone s' then p.live.erase k else p.live } := by
  simp only [move, Option.bind_eq_some_iff, Option.map_eq_some_iff, Prod.mk.injEq]
  constructor
  · rintro ⟨s, hs, ⟨s', o'⟩, hstep, rfl, rfl⟩
    exact ⟨s, s', hs, hstep, rfl⟩
  · rintro ⟨s, s', hs, hstep, rfl⟩
    exact ⟨s, hs, (s', o), hstep, rfl, rfl⟩

/-! The bound. -/

/-- `live` lists exactly the sessions that are not over, and at most `cap` of them. -/
structure Sound (gone : σ → Bool) (cap : Int) (p : Pool σ) : Prop where
  nodup : p.live.Nodup
  mem : ∀ k, k ∈ p.live ↔ ∃ s, p.sessions[k]? = some s ∧ gone s = false
  bound : (p.live.length : Int) ≤ max cap 0

theorem sound_empty (gone : σ → Bool) (cap : Int) : Sound gone cap {} :=
  ⟨List.nodup_nil, by simp, le_max_right _ _⟩

section
variable {gone : σ → Bool} {cap : Int} {p p' : Pool σ} {s : σ}

theorem Sound.lt (h : p.Sound gone cap) {k : Nat} (hk : k ∈ p.live) : k < p.sessions.length := by
  obtain ⟨s, hs, -⟩ := (h.mem k).mp hk
  exact (List.getElem?_eq_some_iff.mp hs).1

theorem Sound.enter (h : p.Sound gone cap) (hs : gone s = false) (ha : p.enter cap s = some p') :
    p'.Sound gone cap := by
  obtain ⟨hlt, rfl⟩ := enter_eq_some.mp ha
  refine ⟨?_, fun k => ?_, ?_⟩
  · refine List.nodup_append.mpr ⟨h.nodup, List.nodup_singleton _, fun k hk n hn he => ?_⟩
    rw [List.mem_singleton] at hn
    have := h.lt hk
    omega
  · rw [List.mem_append, List.mem_singleton, h.mem k]
    rcases Nat.lt_trichotomy k p.sessions.length with hk | rfl | hk
    · rw [List.getElem?_append_left hk]
      exact or_iff_left (by omega)
    · simp [hs]
    · have hlen : (p.sessions ++ [s]).length ≤ k := by simpa using Nat.succ_le_of_lt hk
      rw [List.getElem?_eq_none hlen, List.getElem?_eq_none hk.le]
      simp only [reduceCtorEq, false_and, exists_false, false_or, iff_false]
      omega
  · rw [List.length_append, List.length_singleton]
    push_cast
    omega

theorem Sound.move {step : Step σ ι ο} {k : Nat} {i : ι} {o : List ο} (h : p.Sound gone cap)
    (hended : ∀ s i s' o, gone s = true → step s i = some (s', o) → gone s' = true)
    (hm : p.move step gone k i = some (p', o)) : p'.Sound gone cap := by
  obtain ⟨s, s', hs, hstep, rfl⟩ := move_eq_some.mp hm
  have hk : k < p.sessions.length := (List.getElem?_eq_some_iff.mp hs).1
  have hother {j : Nat} (hj : k ≠ j) : (p.sessions.set k s')[j]? = p.sessions[j]? :=
    List.getElem?_set_ne hj
  cases hd : gone s' with
  | true =>
    refine ⟨h.nodup.erase k, fun j => ?_, ?_⟩
    · rw [if_pos rfl, h.nodup.mem_erase_iff, h.mem j]
      by_cases hj : k = j
      · subst hj
        simp [hk, hd]
      · simp only [hother hj]
        exact and_iff_right (Ne.symm hj)
    · refine le_trans ?_ h.bound
      rw [if_pos rfl]
      exact_mod_cast (List.erase_sublist).length_le
  | false =>
    refine ⟨h.nodup, fun j => ?_, h.bound⟩
    rw [if_neg (by simp), h.mem j]
    by_cases hj : k = j
    · subst hj
      have hlive : gone s = false := by
        cases hs' : gone s with
        | true => rw [hended s i s' o hs' hstep] at hd; cases hd
        | false => rfl
      simp only [List.getElem?_set_self hk, hs, Option.some.injEq, exists_eq_left', hd, hlive]
    · simp only [hother hj]

end

/-! What every session keeps. -/

/-- `Inv` holds of each session and its own history. -/
structure Keeps (Inv : σ → List ο → Prop) (p : Pool σ) (h : Nat → List ο) : Prop where
  fresh : ∀ k, p.sessions.length ≤ k → h k = []
  inv : ∀ k s, p.sessions[k]? = some s → Inv s (h k)

section
variable {Inv : σ → List ο → Prop} {p p' : Pool σ} {h h' : Nat → List ο}

theorem keeps_empty (Inv : σ → List ο → Prop) : Keeps Inv {} fun _ => [] :=
  ⟨fun _ _ => rfl, by simp⟩

theorem Keeps.enter {cap : Int} {s : σ} (hk : p.Keeps Inv h) (hs : Inv s [])
    (ha : p.enter cap s = some p') : p'.Keeps Inv h := by
  obtain ⟨-, rfl⟩ := enter_eq_some.mp ha
  refine ⟨fun k hl => hk.fresh k ?_, fun k t ht => ?_⟩
  · rw [List.length_append, List.length_singleton] at hl
    omega
  · rcases Nat.lt_trichotomy k p.sessions.length with hlt | rfl | hlt
    · rw [List.getElem?_append_left hlt] at ht
      exact hk.inv k t ht
    · rw [List.getElem?_concat_length, Option.some.injEq] at ht
      subst ht
      rw [hk.fresh _ (le_refl _)]
      exact hs
    · have hlen : (p.sessions ++ [s]).length ≤ k := by simpa using Nat.succ_le_of_lt hlt
      rw [List.getElem?_eq_none hlen] at ht
      cases ht

theorem Keeps.move {step : Step σ ι ο} {gone : σ → Bool} {k : Nat} {i : ι} {o : List ο}
    (hk : p.Keeps Inv h) (hm : p.move step gone k i = some (p', o))
    (hstep : ∀ s s', p.sessions[k]? = some s → Inv s (h k) → step s i = some (s', o) →
      Inv s' (h k ++ o))
    (hself : h' k = h k ++ o) (hother : ∀ j, k ≠ j → h' j = h j) : p'.Keeps Inv h' := by
  obtain ⟨s, s', hs, hi, rfl⟩ := move_eq_some.mp hm
  have hlt : k < p.sessions.length := (List.getElem?_eq_some_iff.mp hs).1
  refine ⟨fun j hj => ?_, fun j t ht => ?_⟩
  · rw [List.length_set] at hj
    rw [hother j (by omega)]
    exact hk.fresh j hj
  · by_cases hkj : k = j
    · subst hkj
      rw [List.getElem?_set_self hlt, Option.some.injEq] at ht
      rw [hself, ← ht]
      exact hstep s s' hs (hk.inv k s hs) hi
    · rw [List.getElem?_set_ne hkj] at ht
      rw [hother j hkj]
      exact hk.inv j t ht

/-- When a session holds at most one resource, and none once it is over, all sessions together hold
no more resources than there are live sessions. -/
theorem Keeps.sum_le {gone : σ → Bool} {cap : Int} (hk : p.Keeps Inv h) (hs : p.Sound gone cap)
    (weight : List ο → Nat)
    (hw : ∀ s l, Inv s l → weight l ≤ if gone s then 0 else 1) :
    ∑ k ∈ Finset.range p.sessions.length, weight (h k) ≤ p.live.length := by
  have hone : ∀ k ∈ Finset.range p.sessions.length,
      weight (h k) ≤ if k ∈ p.live then 1 else 0 := by
    intro k hlt
    rw [Finset.mem_range] at hlt
    have hget : p.sessions[k]? = some p.sessions[k] := List.getElem?_eq_getElem hlt
    have hle := hw _ _ (hk.inv k _ hget)
    cases ho : gone p.sessions[k] with
    | true =>
      rw [ho] at hle
      exact hle.trans (Nat.zero_le _)
    | false =>
      rw [if_pos ((hs.mem k).mpr ⟨_, hget, ho⟩)]
      simpa [ho] using hle
  calc ∑ k ∈ Finset.range p.sessions.length, weight (h k)
      ≤ ∑ k ∈ Finset.range p.sessions.length, if k ∈ p.live then 1 else 0 :=
        Finset.sum_le_sum hone
    _ = ((Finset.range p.sessions.length).filter (· ∈ p.live)).card := by rw [Finset.card_filter]
    _ ≤ p.live.toFinset.card :=
        Finset.card_le_card fun k hm => List.mem_toFinset.mpr (Finset.mem_filter.mp hm).2
    _ ≤ p.live.length := p.live.toFinset_card_le

end
end Pool
end DvrBridge.Machine
