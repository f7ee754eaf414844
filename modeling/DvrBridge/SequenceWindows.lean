import Mathlib.Logic.Function.Iterate
import Mathlib.Tactic.Common

/-! Windows of numbered items: an item lies between an opening mark and the next closing one, and
the numbers in a window run on from the one that an opening mark announces. -/
namespace DvrBridge

inductive Mark (ν : Type*) where
  | opens (announced : Option ν)
  | item (n : ν)
  /-- a number used up without an item -/
  | spent
  | closes
  deriving DecidableEq

namespace Mark
variable {ν : Type*}

/-- How many numbers the marks use up. -/
def used : List (Mark ν) → Nat
  | [] => 0
  | .item _ :: h | .spent :: h => used h + 1
  | .opens _ :: h | .closes :: h => used h

/-- Items are in windows only; whatever comes in a window, up to its closing mark, goes on counting
from any number announced in it. -/
structure Windowed (succ : ν → ν) (h : List (Mark ν)) : Prop where
  inside : ∀ a n b, h = a ++ .item n :: b →
    ∃ a₁ m a₂, a = a₁ ++ .opens m :: a₂ ∧ .closes ∉ a₂
  announced : .opens none ∉ h
  numbered : ∀ a m u n b, h = a ++ .opens (some m) :: u ++ .item n :: b → .closes ∉ u →
    n = succ^[used u] m
  reannounced : ∀ a m u n b, h = a ++ .opens (some m) :: u ++ .opens (some n) :: b →
    .closes ∉ u → n = succ^[used u] m

/-- The marks are in order when `next` is the number expected before them, if a window is open, and
the last argument the one expected after them. -/
inductive Follows (succ : ν → ν) : Option ν → List (Mark ν) → Option ν → Prop
  | nil {next : Option ν} : Follows succ next [] next
  | opens {m : ν} {h : List (Mark ν)} {t : Option ν} : Follows succ (some m) h t →
      Follows succ none (.opens (some m) :: h) t
  | again {m : ν} {h : List (Mark ν)} {t : Option ν} : Follows succ (some m) h t →
      Follows succ (some m) (.opens (some m) :: h) t
  | item {n : ν} {h : List (Mark ν)} {t : Option ν} : Follows succ (some (succ n)) h t →
      Follows succ (some n) (.item n :: h) t
  | spent {next : Option ν} {h : List (Mark ν)} {t : Option ν} : Follows succ (next.map succ) h t →
      Follows succ next (.spent :: h) t
  | closes {next : Option ν} {h : List (Mark ν)} {t : Option ν} : Follows succ none h t →
      Follows succ next (.closes :: h) t

section
variable {succ : ν → ν} {next s t : Option ν} {h h' : List (Mark ν)}

theorem Follows.append (hs : Follows succ next h s) (ht : Follows succ s h' t) :
    Follows succ next (h ++ h') t := by
  induction hs with
  | nil => exact ht
  | opens _ ih => exact .opens (ih ht)
  | again _ ih => exact .again (ih ht)
  | item _ ih => exact .item (ih ht)
  | spent _ ih => exact .spent (ih ht)
  | closes _ ih => exact .closes (ih ht)

theorem Follows.split (hf : Follows succ next (h ++ h') t) :
    ∃ s, Follows succ next h s ∧ Follows succ s h' t := by
  induction h generalizing next with
  | nil => exact ⟨next, .nil, hf⟩
  | cons m h ih =>
    cases hf with
    | opens hf =>
      obtain ⟨s, h₁, h₂⟩ := ih hf
      exact ⟨s, .opens h₁, h₂⟩
    | again hf =>
      obtain ⟨s, h₁, h₂⟩ := ih hf
      exact ⟨s, .again h₁, h₂⟩
    | item hf =>
      obtain ⟨s, h₁, h₂⟩ := ih hf
      exact ⟨s, .item h₁, h₂⟩
    | spent hf =>
      obtain ⟨s, h₁, h₂⟩ := ih hf
      exact ⟨s, .spent h₁, h₂⟩
    | closes hf =>
      obtain ⟨s, h₁, h₂⟩ := ih hf
      exact ⟨s, .closes h₁, h₂⟩

/-- Until it is closed a window counts every number used up. -/
theorem Follows.window {m : ν} (hf : Follows succ (some m) h t) (hc : .closes ∉ h) :
    t = some (succ^[used h] m) := by
  induction h generalizing m with
  | nil =>
    cases hf
    rfl
  | cons x h ih =>
    have hc' : .closes ∉ h := fun hm => hc (List.mem_cons_of_mem x hm)
    cases hf with
    | again hf => exact ih hf hc'
    | item hf => exact ih hf hc'
    | spent hf => exact ih hf hc'
    | closes => exact absurd (List.mem_cons_self ..) hc

/-- Where a number is expected a window has been open from the start or since an opening mark. -/
theorem Follows.isOpen (hf : Follows succ next h t) (ht : t.isSome = true) :
    next.isSome = true ∧ .closes ∉ h ∨ ∃ a m b, h = a ++ .opens m :: b ∧ .closes ∉ b := by
  have later {x : Mark ν} {k : List (Mark ν)}
      (hk : ∃ a m b, k = a ++ .opens m :: b ∧ .closes ∉ b) :
      ∃ a m b, x :: k = a ++ .opens m :: b ∧ .closes ∉ b := by
    obtain ⟨a, m, b, rfl, hb⟩ := hk
    exact ⟨x :: a, m, b, rfl, hb⟩
  induction hf with
  | nil => exact .inl ⟨ht, List.not_mem_nil⟩
  | opens _ ih | again _ ih =>
    rcases ih ht with ⟨-, hc⟩ | hk
    · exact .inr ⟨[], _, _, rfl, hc⟩
    · exact .inr (later hk)
  | item _ ih =>
    rcases ih ht with ⟨-, hc⟩ | hk
    · exact .inl ⟨rfl, List.not_mem_cons_of_ne_of_not_mem (by simp) hc⟩
    · exact .inr (later hk)
  | spent _ ih =>
    rcases ih ht with ⟨hn, hc⟩ | hk
    · exact .inl ⟨by simpa using hn, List.not_mem_cons_of_ne_of_not_mem (by simp) hc⟩
    · exact .inr (later hk)
  | closes _ ih =>
    rcases ih ht with ⟨hn, -⟩ | hk
    · cases hn
    · exact .inr (later hk)

/-- What comes next after `m` has been announced in a window. -/
theorem Follows.after {a u : List (Mark ν)} {m : ν}
    (hf : Follows succ next (a ++ .opens (some m) :: u ++ h) t) (hc : .closes ∉ u) :
    Follows succ (some (succ^[used u] m)) h t := by
  obtain ⟨s, h₁, h₂⟩ := hf.split
  obtain ⟨s', -, h₃⟩ := h₁.split
  have hu : Follows succ (some m) u s := by
    cases h₃ with
    | opens hu => exact hu
    | again hu => exact hu
  rw [hu.window hc] at h₂
  exact h₂

theorem Follows.windowed (hf : Follows succ none h t) : Windowed succ h := by
  refine ⟨?_, ?_, ?_, ?_⟩
  · rintro a n b rfl
    obtain ⟨s, h₁, h₂⟩ := hf.split
    cases h₂
    rcases h₁.isOpen rfl with ⟨hn, -⟩ | hk
    · cases hn
    · exact hk
  · intro hm
    obtain ⟨a, b, rfl⟩ := List.append_of_mem hm
    obtain ⟨s, -, h₂⟩ := hf.split
    cases h₂
  · rintro a m u n b rfl hc
    cases hf.after hc
    rfl
  · rintro a m u n b rfl hc
    cases hf.after hc
    rfl

theorem follows_spent (next : Option ν) (k : Nat) :
    Follows succ next (List.replicate k .spent) ((Option.map succ)^[k] next) := by
  induction k generalizing next with
  | zero => exact .nil
  | succ k ih => exact .spent (ih (next.map succ))

end
end Mark
end DvrBridge
