import Mathlib.Data.List.Basic
import Mathlib.Tactic.Common

/-! Readers of a prefix code: state, failure and a view of the state as the symbols that are left. -/
namespace DvrBridge

universe u
variable {σ ε : Type u} {τ : Type*} {ι : Type*}

/-- A sequence of readers succeeds exactly if both do. -/
theorem bind_eq_ok_iff {α β : Type u} {p : StateT σ (Except ε) α}
    {f : α → StateT σ (Except ε) β} {s s' : σ} {b : β} :
    (p >>= f) s = .ok (b, s') ↔ ∃ a t, p s = .ok (a, t) ∧ f a t = .ok (b, s') := by
  simp only [bind, StateT.bind]
  cases p s with
  | error e => simp [Except.bind]
  | ok r =>
    obtain ⟨a, t⟩ := r
    simp [Except.bind]

theorem pure_eq_ok_iff {α : Type u} {a b : α} {s s' : σ} :
    (pure a : StateT σ (Except ε) α) s = .ok (b, s') ↔ a = b ∧ s = s' := by
  change (Except.ok (a, s) : Except ε (α × σ)) = .ok (b, s') ↔ _
  rw [Except.ok.injEq, Prod.mk.injEq]

/-- Wherever the input goes on with `code`, the reader returns `a` and consumes just that. -/
def Reads {α : Type u} (left : σ → List τ) (p : StateT σ (Except ε) α) (code : List τ) (a : α) :
    Prop :=
  ∀ s rest, left s = code ++ rest → ∃ s', p s = .ok (a, s') ∧ left s' = rest

namespace Reads
variable {α β : Type u} {left : σ → List τ}

theorem pure (a : α) : Reads left (pure a : StateT σ (Except ε) α) [] a :=
  fun s _ h => ⟨s, rfl, h⟩

theorem bind {p : StateT σ (Except ε) α} {f : α → StateT σ (Except ε) β} {c d : List τ} {a : α}
    {b : β} (hp : Reads left p c a) (hf : Reads left (f a) d b) :
    Reads left (p >>= f) (c ++ d) b := by
  intro s rest h
  obtain ⟨s₁, hs₁, h₁⟩ := hp s (d ++ rest) (by rw [h, List.append_assoc])
  obtain ⟨s₂, hs₂, h₂⟩ := hf s₁ rest h₁
  refine ⟨s₂, ?_, h₂⟩
  change (p s >>= fun q => f q.1 q.2) = .ok (b, s₂)
  rw [hs₁]
  exact hs₂

/-- The last reader of a sequence may only compute. -/
theorem map {p : StateT σ (Except ε) α} {c : List τ} {a : α} (hp : Reads left p c a) (f : α → β) :
    Reads left (p >>= fun x => Pure.pure (f x)) c (f a) := by
  have h := hp.bind (f := fun x => Pure.pure (f x)) (Reads.pure (f a))
  rwa [List.append_nil] at h

/-- A loop that reads one item after the other. -/
theorem forItems {loop : Nat → StateT σ (Except ε) α} {step : StateT σ (Except ε) β} {a : α}
    {code : ι → List τ} {value : ι → β} (h0 : Reads left (loop 0) [] a)
    (hloop : ∀ n, loop (n + 1) = step >>= fun _ => loop n) (xs : List ι)
    (hx : ∀ x ∈ xs, Reads left step (code x) (value x)) :
    Reads left (loop xs.length) (xs.flatMap code) a := by
  induction xs with
  | nil => exact h0
  | cons x xs ih =>
    rw [List.length_cons, hloop, List.flatMap_cons]
    exact (hx x (by simp)).bind (ih fun y hy => hx y (by simp [hy]))

end Reads

/-- Whatever the reader returns is the value of an item, and what it consumed is the item's code. -/
def Parses {α : Type u} (left : σ → List τ) (p : StateT σ (Except ε) α) (code : ι → List τ)
    (value : ι → α) : Prop :=
  ∀ s a s', p s = .ok (a, s') → ∃ i, value i = a ∧ left s = code i ++ left s'

namespace Parses
variable {α β : Type u} {left : σ → List τ} {κ : Type*}

theorem pure (a : α) :
    Parses left (pure a : StateT σ (Except ε) α) (fun _ : Unit => []) fun _ => a := by
  intro s b s' h
  obtain ⟨hb, hs⟩ := pure_eq_ok_iff.mp h
  exact ⟨(), hb, by rw [hs, List.nil_append]⟩

/-- The items of a sequence are pairs; what the second may be depends on the first. -/
theorem bind {κ : ι → Type*} {p : StateT σ (Except ε) α} {f : α → StateT σ (Except ε) β}
    {code : ι → List τ} {value : ι → α} {codes : ∀ i, κ i → List τ} {values : ∀ i, κ i → β}
    (hp : Parses left p code value) (hf : ∀ i, Parses left (f (value i)) (codes i) (values i)) :
    Parses left (p >>= f) (fun x : Σ i, κ i => code x.1 ++ codes x.1 x.2)
      fun x => values x.1 x.2 := by
  intro s b s' h
  obtain ⟨a, t, ha, hb⟩ := bind_eq_ok_iff.mp h
  obtain ⟨i, rfl, hi⟩ := hp s a t ha
  obtain ⟨k, hk, ht⟩ := hf i t b s' hb
  refine ⟨⟨i, k⟩, hk, ?_⟩
  rw [hi, ht, List.append_assoc]

/-- The last reader of a sequence may only compute. -/
theorem map {p : StateT σ (Except ε) α} {code : ι → List τ} {value : ι → α}
    (hp : Parses left p code value) (f : α → β) :
    Parses left (p >>= fun x => Pure.pure (f x)) code fun i => f (value i) := by
  intro s b s' h
  obtain ⟨a, t, ha, hb⟩ := bind_eq_ok_iff.mp h
  obtain ⟨rfl, rfl⟩ := pure_eq_ok_iff.mp hb
  obtain ⟨i, rfl, hi⟩ := hp s a t ha
  exact ⟨i, rfl, hi⟩

/-- Items of another kind with the same codes. -/
theorem reindex {p : StateT σ (Except ε) α} {code : ι → List τ} {value : ι → α}
    {code' : κ → List τ} {value' : κ → α} (hp : Parses left p code value)
    (h : ∀ i, ∃ k, value' k = value i ∧ code' k = code i) : Parses left p code' value' := by
  intro s a s' hs
  obtain ⟨i, hi, hl⟩ := hp s a s' hs
  obtain ⟨k, hv, hc⟩ := h i
  exact ⟨k, hv.trans hi, hl.trans (by rw [hc])⟩

/-- A sequence whose first item decides of what kind the rest is. -/
theorem bind_cases {p : StateT σ (Except ε) α} {f : α → StateT σ (Except ε) β}
    {code : ι → List τ} {value : ι → α} {code' : κ → List τ} {b : β} (hp : Parses left p code value)
    (hf : ∀ i, Parses left (f (value i))
      (fun c : {c : List τ // ∃ k, code' k = code i ++ c} => c.val) fun _ => b) :
    Parses left (p >>= f) code' fun _ => b := by
  refine (hp.bind hf).reindex ?_
  rintro ⟨i, c, k, hk⟩
  exact ⟨k, rfl, hk⟩

/-- One kind of rest. -/
theorem rest {p : StateT σ (Except ε) α} {code : ι → List τ} {a : α} {code' : κ → List τ}
    {first : List τ} (hp : Parses left p code fun _ => a) (k : ι → κ)
    (h : ∀ i, code' (k i) = first ++ code i) :
    Parses left p (fun c : {c : List τ // ∃ k, code' k = first ++ c} => c.val) fun _ => a :=
  hp.reindex fun i => ⟨⟨code i, k i, h i⟩, rfl, rfl⟩

/-- A loop that reads one item after the other. -/
theorem forItems {loop : Nat → StateT σ (Except ε) α} {step : StateT σ (Except ε) β} {a : α}
    {code : ι → List τ} {value : ι → β} (h0 : loop 0 = Pure.pure a)
    (hloop : ∀ n, loop (n + 1) = step >>= fun _ => loop n) (hx : Parses left step code value)
    (n : Nat) :
    Parses left (loop n) (fun xs : {xs : List ι // xs.length = n} => xs.val.flatMap code)
      fun _ => a := by
  induction n with
  | zero =>
    rw [h0]
    exact (Parses.pure a).reindex fun _ => ⟨⟨[], rfl⟩, rfl, rfl⟩
  | succ n ih =>
    rw [hloop]
    refine (hx.bind fun _ => ih).reindex ?_
    rintro ⟨x, xs, hxs⟩
    exact ⟨⟨x :: xs, by rw [List.length_cons, hxs]⟩, rfl, List.flatMap_cons⟩

end Parses

/-- Where the items are codes of the reader, it succeeds exactly before one of them. -/
theorem succeeds_iff {α : Type u} {left : σ → List τ} {p : StateT σ (Except ε) α}
    {code : ι → List τ} {value : ι → α} (hr : ∀ i, Reads left p (code i) (value i))
    (hp : Parses left p code value) (s : σ) :
    (∃ a s', p s = .ok (a, s')) ↔ ∃ i, code i <+: left s := by
  constructor
  · rintro ⟨a, s', h⟩
    obtain ⟨i, -, hl⟩ := hp s a s' h
    exact ⟨i, left s', hl.symm⟩
  · rintro ⟨i, rest, hl⟩
    obtain ⟨s', h, -⟩ := hr i s rest hl.symm
    exact ⟨value i, s', h⟩

end DvrBridge
