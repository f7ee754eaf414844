import Mathlib.Data.List.Induction
import Mathlib.Data.Option.Basic
import Mathlib.Order.Basic

/-! Runs of a partial step function with outputs. An input resolves every choice of the
scheduler and of the environment; a step that is not enabled has no result. -/
namespace DvrBridge.Machine
variable {σ ι ο : Type*}

abbrev Step (σ ι ο : Type*) := σ → ι → Option (σ × List ο)

def run (step : Step σ ι ο) : σ → List ι → Option (σ × List ο)
  | s, [] => some (s, [])
  | s, i :: is =>
    (step s i).bind fun r => (run step r.1 is).map fun t => (t.1, r.2 ++ t.2)

/-- `Q` holds of every step of the run: state and history before, input, state and outputs after. -/
def EveryStep (step : Step σ ι ο) (Q : σ → List ο → ι → σ → List ο → Prop)
    (s : σ) (is : List ι) : Prop :=
  ∀ p i q, is = p ++ i :: q → ∀ c h c' o,
    run step s p = some (c, h) → step c i = some (c', o) → Q c h i c' o

@[simp] theorem run_nil (step : Step σ ι ο) (s : σ) : run step s [] = some (s, []) := rfl

theorem run_cons_iff (step : Step σ ι ο) (s s' : σ) (i : ι) (is : List ι) (os : List ο) :
    run step s (i :: is) = some (s', os) ↔
      ∃ c o o', step s i = some (c, o) ∧ run step c is = some (s', o') ∧ os = o ++ o' := by
  simp only [run, Option.bind_eq_some_iff, Option.map_eq_some_iff, Prod.exists, Prod.mk.injEq]
  constructor
  · rintro ⟨c, o, hs, t, o', hr, rfl, rfl⟩
    exact ⟨c, o, o', hs, hr, rfl⟩
  · rintro ⟨c, o, o', hs, hr, rfl⟩
    exact ⟨c, o, hs, s', o', hr, rfl, rfl⟩

/-- A step without outputs. -/
theorem run_cons_of_step {step : Step σ ι ο} {s c : σ} {i : ι} (h : step s i = some (c, []))
    (is : List ι) : run step s (i :: is) = run step c is := by
  simp [run, h]

/-- Machines that take the same steps by the inputs of a run. -/
theorem run_congr {step step' : Step σ ι ο} {is : List ι} (h : ∀ i ∈ is, ∀ s, step s i = step' s i)
    (s : σ) : run step s is = run step' s is := by
  induction is generalizing s with
  | nil => rfl
  | cons i is ih =>
    obtain ⟨hi, his⟩ := List.forall_mem_cons.mp h
    have hrest : (fun r : σ × List ο => (run step r.1 is).map fun t => (t.1, r.2 ++ t.2)) =
        fun r => (run step' r.1 is).map fun t => (t.1, r.2 ++ t.2) := by
      funext r
      rw [ih his]
    rw [run, run, hi s, hrest]

theorem run_append_iff (step : Step σ ι ο) (s s' : σ) (is js : List ι) (os : List ο) :
    run step s (is ++ js) = some (s', os) ↔
      ∃ c o o', run step s is = some (c, o) ∧ run step c js = some (s', o') ∧ os = o ++ o' := by
  induction is generalizing s os with
  | nil =>
    constructor
    · intro h
      exact ⟨s, [], os, rfl, h, rfl⟩
    · rintro ⟨c, o, o', hc, hr, rfl⟩
      cases hc
      exact hr
  | cons i is ih =>
    rw [List.cons_append, run_cons_iff]
    constructor
    · rintro ⟨c, o, o', hs, hr, rfl⟩
      obtain ⟨d, o₁, o₂, h₁, h₂, rfl⟩ := (ih c o').mp hr
      exact ⟨d, o ++ o₁, o₂, (run_cons_iff step s d i is _).mpr ⟨c, o, o₁, hs, h₁, rfl⟩, h₂,
        (List.append_assoc o o₁ o₂).symm⟩
    · rintro ⟨d, o₁, o₂, h₁, h₂, rfl⟩
      obtain ⟨c, o, o', hs, hr, rfl⟩ := (run_cons_iff step s d i is o₁).mp h₁
      exact ⟨c, o, o' ++ o₂, hs, (ih c _).mpr ⟨d, o', o₂, hr, h₂, rfl⟩,
        List.append_assoc o o' o₂⟩

theorem run_snoc_iff (step : Step σ ι ο) (s s' : σ) (is : List ι) (i : ι) (os : List ο) :
    run step s (is ++ [i]) = some (s', os) ↔
      ∃ c h o, run step s is = some (c, h) ∧ step c i = some (s', o) ∧ os = h ++ o := by
  rw [run_append_iff]
  simp only [run_cons_iff, run_nil, Option.some.injEq, Prod.mk.injEq]
  constructor
  · rintro ⟨c, h, o', hr, ⟨d, o, e, hs, ⟨rfl, rfl⟩, rfl⟩, rfl⟩
    exact ⟨c, h, o, hr, hs, by simp⟩
  · rintro ⟨c, h, o, hr, hs, rfl⟩
    exact ⟨c, h, o, hr, ⟨s', o, [], hs, ⟨rfl, rfl⟩, by simp⟩, rfl⟩

theorem EveryStep.init {step : Step σ ι ο} {Q : σ → List ο → ι → σ → List ο → Prop}
    {s : σ} {is js : List ι} (h : EveryStep step Q s (is ++ js)) : EveryStep step Q s is := by
  intro p i q hp c k c' o hr hs
  exact h p i (q ++ js) (by simp [hp]) c k c' o hr hs

theorem EveryStep.mono {step : Step σ ι ο} {Q R : σ → List ο → ι → σ → List ο → Prop}
    (hqr : ∀ c h i c' o, Q c h i c' o → R c h i c' o) {s : σ} {is : List ι}
    (h : EveryStep step Q s is) : EveryStep step R s is :=
  fun p i q hp c k c' o hr hs => hqr _ _ _ _ _ (h p i q hp c k c' o hr hs)

theorem EveryStep.and {step : Step σ ι ο} {Q R : σ → List ο → ι → σ → List ο → Prop}
    {s : σ} {is : List ι} (hQ : EveryStep step Q s is) (hR : EveryStep step R s is) :
    EveryStep step (fun c h i c' o => Q c h i c' o ∧ R c h i c' o) s is :=
  fun p i q hp c h c' o hr hs => ⟨hQ p i q hp c h c' o hr hs, hR p i q hp c h c' o hr hs⟩

theorem EveryStep.last {step : Step σ ι ο} {Q : σ → List ο → ι → σ → List ο → Prop}
    {s s' : σ} {is : List ι} {i : ι} {os : List ο} (h : EveryStep step Q s (is ++ [i]))
    (hr : run step s (is ++ [i]) = some (s', os)) : ∃ c k o, Q c k i s' o := by
  obtain ⟨c, k, o, hc, hs, -⟩ := (run_snoc_iff step s s' is i os).mp hr
  exact ⟨c, k, o, h is i [] rfl c k s' o hc hs⟩

/-- Refutes a law by evaluating it at the last step of a run. -/
theorem not_everyStep {step : Step σ ι ο} {Q : σ → List ο → ι → σ → List ο → Prop} {s : σ}
    {is : List ι} {i : ι} [∀ c h c' o, Decidable (Q c h i c' o)]
    (he : (run step s is).bind (fun r =>
      (step r.1 i).map fun q => decide (Q r.1 r.2 i q.1 q.2)) = some false) :
    ¬ EveryStep step Q s (is ++ [i]) := by
  intro hall
  obtain ⟨⟨c, h⟩, hr, hq⟩ := Option.bind_eq_some_iff.mp he
  obtain ⟨⟨c', o⟩, hs, hd⟩ := Option.map_eq_some_iff.mp hq
  exact of_decide_eq_false hd (hall is i [] rfl c h c' o hr hs)

/-- Evaluates a law at every enabled step of a run; `h` is the history so far. -/
def checkEvery (step : Step σ ι ο) (Q : σ → List ο → ι → σ → List ο → Bool) :
    σ → List ο → List ι → Bool
  | _, _, [] => true
  | s, h, i :: is =>
    match step s i with
    | some (s', o) => Q s h i s' o && checkEvery step Q s' (h ++ o) is
    | none => true

theorem everyStep_of_checkEvery {step : Step σ ι ο} {Q : σ → List ο → ι → σ → List ο → Prop}
    [∀ c h i c' o, Decidable (Q c h i c' o)] {s : σ} {is : List ι}
    (hc : checkEvery step (fun c h i c' o => decide (Q c h i c' o)) s [] is = true) :
    EveryStep step Q s is := by
  have hgen : ∀ (p : List ι) (s : σ) (h : List ο) (is : List ι) (i : ι) (q : List ι),
      checkEvery step (fun c h i c' o => decide (Q c h i c' o)) s h is = true →
      is = p ++ i :: q → ∀ c k c' o, run step s p = some (c, k) → step c i = some (c', o) →
      Q c (h ++ k) i c' o := by
    intro p
    induction p with
    | nil =>
      rintro s h is i q hc rfl c k c' o hr hs
      cases hr
      simp only [List.nil_append, checkEvery, hs, Bool.and_eq_true, decide_eq_true_eq] at hc
      simpa using hc.1
    | cons j p ih =>
      rintro s h is i q hc rfl c k c' o hr hs
      obtain ⟨d, o₁, o₂, hj, hp, rfl⟩ := (run_cons_iff step s c j p k).mp hr
      simp only [List.cons_append, checkEvery, hj, Bool.and_eq_true] at hc
      have := ih d (h ++ o₁) (p ++ i :: q) i q hc.2 rfl c o₂ c' o hp hs
      rwa [List.append_assoc] at this
  intro p i q hp c k c' o hr hs
  simpa using hgen p s [] is i q hc hp c k c' o hr hs

/-- A law of the history that every step keeps holds of the whole history. -/
theorem EveryStep.history {step : Step σ ι ο} {P : List ο → Prop} (h0 : P []) {s s' : σ}
    {is : List ι} {os : List ο} (h : EveryStep step (fun _ h _ _ o => P (h ++ o)) s is)
    (hr : run step s is = some (s', os)) : P os := by
  induction is using List.reverseRecOn with
  | nil =>
    cases hr
    exact h0
  | append_singleton is i _ =>
    obtain ⟨c, k, o, hc, hs, rfl⟩ := (run_snoc_iff step s s' is i os).mp hr
    exact h is i [] rfl c k s' o hc hs

/-- What has been shown after a step is the beginning of what the run shows. -/
theorem everyStep_begins {step : Step σ ι ο} {s s' : σ} {is : List ι} {os : List ο}
    (hr : run step s is = some (s', os)) :
    EveryStep step (fun _ h _ _ o => h ++ o <+: os) s is := by
  rintro p i q rfl c h c' o hp hs
  obtain ⟨d, k, k', hd, hrest, rfl⟩ := (run_append_iff step s s' p (i :: q) os).mp hr
  rw [hp, Option.some.injEq, Prod.mk.injEq] at hd
  obtain ⟨rfl, rfl⟩ := hd
  obtain ⟨e, a, b, he, -, rfl⟩ := (run_cons_iff step c s' i q k').mp hrest
  rw [hs, Option.some.injEq, Prod.mk.injEq] at he
  obtain ⟨rfl, rfl⟩ := he
  rw [← List.append_assoc]
  exact List.prefix_append _ _

/-- A condition on the inputs alone. -/
theorem everyStep_of_forall_mem {step : Step σ ι ο} {A : ι → Prop} {s : σ} {is : List ι}
    (h : ∀ i ∈ is, A i) : EveryStep step (fun _ _ i _ _ => A i) s is := by
  intro p i q hp c k c' o _ _
  exact h i (by simp [hp])

/-- Invariant rule for runs whose steps all meet a condition. -/
theorem run_invariant {step : Step σ ι ο} {Q : σ → List ο → ι → σ → List ο → Prop}
    (Inv : σ → List ο → Prop) {s : σ} (h0 : Inv s [])
    (hstep : ∀ c h i c' o, Inv c h → step c i = some (c', o) → Q c h i c' o → Inv c' (h ++ o))
    {is : List ι} {s' : σ} {os : List ο} (hQ : EveryStep step Q s is)
    (hr : run step s is = some (s', os)) : Inv s' os := by
  induction is using List.reverseRecOn generalizing s' os with
  | nil =>
    cases hr
    exact h0
  | append_singleton is i ih =>
    obtain ⟨c, h, o, hc, hs, rfl⟩ := (run_snoc_iff step s s' is i os).mp hr
    exact hstep c h i s' o (ih hQ.init hc) hs (hQ is i [] (by simp) c h s' o hc hs)

/-- Invariant rule with the inputs so far. -/
theorem run_invariant_inputs {step : Step σ ι ο} (Inv : σ → List ι → List ο → Prop) {s : σ}
    (h0 : Inv s [] [])
    (hstep : ∀ c is h i c' o, Inv c is h → step c i = some (c', o) → Inv c' (is ++ [i]) (h ++ o))
    {is : List ι} {s' : σ} {os : List ο} (hr : run step s is = some (s', os)) : Inv s' is os := by
  induction is using List.reverseRecOn generalizing s' os with
  | nil =>
    cases hr
    exact h0
  | append_singleton is i ih =>
    obtain ⟨c, h, o, hc, hs, rfl⟩ := (run_snoc_iff step s s' is i os).mp hr
    exact hstep c is h i s' o (ih hc) hs

/-- Unconditional invariant rule. -/
theorem run_invariant' {step : Step σ ι ο} (Inv : σ → List ο → Prop) {s : σ} (h0 : Inv s [])
    (hstep : ∀ c h i c' o, Inv c h → step c i = some (c', o) → Inv c' (h ++ o))
    {is : List ι} {s' : σ} {os : List ο} (hr : run step s is = some (s', os)) : Inv s' os :=
  run_invariant (Q := fun _ _ _ _ _ => True) Inv h0
    (fun c h i c' o hi hs _ => hstep c h i c' o hi hs)
    (fun _ _ _ _ _ _ _ _ _ _ => trivial) hr

/-- Every step of a run starts in a state that satisfies the invariant. -/
theorem everyStep_of_invariant {step : Step σ ι ο} {Q R : σ → List ο → ι → σ → List ο → Prop}
    (Inv : σ → List ο → Prop) {s : σ} (h0 : Inv s [])
    (hstep : ∀ c h i c' o, Inv c h → step c i = some (c', o) → Q c h i c' o → Inv c' (h ++ o))
    (hR : ∀ c h i c' o, Inv c h → step c i = some (c', o) → Q c h i c' o → R c h i c' o)
    {is : List ι} (hQ : EveryStep step Q s is) : EveryStep step R s is := by
  intro p i q hp c h c' o hr hs
  have hQp : EveryStep step Q s p := (hp ▸ hQ : EveryStep step Q s (p ++ i :: q)).init
  exact hR c h i c' o (run_invariant Inv h0 hstep hQp hr) hs (hQ p i q hp c h c' o hr hs)

/-- When, in states that satisfy the invariant, a step meets `C` exactly if it satisfies `R`,
and steps that meet `C` keep the invariant, a run satisfies `R` exactly if it meets `C`.
All steps of the run may be assumed to satisfy `B`. -/
theorem everyStep_iff {step : Step σ ι ο} {B C R : σ → List ο → ι → σ → List ο → Prop}
    (Inv : σ → List ο → Prop) {s : σ} (h0 : Inv s [])
    (hstep : ∀ c h i c' o, Inv c h → step c i = some (c', o) → B c h i c' o →
      C c h i c' o → Inv c' (h ++ o))
    (hiff : ∀ c h i c' o, Inv c h → step c i = some (c', o) → B c h i c' o →
      (R c h i c' o ↔ C c h i c' o))
    {is : List ι} (hB : EveryStep step B s is) :
    EveryStep step R s is ↔ EveryStep step C s is := by
  constructor
  · intro hR
    refine everyStep_of_invariant (Q := fun c h i c' o => B c h i c' o ∧ R c h i c' o) Inv h0
      ?_ ?_ (hB.and hR)
    · rintro c h i c' o hi hs ⟨hb, hr⟩
      exact hstep c h i c' o hi hs hb ((hiff c h i c' o hi hs hb).mp hr)
    · rintro c h i c' o hi hs ⟨hb, hr⟩
      exact (hiff c h i c' o hi hs hb).mp hr
  · intro hC
    refine everyStep_of_invariant (Q := fun c h i c' o => B c h i c' o ∧ C c h i c' o) Inv h0
      ?_ ?_ (hB.and hC)
    · rintro c h i c' o hi hs ⟨hb, hc⟩
      exact hstep c h i c' o hi hs hb hc
    · rintro c h i c' o hi hs ⟨hb, hc⟩
      exact (hiff c h i c' o hi hs hb).mpr hc

/-- A measure that every step lowers bounds the length of the runs. -/
theorem run_measure {step : Step σ ι ο} (μ : σ → Nat)
    (hstep : ∀ c i c' o, step c i = some (c', o) → μ c' < μ c) {is : List ι} {s s' : σ}
    {os : List ο} (hr : run step s is = some (s', os)) : is.length + μ s' ≤ μ s := by
  induction is generalizing s os with
  | nil =>
    cases hr
    simp
  | cons i is ih =>
    obtain ⟨c, o, o', hs, hrest, -⟩ := (run_cons_iff step s s' i is os).mp hr
    have h₁ := hstep s i c o hs
    have h₂ := ih hrest
    rw [List.length_cons]
    omega

/-- What every step lowers is lower after a run that has taken steps. -/
theorem run_lt {step : Step σ ι ο} {β : Type*} [Preorder β] (μ : σ → β)
    (hstep : ∀ c i c' o, step c i = some (c', o) → μ c' < μ c) {is : List ι} {s s' : σ}
    {os : List ο} (hne : is ≠ []) (hr : run step s is = some (s', os)) : μ s' < μ s := by
  induction is generalizing s os with
  | nil => exact absurd rfl hne
  | cons i is ih =>
    obtain ⟨c, o, o', hs, hrest, -⟩ := (run_cons_iff step s s' i is os).mp hr
    have hc := hstep s i c o hs
    cases is with
    | nil =>
      cases hrest
      exact hc
    | cons j is => exact (ih (by simp) hrest).trans hc

/-- Every run comes to an end, and `P` holds where no step is left. -/
def Terminates (step : Step σ ι ο) (s : σ) (P : σ → List ο → Prop) : Prop :=
  (∃ n, ∀ is s' os, run step s is = some (s', os) → is.length ≤ n) ∧
    ∀ is s' os, run step s is = some (s', os) → (∀ i, step s' i = none) → P s' os

/-- A machine that terminates has a run to its end. -/
theorem Terminates.exists_end {step : Step σ ι ο} {s : σ} {P : σ → List ο → Prop}
    (h : Terminates step s P) : ∃ is s' os, run step s is = some (s', os) ∧ P s' os := by
  obtain ⟨⟨n, hn⟩, hend⟩ := h
  by_contra hno
  -- without an end there are runs of every length
  have hlong : ∀ k, ∃ is s' os, run step s is = some (s', os) ∧ is.length = k := by
    intro k
    induction k with
    | zero => exact ⟨[], s, [], rfl, rfl⟩
    | succ k ih =>
      obtain ⟨is, s', os, hr, hk⟩ := ih
      by_cases hstuck : ∀ i, step s' i = none
      · exact absurd ⟨is, s', os, hr, hend is s' os hr hstuck⟩ hno
      · obtain ⟨i, hi⟩ := not_forall.mp hstuck
        obtain ⟨⟨c, o⟩, hc⟩ := Option.ne_none_iff_exists'.mp hi
        exact ⟨is ++ [i], c, os ++ o,
          (run_snoc_iff step s c is i _).mpr ⟨s', os, o, hr, hc, rfl⟩, by simp [hk]⟩
  obtain ⟨is, s', os, hr, hk⟩ := hlong (n + 1)
  have := hn is s' os hr
  omega

/-- A run without the inputs that only one side sees: every kept input is matched by a step with
the same observations, every dropped one shows nothing. -/
theorem run_filter {step : Step σ ι ο} {ρ : Type*} (R : σ → σ → Prop) (keep : ι → Bool)
    (see : ο → Option ρ)
    (hkeep : ∀ s s' i c o, R s s' → step s i = some (c, o) → keep i = true →
      ∃ c' o', step s' i = some (c', o') ∧ R c c' ∧ o'.filterMap see = o.filterMap see)
    (hdrop : ∀ s s' i c o, R s s' → step s i = some (c, o) → keep i = false →
      R c s' ∧ o.filterMap see = [])
    {is : List ι} {s s' t : σ} {os : List ο} (hR : R s s') (hr : run step s is = some (t, os)) :
    ∃ t' os', run step s' (is.filter keep) = some (t', os') ∧ R t t' ∧
      os'.filterMap see = os.filterMap see := by
  induction is generalizing s s' os with
  | nil =>
    cases hr
    exact ⟨s', [], rfl, hR, rfl⟩
  | cons i is ih =>
    obtain ⟨c, o, o₁, hs, hrest, rfl⟩ := (run_cons_iff step s t i is os).mp hr
    cases hk : keep i with
    | true =>
      obtain ⟨c', o', hs', hR', he⟩ := hkeep s s' i c o hR hs hk
      obtain ⟨t', os', hr', ht, he'⟩ := ih hR' hrest
      rw [List.filter_cons_of_pos hk]
      exact ⟨t', o' ++ os', (run_cons_iff ..).mpr ⟨c', o', os', hs', hr', rfl⟩, ht,
        by rw [List.filterMap_append, List.filterMap_append, he, he']⟩
    | false =>
      obtain ⟨hR', he⟩ := hdrop s s' i c o hR hs hk
      obtain ⟨t', os', hr', ht, he'⟩ := ih hR' hrest
      rw [List.filter_cons_of_neg (by simp [hk])]
      exact ⟨t', os', hr', ht, by rw [List.filterMap_append, he, List.nil_append, he']⟩

/-- When `abs` turns the steps by the inputs in `A` into exactly the steps of another machine, it
turns the runs by such inputs into exactly its runs, with the same outputs. -/
theorem run_abstraction {σ' ι' : Type*} {step : Step σ ι ο} {step' : Step σ' ι' ο}
    (Inv : σ → Prop) (abs : σ → σ') (A : ι → Prop)
    (hforth : ∀ s i c o, Inv s → A i → step s i = some (c, o) →
      Inv c ∧ ∃ j, step' (abs s) j = some (abs c, o))
    (hback : ∀ s j d o, Inv s → step' (abs s) j = some (d, o) →
      ∃ i c, A i ∧ step s i = some (c, o) ∧ abs c = d ∧ Inv c)
    {s : σ} (h0 : Inv s) {d : σ'} {os : List ο} :
    (∃ is c, (∀ i ∈ is, A i) ∧ run step s is = some (c, os) ∧ abs c = d) ↔
      ∃ js, run step' (abs s) js = some (d, os) := by
  constructor
  · rintro ⟨is, c, hA, hr, rfl⟩
    induction is generalizing s os with
    | nil =>
      cases hr
      exact ⟨[], rfl⟩
    | cons i is ih =>
      obtain ⟨hi, hA⟩ := List.forall_mem_cons.mp hA
      obtain ⟨e, o, o', hs, hrest, rfl⟩ := (run_cons_iff step s c i is os).mp hr
      obtain ⟨he, j, hj⟩ := hforth s i e o h0 hi hs
      obtain ⟨js, hjs⟩ := ih he hA hrest
      exact ⟨j :: js, (run_cons_iff ..).mpr ⟨abs e, o, o', hj, hjs, rfl⟩⟩
  · rintro ⟨js, hr⟩
    induction js generalizing s os with
    | nil =>
      cases hr
      exact ⟨[], s, by simp, rfl, rfl⟩
    | cons j js ih =>
      obtain ⟨e, o, o', hs, hrest, rfl⟩ := (run_cons_iff step' (abs s) d j js os).mp hr
      obtain ⟨i, c, hi, hc, rfl, hinv⟩ := hback s j e o h0 hs
      obtain ⟨is, t, hA, ht, hd⟩ := ih hinv hrest
      exact ⟨i :: is, t, List.forall_mem_cons.mpr ⟨hi, hA⟩,
        (run_cons_iff ..).mpr ⟨c, o, o', hc, ht, rfl⟩, hd⟩

/-- A part of a machine that each step leaves alone or moves by a step of its own: what the run does
to the part is a run of it. -/
theorem run_component {σ' ι' ο' : Type*} {step : Step σ ι ο} {step' : Step σ' ι' ο'}
    (part : σ → σ') (see : ο → List ο')
    (hstep : ∀ s i c o, step s i = some (c, o) →
      (part c = part s ∧ o.flatMap see = []) ∨ ∃ j, step' (part s) j = some (part c, o.flatMap see))
    {is : List ι} {s s' : σ} {os : List ο} (hr : run step s is = some (s', os)) :
    ∃ js, run step' (part s) js = some (part s', os.flatMap see) := by
  induction is generalizing s os with
  | nil =>
    cases hr
    exact ⟨[], rfl⟩
  | cons i is ih =>
    obtain ⟨c, o, o', hs, hrest, rfl⟩ := (run_cons_iff step s s' i is os).mp hr
    obtain ⟨js, hjs⟩ := ih hrest
    rw [List.flatMap_append]
    rcases hstep s i c o hs with ⟨hc, ho⟩ | ⟨j, hj⟩
    · exact ⟨js, by rw [ho, List.nil_append, ← hc, hjs]⟩
    · exact ⟨j :: js, (run_cons_iff ..).mpr ⟨part c, _, _, hj, hjs, rfl⟩⟩

end DvrBridge.Machine
