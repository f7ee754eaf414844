import DvrBridge.SupervisorServed

/-! A stream has at most one driver generator open at a time. -/
namespace DvrBridge.World
open Machine

/-- No generator is open: the `aclose()` of every earlier one has finished. -/
def NoGenerator (w : World) : Prop := ∀ k ∈ w.tasks, ¬ Connected k

/-- An open generator stays open, with the same driver, until the step in which its `aclose()`
has finished. -/
def OpenUntilClosed (w : World) (i : Input) (w' : World) : Prop :=
  ∀ (t : Nat) (k : RunTask), w.tasks[t]? = some k → Connected k →
    (∃ k', w'.tasks[t]? = some k' ∧ Connected k' ∧ k'.driver.serial = k.driver.serial) ∨
      ((∃ why, k.pc = .closing why) ∧ ∃ now₁ now₂, i = .run t now₁ now₂ .closed)

/-- Only the loop of `_run` makes a driver, and none of its own is open there. -/
theorem runStep_starts {w w' : World} {t : Nat} {k : RunTask} {now₁ now₂ : ℚ} {r : RunInput}
    {o : List Relay} (h : RunStep w t k now₁ now₂ r w' o) (hd : w.drivers < w'.drivers) :
    k.pc = .created ∨ k.pc = .backoff := by
  cases h with
  | connect hh _ => exact hh.pc
  | leaveLoop hh _ _ => exact hh.pc
  | frame f info _ _ => simp at hd
  | cancelCreated | cancelNext | cancelAway | failed | leaveIdle | leaveCancelled | leaveFailed
  | retry => exact absurd hd (Nat.lt_irrefl _)

theorem Sole.noGenerator {w w' : World} {i : Input} {o : List Relay} (h : w.Sole)
    (hs : w.step i = some (w', o)) (hd : w.drivers < w'.drivers) : w.NoGenerator := by
  rcases step_cases hs with ⟨t, now₁, now₂, r, k, rfl, hk, -, -, hr⟩ | ⟨-, -, hcall⟩
  · have hpc := runStep_starts hr hd
    have hnc : ¬ Connected k := by
      rcases hpc with hp | hp <;> simp [Connected, hp]
    have hlive : w.Live t := ⟨k, hk, by rcases hpc with hp | hp <;> simp [hp]⟩
    intro m hm hcm
    obtain ⟨u, hu⟩ := List.mem_iff_getElem?.mp hm
    have htu := h.eq_of_live hlive ⟨m, hu, hcm.not_done⟩
    subst htu
    rw [hk, Option.some.injEq] at hu
    exact hnc (hu ▸ hcm)
  · rw [hcall.drivers] at hd
    exact absurd hd (Nat.lt_irrefl _)

theorem tasks_prefix_ensureRunning (w : World) : w.tasks <+: w.ensureRunning.tasks := by
  rcases w.ensureRunning_cases with ⟨-, -, -, he⟩ | ⟨-, he⟩
  · rw [he]
  · rw [he]
    exact List.prefix_append w.tasks _

/-- The callers of the stream only add tasks, as long as nobody calls `stop`. -/
theorem tasks_prefix_call {w w' : World} {i : Input} {o : List Relay}
    (h : w.step i = some (w', o)) (hrun : ¬ IsRun i) (hstop : i ≠ .stop) :
    w.tasks <+: w'.tasks := by
  have htouch (w : World) (now : ℚ) : w.tasks <+: (w.touch now).tasks :=
    tasks_prefix_ensureRunning
      { w with stream := { w.stream with lastActivity := now }, clock := now }
  cases step_inv h with
  | run => exact absurd trivial hrun
  | stop => exact absurd rfl hstop
  | @subscribe x now =>
    exact htouch { w with
      stream := { w.stream with subs := w.stream.subs ++ [{ id := x }], wake := true }
      objects := x :: w.objects } now
  | touch => exact htouch w _
  | @waitReady id now =>
    simp only [waitReady]
    split
    · exact htouch w now
    · exact htouch w now
  | unsubscribe | get | resumed | waitTimeout | stopResumed => exact List.prefix_rfl

theorem runStep_open {w w' : World} {t : Nat} {k : RunTask} {now₁ now₂ : ℚ} {r : RunInput}
    {o : List Relay} (h : RunStep w t k now₁ now₂ r w' o) (hu : k.cancelRequested = false)
    (hc : Connected k) :
    (∃ k', w'.tasks = w.tasks.set t k' ∧ Connected k' ∧ k'.driver.serial = k.driver.serial) ∨
      ((∃ why, k.pc = .closing why) ∧ r = .closed) := by
  have hpc (hp : k.pc = .created ∨ k.pc = .backoff) : False := by
    rcases hc with h | ⟨why, h⟩ <;> rcases hp with hp | hp <;> simp [h] at hp
  cases h with
  | cancelCreated hreq | cancelNext hreq | cancelAway hreq => simp [hu] at hreq
  | leaveLoop hh | connect hh => exact (hpc hh.pc).elim
  | frame f info hp _ =>
    refine .inl ⟨_, w.frame_tasks t k f info now₁ now₂, ?_, rfl⟩
    simp only [Connected]
    split
    · exact .inr ⟨_, rfl⟩
    · exact .inl rfl
  | failed => exact .inl ⟨_, rfl, .inr ⟨_, rfl⟩, rfl⟩
  | leaveIdle hp | leaveCancelled hp | leaveFailed hp | retry hp => exact .inr ⟨⟨_, hp⟩, rfl⟩

/-- The step lemma: what becomes of an open generator. -/
theorem Sole.openUntilClosed {w w' : World} {i : Input} {o : List Relay} (h : w.Sole)
    (hs : w.step i = some (w', o)) (hstop : i ≠ .stop) : w.OpenUntilClosed i w' := by
  intro u k hk hc
  rcases step_cases hs with ⟨t, now₁, now₂, r, m, rfl, hm, -, -, hr⟩ | ⟨hrun, -, -⟩
  · by_cases htu : t = u
    · subst htu
      obtain rfl : m = k := Option.some.inj (hm.symm.trans hk)
      rcases runStep_open hr (h.uncancelled t m hm).1 hc with ⟨k', htasks, hc', hd⟩ | ⟨hp, rfl⟩
      · refine .inl ⟨k', ?_, hc', hd⟩
        rw [htasks]
        exact List.getElem?_set_self (List.getElem?_eq_some_iff.mp hk).1
      · exact .inr ⟨hp, now₁, now₂, rfl⟩
    · obtain ⟨k', htasks, -⟩ := runStep_task hr
      refine .inl ⟨k, ?_, hc, rfl⟩
      rw [htasks, List.getElem?_set_ne htu]
      exact hk
  · obtain ⟨new, hnew⟩ := tasks_prefix_call hs hrun hstop
    refine .inl ⟨k, ?_, hc, rfl⟩
    rw [← hnew, List.getElem?_append_left (List.getElem?_eq_some_iff.mp hk).1]
    exact hk

/-- Before `stop` is called, in every order of calls, failures, idle exits and restarts, at most
one generator is open, a driver is made only when none is, and a generator is open until its
`aclose()` has finished. -/
theorem one_generator (alwaysOn : Bool) (linger : ℚ) (is : List Input)
    (hstop : ∀ i ∈ is, i ≠ .stop) :
    EveryStep step
      (fun w _ i w' _ => w'.OneOpen ∧ (w.drivers < w'.drivers → w.NoGenerator) ∧
        w.OpenUntilClosed i w')
      (fresh alwaysOn linger) is := by
  refine everyStep_of_invariant (Q := fun _ _ i _ _ => i ≠ .stop) (fun w _ => w.Sole)
    (fresh_sole alwaysOn linger) ?_ ?_ (everyStep_of_forall_mem hstop)
  · exact fun w _ i w' o hw hs hi => (hw.step hs hi).1
  · intro w _ i w' o hw hs hi
    exact ⟨(hw.step hs hi).1.oneOpen, fun hd => hw.noGenerator hs hd, hw.openUntilClosed hs hi⟩

/-- A failure, a reconnect, an idle exit and a restart by a new subscriber. -/
def twoTasks : List Input :=
  [.subscribe 0 0, .run 0 0 0 .begin, .run 0 1 1 .failed, .run 0 1 1 .closed, .run 0 2 2 .timeout,
    .unsubscribe 0 2, .run 0 9 9 (.frame { payload := [] } {}), .run 0 9 9 .closed,
    .subscribe 1 9, .run 1 9 9 .begin]

theorem one_generator_two_tasks :
    (run step (fresh false 1) twoTasks).map (fun r => (r.1.drivers, r.1.tasks.map (·.pc))) =
        some (3, [.done, .next]) ∧
      EveryStep step
        (fun w _ i w' _ => w'.OneOpen ∧ (w.drivers < w'.drivers → w.NoGenerator) ∧
          w.OpenUntilClosed i w')
        (fresh false 1) twoTasks :=
  ⟨by decide +kernel, one_generator false 1 twoTasks (by simp [twoTasks])⟩

end DvrBridge.World
