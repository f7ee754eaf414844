import DvrBridge.SupervisorOneDriver
import DvrBridge.SupervisorWaiting

/-! What has finished when `stop` returns. -/
namespace DvrBridge.World
open Machine

/-- `stop` returns: it finds no running task, or it goes on after the task it awaited. -/
def StopReturns (w : World) : Input → Prop
  | .stop => ¬ w.Supervised
  | .stopResumed _ => True
  | _ => False

/-- Every task ever created for the stream has finished. -/
def AllFinished (w : World) : Prop := ∀ k ∈ w.tasks, k.pc = .done

/-- No call that may start a supervisor comes between the end of a task and the resumption of the
`stop` that awaits it. -/
def Undisturbed (w : World) : Input → Prop
  | .subscribe _ _ | .touch _ | .waitReady _ _ => ∀ t ∈ w.stoppers, w.taskDone t = false
  | _ => True

instance (w : World) : DecidablePred w.Undisturbed := fun i =>
  match i with
  | .subscribe _ _ | .touch _ | .waitReady _ _ =>
    inferInstanceAs (Decidable (∀ t ∈ w.stoppers, w.taskDone t = false))
  | .unsubscribe _ _ | .get _ | .resumed _ | .waitTimeout _ | .stop | .stopResumed _
  | .run _ _ _ _ => inferInstanceAs (Decidable True)

/-- Only the task behind the handle runs, and only it is awaited. -/
structure Orderly (w : World) : Prop where
  handle : ∀ t, w.Live t → w.stream.task = some t
  awaited : ∀ t ∈ w.stoppers, ∀ u, w.Live u → u = t

theorem Orderly.congr {w w' : World} (h : w.Orderly) (htasks : w'.tasks = w.tasks)
    (htask : w'.stream.task = w.stream.task) (hst : w'.stoppers = w.stoppers) : w'.Orderly := by
  refine ⟨?_, ?_⟩
  · rintro t ⟨k, hk, hl⟩
    rw [htask]
    exact h.handle t ⟨k, htasks ▸ hk, hl⟩
  · rintro t ht u ⟨k, hk, hl⟩
    exact h.awaited t (hst ▸ ht) u ⟨k, htasks ▸ hk, hl⟩

theorem Orderly.of_none {w : World} (h : ∀ t, ¬ w.Live t) : w.Orderly :=
  ⟨fun t hl => absurd hl (h t), fun _ _ u hl => absurd hl (h u)⟩

theorem allFinished_of_none {w : World} (h : ∀ t, ¬ w.Live t) :
    w.AllFinished ∧ w.NoGenerator := by
  have hdone : w.AllFinished := by
    intro k hk
    obtain ⟨t, ht⟩ := List.mem_iff_getElem?.mp hk
    by_contra hl
    exact h t ⟨k, ht, hl⟩
  exact ⟨hdone, fun k hk hc => hc.not_done (hdone k hk)⟩

theorem Orderly.none_of_unsupervised {w : World} (h : w.Orderly) (hs : ¬ w.Supervised) :
    ∀ t, ¬ w.Live t :=
  fun t hl => hs ⟨t, h.handle t hl, hl⟩

/-- A new task is created only when no task runs and, by the condition, nobody awaits one. -/
theorem Orderly.ensureRunning {w : World} (h : w.Orderly)
    (hu : ∀ t ∈ w.stoppers, w.taskDone t = false) : w.ensureRunning.Orderly := by
  rcases w.ensureRunning_cases with ⟨t, -, -, he⟩ | ⟨hn, he⟩
  · rw [he]
    exact h
  · have hnone : ∀ t, ¬ w.Live t := fun t hl => hn t (h.handle t hl) hl
    have hst : w.stoppers = [] := by
      apply List.eq_nil_iff_forall_not_mem.mpr
      intro t ht
      exact hnone t ((w.taskDone_eq_false_iff t).mp (hu t ht))
    rw [he]
    refine ⟨?_, ?_⟩
    · intro t hl
      rcases (live_createTask w t).mp hl with hl | rfl
      · exact absurd hl (hnone t)
      · rfl
    · intro t ht
      have ht' : t ∈ w.stoppers := ht
      simp [hst] at ht'

/-- A step of a task that runs keeps the handle, or it is the task's last. -/
theorem runStep_handle {w w' : World} {t : Nat} {k : RunTask} {now₁ now₂ : ℚ} {r : RunInput}
    {o : List Relay} (h : RunStep w t k now₁ now₂ r w' o) :
    k.pc ≠ .done ∧ w'.stoppers = w.stoppers ∧ ∃ k', w'.tasks = w.tasks.set t k' ∧
      (w'.stream.task = w.stream.task ∨ k'.pc = .done) := by
  cases h with
  | cancelCreated _ hp | cancelNext _ hp => exact ⟨by simp [hp], rfl, _, rfl, .inl rfl⟩
  | cancelAway _ hp =>
    refine ⟨?_, rfl, _, rfl, .inl rfl⟩
    rcases hp with hp | ⟨why, hp⟩
    · simp [hp]
    · simp [hp]
  | leaveLoop hh =>
    refine ⟨?_, rfl, _, rfl, .inr rfl⟩
    rcases hh.pc with hp | hp
    · simp [hp]
    · simp [hp]
  | connect hh =>
    refine ⟨?_, rfl, _, rfl, .inl rfl⟩
    rcases hh.pc with hp | hp
    · simp [hp]
    · simp [hp]
  | frame f info hp =>
    refine ⟨by simp [hp], frame_stoppers .., _, w.frame_tasks t k f info now₁ now₂, .inl ?_⟩
    rw [frame_stream]
    exact (onFrame_subs_task { w.stream with info := info } _ _ _).1
  | failed hp | leaveIdle hp | leaveCancelled hp | leaveFailed hp | retry hp =>
    exact ⟨by simp [hp], rfl, _, rfl, .inl rfl⟩

theorem live_of_set {w w' : World} {t u : Nat} {k k' : RunTask} (hk : w.tasks[t]? = some k)
    (hl : k.pc ≠ .done) (htasks : w'.tasks = w.tasks.set t k') (hu : w'.Live u) :
    w.Live u ∧ (u = t → k'.pc ≠ .done) := by
  obtain ⟨m, hm, hml⟩ := hu
  have hlen : t < w.tasks.length := (List.getElem?_eq_some_iff.mp hk).1
  rw [htasks, List.getElem?_set] at hm
  by_cases hut : t = u
  · subst hut
    rw [if_pos rfl, if_pos hlen, Option.some.injEq] at hm
    exact ⟨⟨k, hk, hl⟩, fun _ => hm ▸ hml⟩
  · rw [if_neg hut] at hm
    exact ⟨⟨m, hm, hml⟩, fun he => absurd he.symm hut⟩

theorem Orderly.runStep {w w' : World} {t : Nat} {k : RunTask} {now₁ now₂ : ℚ} {r : RunInput}
    {o : List Relay} (h : w.Orderly) (hk : w.tasks[t]? = some k)
    (hr : RunStep w t k now₁ now₂ r w' o) : w'.Orderly := by
  obtain ⟨hl, hst, k', htasks, hend⟩ := runStep_handle hr
  refine ⟨?_, ?_⟩
  · intro u hu
    obtain ⟨hlu, hgo⟩ := live_of_set hk hl htasks hu
    have hut : u = t :=
      Option.some.inj ((h.handle u hlu).symm.trans (h.handle t ⟨k, hk, hl⟩))
    rw [hend.resolve_right (hgo hut)]
    exact h.handle u hlu
  · intro x hx u hu
    exact h.awaited x (hst ▸ hx) u (live_of_set hk hl htasks hu).1

/-- `stop` finds no running task, or cancels the one that runs and awaits it. -/
theorem stop_cases (w : World) :
    (¬ w.Supervised ∧ w.stop.tasks = w.tasks) ∨
    ∃ t k, w.stream.task = some t ∧ w.tasks[t]? = some k ∧ k.pc ≠ .done ∧
      w.stop = { w.setTask t { k with cancelRequested := true } with
        stoppers := w.stoppers ++ [t] } := by
  have hnot {t : Nat} (ht : w.stream.task = some t) (hl : ¬ w.Live t) : ¬ w.Supervised := by
    rintro ⟨u, hu, hlu⟩
    rw [ht, Option.some.injEq] at hu
    exact hl (hu ▸ hlu)
  unfold stop
  cases ht : w.stream.task with
  | none => exact .inl ⟨by simp [Supervised, ht], rfl⟩
  | some t =>
    cases hk : w.tasks[t]? with
    | none => exact .inl ⟨hnot ht (by simp [Live, hk]), by simp only [hk]⟩
    | some k =>
      by_cases hp : k.pc = .done
      · exact .inl ⟨hnot ht (by simp [Live, hk, hp]), by simp only [hk, if_pos hp]⟩
      · exact .inr ⟨t, k, rfl, hk, hp, by simp only [hk, if_neg hp]⟩

theorem none_of_tasks {w w' : World} (htasks : w'.tasks = w.tasks) (h : ∀ t, ¬ w.Live t) :
    ∀ t, ¬ w'.Live t := by
  rintro t ⟨k, hk, hl⟩
  exact h t ⟨k, htasks ▸ hk, hl⟩

theorem Orderly.stop {w : World} (h : w.Orderly) : w.stop.Orderly := by
  rcases w.stop_cases with ⟨hs, htasks⟩ | ⟨t, k, ht, hk, hl, he⟩
  · exact .of_none (none_of_tasks htasks (h.none_of_unsupervised hs))
  · have hlive {u : Nat} (hu : w.stop.Live u) : w.Live u := by
      rw [he] at hu
      exact (live_of_set hk hl rfl hu).1
    have hst : w.stop.stoppers = w.stoppers ++ [t] := by rw [he]
    have htask : w.stop.stream.task = w.stream.task := by
      rw [he]
      rfl
    refine ⟨?_, ?_⟩
    · intro u hu
      rw [htask]
      exact h.handle u (hlive hu)
    · intro x hx u hu
      rw [hst] at hx
      rcases List.mem_append.mp hx with hx | hx
      · exact h.awaited x hx u (hlive hu)
      · rw [List.mem_singleton.mp hx]
        exact Option.some.inj ((h.handle u (hlive hu)).symm.trans ht)

/-- When the task that `stop` awaited has finished, no other runs. -/
theorem Orderly.none_of_resumed {w w' : World} {t : Nat} {o : List Relay} (h : w.Orderly)
    (hs : w.step (.stopResumed t) = some (w', o)) :
    w'.tasks = w.tasks ∧ ∀ u, ¬ w.Live u := by
  cases step_inv hs with
  | stopResumed ht hd =>
    refine ⟨rfl, fun u hu => ?_⟩
    rw [h.awaited t ht u hu, ← taskDone_eq_false_iff, hd] at hu
    contradiction

theorem Orderly.step {w w' : World} {i : Input} {o : List Relay} (h : w.Orderly)
    (hs : w.step i = some (w', o)) (hu : w.Undisturbed i) : w'.Orderly := by
  cases step_inv hs with
  | subscribe | touch => exact Orderly.ensureRunning (h.congr rfl rfl rfl) hu
  | @waitReady id now =>
    have ht : (w.touch now).Orderly := Orderly.ensureRunning (h.congr rfl rfl rfl) hu
    simp only [waitReady]
    split
    · exact ht
    · exact ht.congr rfl rfl rfl
  | unsubscribe | get | resumed | waitTimeout => exact h.congr rfl rfl rfl
  | stop => exact h.stop
  | stopResumed =>
    obtain ⟨htasks, hnone⟩ := h.none_of_resumed hs
    exact .of_none (none_of_tasks htasks hnone)
  | @run _ _ _ now₂ _ _ _ hk _ _ hr =>
    have hw : ({ w with clock := now₂ } : World).Orderly := h.congr rfl rfl rfl
    exact hw.runStep hk (runStep_inv hr)

theorem Orderly.finished {w w' : World} {i : Input} {o : List Relay} (h : w.Orderly)
    (hs : w.step i = some (w', o)) (hi : w.StopReturns i) : w'.AllFinished ∧ w'.NoGenerator := by
  cases step_inv hs with
  | stop =>
    rcases w.stop_cases with ⟨hn, htasks⟩ | ⟨t, k, ht, hk, hl, -⟩
    · exact allFinished_of_none (none_of_tasks htasks (h.none_of_unsupervised hn))
    · exact absurd ⟨t, ht, k, hk, hl⟩ hi
  | stopResumed =>
    obtain ⟨htasks, hnone⟩ := h.none_of_resumed hs
    exact allFinished_of_none (none_of_tasks htasks hnone)
  | _ => exact hi.elim

theorem fresh_orderly (alwaysOn : Bool) (linger : ℚ) : (fresh alwaysOn linger).Orderly :=
  .of_none (by simp [Live, fresh])

/-- When `stop` returns, every task ever created has finished and no generator is open, in every run
in which no call that may start a supervisor comes between the end of a task and the resumption of
the `stop` that awaits it. -/
theorem finished_when_stop_returns (alwaysOn : Bool) (linger : ℚ) (is : List Input)
    (hu : EveryStep step (fun w _ i _ _ => w.Undisturbed i) (fresh alwaysOn linger) is) :
    EveryStep step (fun w _ i w' _ => w.StopReturns i → w'.AllFinished ∧ w'.NoGenerator)
      (fresh alwaysOn linger) is := by
  refine everyStep_of_invariant (fun w _ => w.Orderly) (fresh_orderly alwaysOn linger) ?_ ?_ hu
  · exact fun w _ i w' o hw hs hc => hw.step hs hc
  · exact fun w _ i w' o hw hs _ hi => hw.finished hs hi

/-- A stream is stopped while its driver delivers. -/
def stopped : List Input :=
  [.subscribe 0 0, .run 0 0 0 .begin, .stop, .run 0 1 1 .cancelled, .run 0 1 1 .closed]

theorem finished_when_stop_returns_stopped :
    EveryStep step (fun w _ i w' _ => w.StopReturns i → w'.AllFinished ∧ w'.NoGenerator)
      (fresh false 1) (stopped ++ [.stopResumed 0]) :=
  finished_when_stop_returns false 1 _ (everyStep_of_checkEvery (by decide +kernel))

theorem touched_end :
    (run step (fresh false 1) (stopped ++ [.touch 1] ++ [.stopResumed 0])).map
      (fun r => (r.1.stream.task, r.1.tasks.map (·.pc))) = some (none, [.done, .created]) := by
  decide +kernel

/-- A `touch` behind the end of the task starts a supervisor that `stop` forgets. -/
theorem not_finished_touched :
    ¬ EveryStep step (fun w _ i w' _ => w.StopReturns i → w'.AllFinished ∧ w'.NoGenerator)
      (fresh false 1) (stopped ++ [.touch 1] ++ [.stopResumed 0]) := by
  intro h
  obtain ⟨⟨w', os⟩, hr, he⟩ := Option.map_eq_some_iff.mp touched_end
  obtain ⟨-, hpcs⟩ := Prod.mk.inj he
  obtain ⟨w, k, o, hfin⟩ := h.last hr
  have hall := (hfin trivial).1
  have hm : RunPc.created ∈ w'.tasks.map (·.pc) := by simp [hpcs]
  obtain ⟨k, hk, hp⟩ := List.mem_map.mp hm
  rw [hall k hk] at hp
  contradiction

end DvrBridge.World
