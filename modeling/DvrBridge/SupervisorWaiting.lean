import DvrBridge.SupervisorServed

/-! Whether a pending `wait_ready` always has a supervisor task: the exact runs in which it does. -/
namespace DvrBridge.World
open Machine

/-- A `wait_ready` call is neither ready nor timed out. -/
def Pending (w : World) : Prop := ∃ x ∈ w.waiters, x.woken = false

/-- `_task` refers to a task that has not finished. -/
def Supervised (w : World) : Prop := ∃ t, w.stream.task = some t ∧ w.Live t

/-- The step ends the supervisor as idle: the test fails at the head of its loop or after a failure,
or the generator that was closed as idle has closed. -/
def LeavesIdle (w : World) : Input → Prop
  | .run _ now₁ _ .begin | .run _ now₁ _ .woken | .run _ now₁ _ .timeout =>
    w.stream.idleExpired now₁ = true
  | .run t _ now₂ .closed => ∃ k, w.tasks[t]? = some k ∧
      (k.pc = .closing .idle ∨ k.pc = .closing .failed ∧ w.stream.idleExpired now₂ = true)
  | _ => False

theorem ensureRunning_supervised (w : World) : w.ensureRunning.Supervised := by
  rcases w.ensureRunning_cases with ⟨t, ht, hl, he⟩ | ⟨-, he⟩
  · rw [he]
    exact ⟨t, ht, hl⟩
  · rw [he]
    exact ⟨w.tasks.length, rfl, (live_createTask w _).mpr (.inr rfl)⟩

theorem touch_supervised (w : World) (now : ℚ) : (w.touch now).Supervised :=
  ensureRunning_supervised _

theorem subscribe_supervised (w : World) (x : Nat) (now : ℚ) :
    (w.subscribe x now).Supervised :=
  touch_supervised _ now

theorem waitReady_supervised (w : World) (id : Nat) (now : ℚ) :
    (w.waitReady id now).Supervised := by
  simp only [waitReady]
  split
  · exact touch_supervised w now
  · exact touch_supervised w now

theorem Supervised.congr {w w' : World} (h : w.Supervised) (htasks : w'.tasks = w.tasks)
    (htask : w'.stream.task = w.stream.task) : w'.Supervised := by
  obtain ⟨t, ht, k, hk, hl⟩ := h
  exact ⟨t, htask.trans ht, k, htasks ▸ hk, hl⟩

/-- The task behind the handle goes on, or finishes. -/
theorem supervised_setTask {w : World} {t : Nat} {k : RunTask} (hk : w.tasks[t]? = some k)
    (ht : w.stream.task = some t) (k' : RunTask) :
    (w.setTask t k').Supervised ↔ k'.pc ≠ .done := by
  have hlen : t < w.tasks.length := (List.getElem?_eq_some_iff.mp hk).1
  have hget : (w.setTask t k').tasks[t]? = some k' := by
    rw [setTask_tasks, if_pos ⟨rfl, hlen⟩]
  constructor
  · rintro ⟨u, hu, m, hm, hl⟩
    have hut : t = u := Option.some.inj (ht.symm.trans hu)
    rw [← hut, hget, Option.some.injEq] at hm
    exact hm ▸ hl
  · intro hl
    exact ⟨t, ht, k', hget, hl⟩

section task
variable {w : World} {t : Nat} {k : RunTask} (hk : w.tasks[t]? = some k)
  (ht : w.stream.task = some t) (k' : RunTask) (now₁ now₂ : ℚ)
include hk ht

theorem leave_unsupervised : ¬ (w.leave t k').Supervised := by
  have h := supervised_setTask (w := { w with stream := { w.stream with ready := false } }) hk ht
    { k' with pc := .done }
  exact fun hs => h.mp hs rfl

theorem loopHead_supervised :
    (w.loopHead t k' now₁ now₂).Supervised ↔ ¬ w.stream.idleExpired now₁ = true := by
  unfold loopHead
  split
  · rename_i hidle
    have hs := Stream.not_subs_of_idleExpired hidle
    simp only [leaveLoop, hs, List.isEmpty_nil, if_true]
    exact iff_of_false (by simp [Supervised]) (not_not.mpr hidle)
  · rename_i hidle
    refine iff_of_true ?_ hidle
    exact Supervised.congr ((supervised_setTask hk ht _).mpr (by simp)) rfl rfl

theorem afterFailure_supervised :
    (w.afterFailure t k' now₁ now₂).Supervised ↔ ¬ w.stream.idleExpired now₂ = true := by
  simp only [afterFailure]
  split
  · rename_i hidle
    exact iff_of_false (leave_unsupervised hk ht _) (not_not.mpr hidle)
  · rename_i hidle
    refine iff_of_true ?_ hidle
    exact (supervised_setTask (w := { w with stream := { w.stream with
        reconnects := w.stream.reconnects + 1
        ready := false, sps := none, pps := none, wake := false } }) hk ht _).mpr (by simp)

theorem frame_supervised (f : VideoFrame) (info : StreamInfo) :
    (w.frame t k' f info now₁ now₂).1.Supervised := by
  have htask := (onFrame_subs_task { w.stream with info := info } f.payload
    (k'.mapper.map f.tsMs now₁).rtp f.keyframe).1
  refine (supervised_setTask (k := k) ?_ ?_ _).mpr ?_
  · rw [wakeWaiters_tasks]
    exact hk
  · rw [wakeWaiters_stream]
    exact htask.trans ht
  · simp only
    split <;> simp

end task

theorem runStep_of_step {w w' : World} {t : Nat} {now₁ now₂ : ℚ} {r : RunInput} {o : List Relay}
    (h : w.step (.run t now₁ now₂ r) = some (w', o)) :
    ∃ k, w.tasks[t]? = some k ∧
      ({ w with clock := now₂ } : World).runStep t k now₁ now₂ r = some (w', o) := by
  cases step_inv h with
  | run hk _ _ hr => exact ⟨_, hk, hr⟩

/-- A step of a supervisor task that runs alone leaves a supervisor unless it ends as idle. -/
theorem Sole.run_supervised {w w' : World} {t : Nat} {now₁ now₂ : ℚ} {r : RunInput}
    {o : List Relay} (h : w.Sole) (hs : w.step (.run t now₁ now₂ r) = some (w', o)) :
    w'.Supervised ↔ ¬ w.LeavesIdle (.run t now₁ now₂ r) := by
  obtain ⟨k, hk, hr⟩ := runStep_of_step hs
  obtain ⟨hu, hnc⟩ := h.uncancelled t k hk
  have hk' : ({ w with clock := now₂ } : World).tasks[t]? = some k := hk
  have ht' (hl : k.pc ≠ .done) : ({ w with clock := now₂ } : World).stream.task = some t :=
    h.handle t ⟨k, hk, hl⟩
  cases r with
  | cancelled =>
    simp only [World.runStep, hu, Bool.false_eq_true, false_and, if_false] at hr
    contradiction
  | begin =>
    simp only [World.runStep, Option.ite_none_right_eq_some, Option.some.injEq, Prod.mk.injEq] at hr
    obtain ⟨⟨hp, -⟩, rfl, -⟩ := hr
    exact loopHead_supervised hk' (ht' (by simp [hp])) k now₁ now₂
  | woken =>
    simp only [World.runStep, Option.ite_none_right_eq_some, Option.some.injEq, Prod.mk.injEq] at hr
    obtain ⟨⟨hp, -⟩, rfl, -⟩ := hr
    exact loopHead_supervised hk' (ht' (by simp [hp])) k.doubleBackoff now₁ now₂
  | timeout =>
    simp only [World.runStep, Option.ite_none_right_eq_some, Option.some.injEq, Prod.mk.injEq] at hr
    obtain ⟨⟨hp, -⟩, rfl, -⟩ := hr
    exact loopHead_supervised hk' (ht' (by simp [hp])) k.doubleBackoff now₁ now₂
  | frame f info =>
    simp only [World.runStep, Option.ite_none_right_eq_some, Option.some.injEq] at hr
    obtain ⟨⟨hp, -⟩, he⟩ := hr
    have hsup := frame_supervised hk' (ht' (by simp [hp])) k now₁ now₂ f info
    rw [he] at hsup
    exact iff_of_true hsup id
  | failed =>
    simp only [World.runStep, Option.ite_none_right_eq_some, Option.some.injEq, Prod.mk.injEq] at hr
    obtain ⟨⟨hp, -⟩, rfl, -⟩ := hr
    refine iff_of_true ?_ id
    exact (supervised_setTask hk' (ht' (by simp [hp])) _).mpr (by simp)
  | closed =>
    have hidle : w.LeavesIdle (.run t now₁ now₂ .closed) ↔
        (k.pc = .closing .idle ∨ k.pc = .closing .failed ∧ w.stream.idleExpired now₂ = true) := by
      simp [LeavesIdle, hk]
    rw [hidle]
    simp only [World.runStep] at hr
    cases hp : k.pc with
    | closing why =>
      simp only [hp, hu, Bool.false_eq_true, if_false, Option.some.injEq, Prod.mk.injEq] at hr
      obtain ⟨rfl, -⟩ := hr
      cases why with
      | idle =>
        exact iff_of_false (leave_unsupervised hk' (ht' (by simp [hp])) k) (by simp)
      | failed =>
        rw [closed, afterFailure_supervised hk' (ht' (by simp [hp])) k now₁ now₂]
        simp
      | cancelled => exact absurd hp hnc
    | _ => simp [hp] at hr

/-- A supervisor task adds no waiter; only a frame can wake those there are. -/
theorem runStep_waiters {w w' : World} {t : Nat} {k : RunTask} {now₁ now₂ : ℚ} {r : RunInput}
    {o : List Relay} (h : RunStep w t k now₁ now₂ r w' o) :
    w'.waiters = w.waiters ∨
      (∃ f info, r = .frame f info) ∧ w'.waiters = w.waiters.map ({ · with woken := true }) := by
  cases h with
  | frame f info =>
    simp only [World.frame, setTask, wakeWaiters]
    split
    · exact .inr ⟨⟨f, info, rfl⟩, rfl⟩
    · exact .inl rfl
  | _ => exact .inl rfl

theorem pending_of_step {w w' : World} {t : Nat} {now₁ now₂ : ℚ} {r : RunInput} {o : List Relay}
    (h : w.step (.run t now₁ now₂ r) = some (w', o)) :
    (w'.Pending → w.Pending) ∧ (w.LeavesIdle (.run t now₁ now₂ r) → w.Pending → w'.Pending) := by
  obtain ⟨k, -, -, -, hr⟩ := step_run h
  rcases runStep_waiters hr with he | ⟨⟨f, info, rfl⟩, he⟩
  · simp only [Pending, he]
    exact ⟨id, fun _ => id⟩
  · refine ⟨?_, fun hl => hl.elim⟩
    rintro ⟨x, hx, hw⟩
    rw [he] at hx
    obtain ⟨y, -, rfl⟩ := List.mem_map.mp hx
    cases hw

theorem Pending.of_filter {w w' : World} {p : Waiter → Bool}
    (h : w'.waiters = w.waiters.filter p) (hp : w'.Pending) : w.Pending := by
  obtain ⟨x, hx, hw⟩ := hp
  rw [h] at hx
  exact ⟨x, List.mem_of_mem_filter hx, hw⟩

/-- Every caller of the subscriber API finds or leaves a supervisor. -/
theorem Sole.supervised_call {w w' : World} {i : Input} {o : List Relay} (h : w.Sole)
    (hs : w.step i = some (w', o)) (hi : i ≠ .stop) (hr : ¬ IsRun i)
    (hw : w.Pending → w.Supervised) : w'.Pending → w'.Supervised := by
  cases step_inv hs with
  | @subscribe x now => exact fun _ => w.subscribe_supervised x now
  | @touch now => exact fun _ => w.touch_supervised now
  | @waitReady id now => exact fun _ => w.waitReady_supervised id now
  | unsubscribe | get => exact fun hp => (hw hp).congr rfl rfl
  | resumed | waitTimeout => exact fun hp => (hw (hp.of_filter rfl)).congr rfl rfl
  | stop => exact absurd rfl hi
  | stopResumed ht => simp [h.stoppers] at ht
  | run => exact absurd trivial hr

theorem Sole.supervised_step {w w' : World} {i : Input} {o : List Relay} (h : w.Sole)
    (hs : w.step i = some (w', o)) (hi : i ≠ .stop) (hw : w.Pending → w.Supervised) :
    (w'.Pending → w'.Supervised) ↔ (w.LeavesIdle i → ¬ w.Pending) := by
  by_cases hr : IsRun i
  · cases i with
    | run t now₁ now₂ r =>
      obtain ⟨hback, hforth⟩ := pending_of_step hs
      rw [h.run_supervised hs]
      constructor
      · exact fun hsup hl hp => hsup (hforth hl hp) hl
      · exact fun hno hp hl => hno hl (hback hp)
    | _ => exact hr.elim
  · refine iff_of_true (h.supervised_call hs hi hr hw) ?_
    cases i with
    | run => exact absurd trivial hr
    | _ => exact fun hl => hl.elim

/-- In a run without `stop`, every state reached has a live supervisor behind the handle as long as
a `wait_ready` call is pending, if and only if no supervisor ends as idle while one is. -/
theorem supervised_iff (alwaysOn : Bool) (linger : ℚ) (is : List Input)
    (hstop : ∀ i ∈ is, i ≠ .stop) :
    EveryStep step (fun _ _ _ w' _ => w'.Pending → w'.Supervised) (fresh alwaysOn linger) is ↔
      EveryStep step (fun w _ i _ _ => w.LeavesIdle i → ¬ w.Pending) (fresh alwaysOn linger) is := by
  have h0 : ¬ (fresh alwaysOn linger).Pending := by simp [Pending, fresh]
  refine everyStep_iff (fun w _ => w.Sole ∧ (w.Pending → w.Supervised))
    ⟨fresh_sole alwaysOn linger, fun h => absurd h h0⟩ ?_ ?_ (everyStep_of_forall_mem hstop)
  · rintro w _ i w' o ⟨hsole, hw⟩ hs hi hc
    exact ⟨(hsole.step hs hi).1, (hsole.supervised_step hs hi hw).mpr hc⟩
  · rintro w _ i w' o ⟨hsole, hw⟩ hs hi
    exact hsole.supervised_step hs hi hw

/-- A DESCRIBE waits longer than `linger` for the first parameter sets. -/
def slowSets : List Input :=
  [.waitReady 0 0, .run 0 0 0 .begin, .run 0 5 5 (.frame { payload := [] } {})] ++
    [.run 0 5 5 .closed]

theorem supervised_iff_slowSets :
    EveryStep step (fun _ _ _ w' _ => w'.Pending → w'.Supervised) (fresh false 1) slowSets ↔
      EveryStep step (fun w _ i _ _ => w.LeavesIdle i → ¬ w.Pending) (fresh false 1) slowSets :=
  supervised_iff false 1 slowSets (by simp [slowSets])

theorem slowSets_end :
    (run step (fresh false 1) slowSets).map
      (fun r => (r.1.waiters, r.1.stream.task, r.1.tasks.map (·.pc))) =
      some ([{ id := 0 }], some 0, [.done]) := by
  decide +kernel

/-- The supervisor leaves it alone. -/
theorem slowSets_unsupervised :
    ¬ EveryStep step (fun _ _ _ w' _ => w'.Pending → w'.Supervised) (fresh false 1) slowSets := by
  intro h
  obtain ⟨⟨w', os⟩, hr, he⟩ := Option.map_eq_some_iff.mp slowSets_end
  simp only [Prod.mk.injEq] at he
  obtain ⟨hwaiters, -, hpcs⟩ := he
  obtain ⟨_, _, _, hsup⟩ := h.last hr
  obtain ⟨t, -, k, hk, hl⟩ := hsup ⟨{ id := 0 }, by simp [hwaiters], rfl⟩
  have hm : k.pc ∈ w'.tasks.map (·.pc) := List.mem_map_of_mem (List.mem_of_getElem? hk)
  rw [hpcs, List.mem_singleton] at hm
  exact hl hm

end DvrBridge.World
