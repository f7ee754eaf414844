import DvrBridge.Supervisor

/-! What one step of the event loop can do, said once: later invariants are case analyses over
`RunStep` and `CallStep`. -/
namespace DvrBridge.World

@[simp] theorem setTask_stream (w : World) (t : Nat) (k : RunTask) :
    (w.setTask t k).stream = w.stream := rfl

theorem setTask_tasks (w : World) (t u : Nat) (k : RunTask) :
    (w.setTask t k).tasks[u]? = if t = u ∧ t < w.tasks.length then some k else w.tasks[u]? := by
  simp only [setTask, List.getElem?_set]
  by_cases h : t = u
  · subst h
    by_cases hl : t < w.tasks.length
    · simp [hl]
    · simp [hl]
  · simp [h]

@[simp] theorem wakeWaiters_stream (w : World) : w.wakeWaiters.stream = w.stream := by
  unfold wakeWaiters
  split <;> rfl

@[simp] theorem wakeWaiters_tasks (w : World) : w.wakeWaiters.tasks = w.tasks := by
  unfold wakeWaiters
  split <;> rfl

@[simp] theorem wakeWaiters_drivers (w : World) : w.wakeWaiters.drivers = w.drivers := by
  unfold wakeWaiters
  split <;> rfl

@[simp] theorem wakeWaiters_stoppers (w : World) : w.wakeWaiters.stoppers = w.stoppers := by
  unfold wakeWaiters
  split <;> rfl

@[simp] theorem wakeWaiters_objects (w : World) : w.wakeWaiters.objects = w.objects := by
  unfold wakeWaiters
  split <;> rfl

@[simp] theorem wakeWaiters_clock (w : World) : w.wakeWaiters.clock = w.clock := by
  unfold wakeWaiters
  split <;> rfl

theorem ensureRunning_eq (w : World) : ∃ tasks task,
    w.ensureRunning = { w with tasks := tasks, stream := { w.stream with task := task } } := by
  unfold ensureRunning
  split
  · split
    · exact ⟨_, _, rfl⟩
    · exact ⟨w.tasks, w.stream.task, rfl⟩
  · exact ⟨_, _, rfl⟩

theorem subscribe_eq (w : World) (x : Nat) (now : ℚ) : ∃ tasks task,
    w.subscribe x now = { w with
      tasks := tasks, objects := x :: w.objects, clock := now
      stream := { w.stream with
        subs := w.stream.subs ++ [{ id := x }], wake := true, lastActivity := now
        task := task } } := by
  obtain ⟨tasks, task, he⟩ := ensureRunning_eq (w := { w with
    objects := x :: w.objects, clock := now
    stream := { w.stream with
      subs := w.stream.subs ++ [{ id := x }], wake := true, lastActivity := now } })
  exact ⟨tasks, task, he⟩

section frame
variable (w : World) (t : Nat) (k : RunTask) (f : VideoFrame) (info : StreamInfo) (now₁ now₂ : ℚ)

@[simp] theorem frame_stream :
    (w.frame t k f info now₁ now₂).1.stream = (w.frameResult k f info now₁).1 := by
  simp [frame]

theorem frame_tasks :
    (w.frame t k f info now₁ now₂).1.tasks = w.tasks.set t { k with
      pc := if (w.frameResult k f info now₁).1.idleExpired now₂ then .closing .idle else .next
      mapper := k.mapper.map f.tsMs now₁
      driver := { k.driver with yielded := k.driver.yielded ++ [f] } } := by
  simp [frame, setTask]

@[simp] theorem frame_stoppers : (w.frame t k f info now₁ now₂).1.stoppers = w.stoppers := by
  simp [frame, setTask]

@[simp] theorem frame_drivers : (w.frame t k f info now₁ now₂).1.drivers = w.drivers := by
  simp [frame, setTask]

theorem frame_relays :
    (w.frame t k f info now₁ now₂).2 =
      ((w.frameResult k f info now₁).2.map fun put => ⟨k.driver.serial, put⟩).toList := rfl

end frame

/-- The task is at the loop condition: at its start or after a backoff. -/
inductive AtHead (w : World) (k : RunTask) : RunInput → RunTask → Prop
  | begin : k.pc = .created → AtHead w k .begin k
  | woken : k.pc = .backoff → w.stream.wake = true → AtHead w k .woken k.doubleBackoff
  | timeout : k.pc = .backoff → AtHead w k .timeout k.doubleBackoff

/-- Everything a step of task `t`, whose state is `k`, can do. -/
inductive RunStep (w : World) (t : Nat) (k : RunTask) (now₁ now₂ : ℚ) :
    RunInput → World → List Relay → Prop
  | cancelCreated : k.cancelRequested = true → k.pc = .created →
      RunStep w t k now₁ now₂ .cancelled
        (w.setTask t { k with cancelRequested := false, pc := .done }) []
  | cancelNext : k.cancelRequested = true → k.pc = .next →
      RunStep w t k now₁ now₂ .cancelled
        (w.setTask t { k with cancelRequested := false, pc := .closing .cancelled }) []
  | cancelAway : k.cancelRequested = true → (k.pc = .backoff ∨ ∃ why, k.pc = .closing why) →
      RunStep w t k now₁ now₂ .cancelled (w.leave t { k with cancelRequested := false }) []
  | leaveLoop {r : RunInput} {k' : RunTask} : AtHead w k r k' → k.cancelRequested = false →
      w.stream.subs = [] →
      RunStep w t k now₁ now₂ r
        (({ w with stream := { w.stream with ready := false, task := none } } : World).setTask t
          { k' with pc := .done }) []
  | connect {r : RunInput} {k' : RunTask} : AtHead w k r k' → k.cancelRequested = false →
      RunStep w t k now₁ now₂ r (w.connect t k' now₂) []
  | frame (f : VideoFrame) (info : StreamInfo) : k.pc = .next → k.cancelRequested = false →
      RunStep w t k now₁ now₂ (.frame f info) (w.frame t k f info now₁ now₂).1
        (w.frame t k f info now₁ now₂).2
  | failed : k.pc = .next → k.cancelRequested = false →
      RunStep w t k now₁ now₂ .failed (w.setTask t { k with pc := .closing .failed }) []
  | leaveIdle : k.pc = .closing .idle → k.cancelRequested = false →
      RunStep w t k now₁ now₂ .closed (w.leave t k) []
  | leaveCancelled : k.pc = .closing .cancelled → k.cancelRequested = false →
      RunStep w t k now₁ now₂ .closed (w.leave t k) []
  | leaveFailed : k.pc = .closing .failed → k.cancelRequested = false → w.stream.subs = [] →
      RunStep w t k now₁ now₂ .closed (w.leave t (k.resetBackoff now₁)) []
  | retry : k.pc = .closing .failed → k.cancelRequested = false →
      RunStep w t k now₁ now₂ .closed
        (({ w with stream := { w.stream with
            reconnects := w.stream.reconnects + 1
            ready := false, sps := none, pps := none, wake := false } } : World).setTask t
          { k.resetBackoff now₁ with pc := .backoff }) []

theorem runStep_loopHead {w : World} {t : Nat} {k k' : RunTask} {now₁ now₂ : ℚ} {r : RunInput}
    (hp : AtHead w k r k') (hc : k.cancelRequested = false) :
    RunStep w t k now₁ now₂ r (w.loopHead t k' now₁ now₂) [] := by
  unfold loopHead
  split
  · rename_i hidle
    have hs := Stream.not_subs_of_idleExpired hidle
    simp only [World.leaveLoop, hs, List.isEmpty_nil, if_true]
    have hstep : RunStep w t k now₁ now₂ r _ [] := .leaveLoop hp hc hs
    simpa only [hs] using hstep
  · exact .connect hp hc

theorem AtHead.pc {w : World} {k k' : RunTask} {r : RunInput} (h : AtHead w k r k') :
    k.pc = .created ∨ k.pc = .backoff := by
  cases h with
  | begin hp => exact Or.inl hp
  | woken hp _ => exact Or.inr hp
  | timeout hp => exact Or.inr hp

theorem AtHead.cancelRequested {w : World} {k k' : RunTask} {r : RunInput}
    (h : AtHead w k r k') : k'.cancelRequested = k.cancelRequested := by
  cases h <;> rfl

theorem AtHead.not_frame {w : World} {k k' : RunTask} {r : RunInput} (h : AtHead w k r k')
    (f : VideoFrame) (info : StreamInfo) : r ≠ .frame f info := by
  cases h <;> nofun

theorem runStep_closed {w : World} {t : Nat} {k : RunTask} {now₁ now₂ : ℚ} {why : Closing}
    (hp : k.pc = .closing why) (hc : k.cancelRequested = false) :
    RunStep w t k now₁ now₂ .closed (w.closed t k why now₁ now₂) [] := by
  cases why with
  | idle => exact .leaveIdle hp hc
  | cancelled => exact .leaveCancelled hp hc
  | failed =>
    simp only [closed, afterFailure]
    split
    · rename_i hidle
      exact .leaveFailed hp hc (Stream.not_subs_of_idleExpired hidle)
    · exact .retry hp hc

theorem runStep_cancelled {w : World} {t : Nat} {k : RunTask} {now₁ now₂ : ℚ}
    (hc : k.cancelRequested = true) (hd : k.pc ≠ .done) :
    RunStep w t k now₁ now₂ .cancelled (w.cancelled t k) [] := by
  unfold cancelled
  cases hp : k.pc with
  | created => exact .cancelCreated hc hp
  | next => exact .cancelNext hc hp
  | closing why => exact .cancelAway hc (Or.inr ⟨why, hp⟩)
  | backoff => exact .cancelAway hc (Or.inl hp)
  | done => exact absurd hp hd

theorem runStep_inv {w w' : World} {t : Nat} {k : RunTask} {now₁ now₂ : ℚ} {r : RunInput}
    {o : List Relay} (h : w.runStep t k now₁ now₂ r = some (w', o)) :
    RunStep w t k now₁ now₂ r w' o := by
  cases r with
  | cancelled =>
    simp only [runStep, Option.ite_none_right_eq_some, Option.some.injEq, Prod.mk.injEq] at h
    obtain ⟨⟨hc, hd⟩, rfl, rfl⟩ := h
    exact runStep_cancelled hc hd
  | begin =>
    simp only [runStep, Option.ite_none_right_eq_some, Option.some.injEq, Prod.mk.injEq] at h
    obtain ⟨⟨hp, hc⟩, rfl, rfl⟩ := h
    exact runStep_loopHead (.begin hp) hc
  | frame f info =>
    simp only [runStep, Option.ite_none_right_eq_some, Option.some.injEq] at h
    obtain ⟨⟨hp, hc⟩, he⟩ := h
    obtain ⟨rfl, rfl⟩ := Prod.mk.inj he
    exact .frame f info hp hc
  | failed =>
    simp only [runStep, Option.ite_none_right_eq_some, Option.some.injEq, Prod.mk.injEq] at h
    obtain ⟨⟨hp, hc⟩, rfl, rfl⟩ := h
    exact .failed hp hc
  | closed =>
    simp only [runStep] at h
    split at h
    · rename_i why hp
      simp only [Option.ite_none_left_eq_some, Option.some.injEq, Prod.mk.injEq,
        Bool.not_eq_true] at h
      obtain ⟨hc, rfl, rfl⟩ := h
      exact runStep_closed hp hc
    · cases h
  | woken =>
    simp only [runStep, Option.ite_none_right_eq_some, Option.some.injEq, Prod.mk.injEq] at h
    obtain ⟨⟨hp, hw, hc⟩, rfl, rfl⟩ := h
    exact runStep_loopHead (.woken hp hw) hc
  | timeout =>
    simp only [runStep, Option.ite_none_right_eq_some, Option.some.injEq, Prod.mk.injEq] at h
    obtain ⟨⟨hp, hc⟩, rfl, rfl⟩ := h
    exact runStep_loopHead (.timeout hp) hc

/-- Everything a step can do, with its guards. -/
inductive Stepped (w : World) : Input → World → List Relay → Prop
  | subscribe {x : Nat} {now : ℚ} : w.clock ≤ now → x ∉ w.objects →
      Stepped w (.subscribe x now) (w.subscribe x now) []
  | unsubscribe {x : Nat} {now : ℚ} : w.clock ≤ now →
      Stepped w (.unsubscribe x now) (w.unsubscribe x now) []
  | touch {now : ℚ} : w.clock ≤ now → Stepped w (.touch now) (w.touch now) []
  | get {x : Nat} : w.stream.subs.any (fun s => s.id = x ∧ s.queue ≠ []) = true →
      Stepped w (.get x) (w.get x) []
  | waitReady {id : Nat} {now : ℚ} : w.clock ≤ now → id ∉ w.waiters.map (·.id) →
      Stepped w (.waitReady id now) (w.waitReady id now) []
  | resumed {id : Nat} : { id := id, woken := true } ∈ w.waiters →
      Stepped w (.resumed id) { w with waiters := w.waiters.filter (·.id ≠ id) } []
  | waitTimeout {id : Nat} : id ∈ w.waiters.map (·.id) →
      Stepped w (.waitTimeout id) { w with waiters := w.waiters.filter (·.id ≠ id) } []
  | stop : Stepped w .stop w.stop []
  | stopResumed {t : Nat} : t ∈ w.stoppers → w.taskDone t = true →
      Stepped w (.stopResumed t)
        { w with stoppers := w.stoppers.erase t, stream := { w.stream with task := none } } []
  | run {t : Nat} {k : RunTask} {now₁ now₂ : ℚ} {r : RunInput} {w' : World} {o : List Relay} :
      w.tasks[t]? = some k → w.clock ≤ now₁ → now₁ ≤ now₂ →
      ({ w with clock := now₂ } : World).runStep t k now₁ now₂ r = some (w', o) →
      Stepped w (.run t now₁ now₂ r) w' o

theorem step_inv {w w' : World} {i : Input} {o : List Relay} (h : w.step i = some (w', o)) :
    Stepped w i w' o := by
  cases i with
  | run t now₁ now₂ r =>
    simp only [step] at h
    split at h
    · rename_i k hk
      rw [Option.ite_none_right_eq_some] at h
      exact .run hk h.1.1 h.1.2 h.2
    · cases h
  | stop =>
    obtain ⟨rfl, rfl⟩ := Prod.mk.inj (Option.some.inj h)
    exact .stop
  | subscribe | waitReady | stopResumed =>
    obtain ⟨hg, h⟩ := Option.ite_none_right_eq_some.mp h
    obtain ⟨rfl, rfl⟩ := Prod.mk.inj (Option.some.inj h)
    constructor
    · exact hg.1
    · exact hg.2
  | unsubscribe | touch | get | resumed | waitTimeout =>
    obtain ⟨hg, h⟩ := Option.ite_none_right_eq_some.mp h
    obtain ⟨rfl, rfl⟩ := Prod.mk.inj (Option.some.inj h)
    constructor
    exact hg

/-- A step of a supervisor task, with its guards. -/
theorem step_run {w w' : World} {t : Nat} {now₁ now₂ : ℚ} {r : RunInput} {o : List Relay}
    (h : w.step (.run t now₁ now₂ r) = some (w', o)) :
    ∃ k, w.tasks[t]? = some k ∧ w.clock ≤ now₁ ∧ now₁ ≤ now₂ ∧
      RunStep { w with clock := now₂ } t k now₁ now₂ r w' o := by
  cases step_inv h with
  | run hk h₁ h₂ hr => exact ⟨_, hk, h₁, h₂, runStep_inv hr⟩

/-- Every subscriber of `s'` that takes what comes did so in `s`. -/
def NoGateOpened (s s' : Stream) : Prop :=
  ∀ sub' ∈ s'.subs, sub'.waitingKey = false →
    ∃ sub ∈ s.subs, sub.id = sub'.id ∧ sub.waitingKey = false

theorem noGateOpened_of_subs {s s' : Stream} (h : s'.subs = s.subs) : NoGateOpened s s' := by
  intro sub' hm hw
  exact ⟨sub', h ▸ hm, rfl, hw⟩

/-- A task other than the one a step is about is kept. -/
theorem mem_set_of_mem {tasks : List RunTask} {t : Nat} {k m : RunTask}
    (hk : tasks[t]? = some k) (hm : m ∈ tasks) : m = k ∨ ∀ k', m ∈ tasks.set t k' := by
  obtain ⟨u, hu⟩ := List.mem_iff_getElem?.mp hm
  by_cases htu : t = u
  · subst htu
    exact Or.inl (Option.some.inj (hu.symm.trans hk))
  · refine Or.inr fun k' => List.mem_iff_getElem?.mpr ⟨u, ?_⟩
    rw [List.getElem?_set_ne htu, hu]

/-- What a caller's step leaves alone: no driver is made, the parameter sets stay, no gate opens,
and a task is as it was, or was asked to cancel, or is new. -/
structure CallStep (w w' : World) : Prop where
  tasks : ∀ (u : Nat) (k' : RunTask), w'.tasks[u]? = some k' →
    (∃ k, w.tasks[u]? = some k ∧ (k' = k ∨ k' = { k with cancelRequested := true })) ∨ k' = {}
  kept : ∀ k ∈ w.tasks, k ∈ w'.tasks ∨ { k with cancelRequested := true } ∈ w'.tasks
  drivers : w'.drivers = w.drivers
  sets : w'.stream.sps = w.stream.sps ∧ w'.stream.pps = w.stream.pps
  ready : w'.stream.ready = w.stream.ready
  gates : NoGateOpened w.stream w'.stream

theorem CallStep.of_tasks {w w' : World} (ht : w'.tasks = w.tasks) (hd : w'.drivers = w.drivers)
    (hs : w'.stream.sps = w.stream.sps ∧ w'.stream.pps = w.stream.pps)
    (hr : w'.stream.ready = w.stream.ready) (hg : NoGateOpened w.stream w'.stream) :
    CallStep w w' :=
  ⟨fun _ k' hk => Or.inl ⟨k', ht ▸ hk, Or.inl rfl⟩, fun _ hk => Or.inl (ht ▸ hk), hd, hs, hr, hg⟩

/-- A caller's step that changes neither tasks nor parameter sets nor subscribers. -/
theorem CallStep.of_quiet {w w' : World} (ht : w'.tasks = w.tasks) (hd : w'.drivers = w.drivers)
    (hs : w'.stream.sps = w.stream.sps ∧ w'.stream.pps = w.stream.pps)
    (hr : w'.stream.ready = w.stream.ready) (hsubs : w'.stream.subs = w.stream.subs) :
    CallStep w w' :=
  .of_tasks ht hd hs hr (noGateOpened_of_subs hsubs)

theorem callStep_ensureRunning {w w' : World} (h : CallStep w w') :
    CallStep w w'.ensureRunning := by
  have hcreate : CallStep w w'.createTask := by
    refine ⟨?_, ?_, h.drivers, h.sets, h.ready, h.gates⟩
    · intro u k' hk
      simp only [createTask, List.getElem?_append] at hk
      split at hk
      · exact h.tasks u k' hk
      · exact Or.inr (List.mem_singleton.mp (List.mem_of_getElem? hk))
    · intro k hk
      exact (h.kept k hk).imp (List.mem_append_left _) (List.mem_append_left _)
  unfold ensureRunning
  split
  · split
    · exact hcreate
    · exact h
  · exact hcreate

theorem callStep_touch (w : World) (now : ℚ) : CallStep w (w.touch now) :=
  callStep_ensureRunning (.of_quiet rfl rfl ⟨rfl, rfl⟩ rfl rfl)

theorem callStep_subscribe (w : World) (x : Nat) (now : ℚ) : CallStep w (w.subscribe x now) := by
  refine callStep_ensureRunning (.of_tasks rfl rfl ⟨rfl, rfl⟩ rfl ?_)
  intro sub' hm hw
  simp only [List.mem_append, List.mem_singleton] at hm
  rcases hm with hm | rfl
  · exact ⟨sub', hm, rfl, hw⟩
  · cases hw

theorem callStep_unsubscribe (w : World) (x : Nat) (now : ℚ) :
    CallStep w (w.unsubscribe x now) :=
  .of_tasks rfl rfl ⟨rfl, rfl⟩ rfl
    fun sub' hm hw => ⟨sub', List.mem_of_mem_filter hm, rfl, hw⟩

theorem callStep_get (w : World) (x : Nat) : CallStep w (w.get x) := by
  refine .of_tasks rfl rfl ⟨rfl, rfl⟩ rfl ?_
  intro sub' hm hw
  obtain ⟨sub, hs, rfl⟩ := List.mem_map.mp hm
  refine ⟨sub, hs, ?_, ?_⟩
  · split <;> rfl
  · revert hw
    split <;> exact id

theorem callStep_waitReady (w : World) (id : Nat) (now : ℚ) :
    CallStep w (w.waitReady id now) := by
  have ht := callStep_touch w now
  simp only [waitReady]
  split
  · exact ht
  · exact ⟨ht.tasks, ht.kept, ht.drivers, ht.sets, ht.ready, ht.gates⟩

theorem callStep_stop (w : World) : CallStep w w.stop := by
  unfold stop
  split
  · exact .of_quiet rfl rfl ⟨rfl, rfl⟩ rfl rfl
  · rename_i t _
    split
    · exact .of_quiet rfl rfl ⟨rfl, rfl⟩ rfl rfl
    · rename_i k hk
      split
      · exact .of_quiet rfl rfl ⟨rfl, rfl⟩ rfl rfl
      · refine ⟨?_, ?_, rfl, ⟨rfl, rfl⟩, rfl, noGateOpened_of_subs rfl⟩
        · intro u k' hu
          change (w.setTask t _).tasks[u]? = some k' at hu
          rw [setTask_tasks] at hu
          split at hu
          · rename_i htu
            rw [Option.some.injEq] at hu
            exact Or.inl ⟨k, htu.1 ▸ hk, Or.inr hu.symm⟩
          · exact Or.inl ⟨k', hu, Or.inl rfl⟩
        · intro m hm
          rcases mem_set_of_mem hk hm with rfl | hm
          · exact Or.inr (List.mem_set (List.getElem?_eq_some_iff.mp hk).1 _)
          · exact Or.inl (hm _)

def IsRun : Input → Prop
  | .run _ _ _ _ => True
  | _ => False

/-- A step is one of a supervisor task or one of a caller. -/
theorem step_cases {w w' : World} {i : Input} {o : List Relay} (h : w.step i = some (w', o)) :
    (∃ t now₁ now₂ r k, i = .run t now₁ now₂ r ∧ w.tasks[t]? = some k ∧ w.clock ≤ now₁ ∧
      now₁ ≤ now₂ ∧ RunStep { w with clock := now₂ } t k now₁ now₂ r w' o) ∨
    (¬ IsRun i ∧ o = [] ∧ CallStep w w') := by
  cases step_inv h with
  | @run t k now₁ now₂ r _ _ hk h₁ h₂ hr =>
    exact Or.inl ⟨t, now₁, now₂, r, k, rfl, hk, h₁, h₂, runStep_inv hr⟩
  | @subscribe x now => exact Or.inr ⟨not_false, rfl, callStep_subscribe w x now⟩
  | @unsubscribe x now => exact Or.inr ⟨not_false, rfl, callStep_unsubscribe w x now⟩
  | @touch now => exact Or.inr ⟨not_false, rfl, callStep_touch w now⟩
  | @get x => exact Or.inr ⟨not_false, rfl, callStep_get w x⟩
  | @waitReady id now => exact Or.inr ⟨not_false, rfl, callStep_waitReady w id now⟩
  | resumed | waitTimeout | stopResumed =>
    exact Or.inr ⟨not_false, rfl, .of_quiet rfl rfl ⟨rfl, rfl⟩ rfl rfl⟩
  | stop => exact Or.inr ⟨not_false, rfl, callStep_stop w⟩

/-- The generator of the task's driver instance is open. -/
def Connected (k : RunTask) : Prop := k.pc = .next ∨ ∃ why, k.pc = .closing why

/-- What a run step makes of its task, as far as the driver is concerned; `d` counts the drivers
made so far. -/
inductive TaskStep (w : World) (k k' : RunTask) (now₁ : ℚ) (d : Nat) : RunInput → Prop
  | away {r : RunInput} : ¬ Connected k' → (∀ f info, r ≠ .frame f info) → d = w.drivers →
      TaskStep w k k' now₁ d r
  | closing {r : RunInput} : k.pc = .next → k'.pc ≠ .next → k'.driver = k.driver →
      k'.mapper = k.mapper → (∀ f info, r ≠ .frame f info) → d = w.drivers →
      TaskStep w k k' now₁ d r
  | connect {r : RunInput} : k'.driver = { serial := w.drivers } → k'.mapper = {} →
      (∀ f info, r ≠ .frame f info) → d = w.drivers + 1 → TaskStep w k k' now₁ d r
  | frame (f : VideoFrame) (info : StreamInfo) : k.pc = .next →
      k'.driver = { k.driver with yielded := k.driver.yielded ++ [f] } →
      k'.mapper = k.mapper.map f.tsMs now₁ → d = w.drivers →
      TaskStep w k k' now₁ d (.frame f info)

theorem runStep_task {w w' : World} {t : Nat} {k : RunTask} {now₁ now₂ : ℚ} {r : RunInput}
    {o : List Relay} (h : RunStep w t k now₁ now₂ r w' o) :
    ∃ k', w'.tasks = w.tasks.set t k' ∧ TaskStep w k k' now₁ w'.drivers r := by
  cases h with
  | cancelCreated | cancelAway | leaveIdle | leaveCancelled | leaveFailed | retry =>
    exact ⟨_, rfl, .away (by simp [Connected]) (by simp) rfl⟩
  | cancelNext _ hp => exact ⟨_, rfl, .closing hp (by simp) rfl rfl (by simp) rfl⟩
  | failed hp => exact ⟨_, rfl, .closing hp (by simp) rfl rfl (by simp) rfl⟩
  | leaveLoop hp => exact ⟨_, rfl, .away (by simp [Connected]) hp.not_frame rfl⟩
  | connect hp => exact ⟨_, rfl, .connect rfl rfl hp.not_frame rfl⟩
  | frame f info hp =>
    exact ⟨_, w.frame_tasks t k f info now₁ now₂, .frame f info hp rfl rfl (by simp)⟩

/-- What task `k` becomes by a frame. -/
def IsFrameOf (u : Nat) (k k' : RunTask) (i : Input) : Prop :=
  ∃ f info now₁ now₂, i = .run u now₁ now₂ (.frame f info) ∧ k.pc = .next ∧
    k'.driver = { k.driver with yielded := k.driver.yielded ++ [f] } ∧
    k'.mapper = k.mapper.map f.tsMs now₁

/-- Where a connected task comes from: it was connected before and has the same driver and
timeline, or it has just connected, or it has just had a frame. -/
theorem connected_step {w w' : World} {i : Input} {o : List Relay} (h : w.step i = some (w', o))
    {u : Nat} {k' : RunTask} (hk' : w'.tasks[u]? = some k') (hc : Connected k') :
    (∃ k, w.tasks[u]? = some k ∧ Connected k ∧ (k'.pc = .next → k.pc = .next) ∧
      k'.driver = k.driver ∧ k'.mapper = k.mapper ∧
      ∀ now₁ now₂ f info, i ≠ .run u now₁ now₂ (.frame f info)) ∨
    (k'.driver = { serial := w.drivers } ∧ k'.mapper = {} ∧ w'.drivers = w.drivers + 1 ∧
      ∃ now₁ now₂ r, i = .run u now₁ now₂ r ∧ ∀ f info, r ≠ .frame f info) ∨
    (∃ k, w.tasks[u]? = some k ∧ IsFrameOf u k k' i) := by
  rcases step_cases h with ⟨t, now₁, now₂, r, k, rfl, hk, -, -, hr⟩ | ⟨hi, -, hcall⟩
  · obtain ⟨k₁, htasks, hstep⟩ := runStep_task hr
    rw [htasks, List.getElem?_set] at hk'
    by_cases htu : t = u
    · subst htu
      rw [if_pos rfl] at hk'
      split at hk'
      · rw [Option.some.injEq] at hk'
        subst hk'
        cases hstep with
        | away hn => exact absurd hc hn
        | closing hp hn hd hm hf =>
          refine Or.inl ⟨k, hk, Or.inl hp, fun hn' => absurd hn' hn, hd, hm, ?_⟩
          rintro _ _ f info ⟨⟩
          exact hf f info rfl
        | connect hd hm hf hdr =>
          exact Or.inr (Or.inl ⟨hd, hm, hdr, now₁, now₂, r, rfl, hf⟩)
        | frame f info hp hd hm =>
          exact Or.inr (Or.inr ⟨k, hk, f, info, now₁, now₂, rfl, hp, hd, hm⟩)
      · cases hk'
    · rw [if_neg htu] at hk'
      refine Or.inl ⟨k', hk', hc, id, rfl, rfl, ?_⟩
      rintro _ _ f info ⟨⟩
      exact htu rfl
  · rcases hcall.tasks u k' hk' with ⟨k, hk, rfl | rfl⟩ | rfl
    · exact Or.inl ⟨k', hk, hc, id, rfl, rfl, fun _ _ _ _ e => hi (e ▸ trivial)⟩
    · exact Or.inl ⟨k, hk, hc, id, rfl, rfl, fun _ _ _ _ e => hi (e ▸ trivial)⟩
    · simp [Connected] at hc

theorem drivers_le {w w' : World} {i : Input} {o : List Relay} (h : w.step i = some (w', o)) :
    w.drivers ≤ w'.drivers := by
  rcases step_cases h with ⟨t, now₁, now₂, r, k, rfl, -, -, -, hr⟩ | ⟨-, -, hcall⟩
  · obtain ⟨k', -, hstep⟩ := runStep_task hr
    cases hstep with
    | away _ _ hd | closing _ _ _ _ _ hd | frame _ _ _ _ _ hd => exact hd.ge
    | connect _ _ _ hd =>
      rw [hd]
      exact Nat.le_succ _
  · exact hcall.drivers.ge

/-- A step relays nothing, or it is a frame with a NAL and relays one item. -/
theorem step_relays {w w' : World} {i : Input} {o : List Relay} (h : w.step i = some (w', o)) :
    (o = [] ∧ ∀ t now₁ now₂ f info, i = .run t now₁ now₂ (.frame f info) →
      frameNals f.payload = []) ∨
    ∃ t now₁ now₂ f info k put, i = .run t now₁ now₂ (.frame f info) ∧
      w.tasks[t]? = some k ∧ k.pc = .next ∧ frameNals f.payload ≠ [] ∧
      w'.stream = (w.frameResult k f info now₁).1 ∧
      (w.frameResult k f info now₁).2 = some put ∧ o = [⟨k.driver.serial, put⟩] := by
  rcases step_cases h with ⟨t, now₁, now₂, r, k, rfl, hk, -, -, hr⟩ | ⟨hi, ho, -⟩
  · have hne (hr : ∀ f info, r ≠ .frame f info) : ∀ t' a b f info,
        Input.run t now₁ now₂ r = .run t' a b (.frame f info) → frameNals f.payload = [] := by
      rintro _ _ _ f info ⟨⟩
      exact absurd rfl (hr f info)
    cases hr with
    | frame f info hp hc =>
      by_cases hn : frameNals f.payload = []
      · refine Or.inl ⟨?_, ?_⟩
        · simp [frame_relays, frameResult, Stream.onFrame_skipped _ _ _ _ hn]
        · rintro _ _ _ _ _ ⟨⟩
          exact hn
      · obtain ⟨item, -, -, -, he⟩ := Stream.onFrame_relayed { w.stream with info := info }
          f.payload (k.mapper.map f.tsMs now₁).rtp f.keyframe hn
        refine Or.inr ⟨t, now₁, now₂, f, info, k, _, rfl, hk, hp, hn, ?_,
          congrArg Prod.snd he, ?_⟩
        · exact frame_stream ..
        · rw [frame_relays]
          exact congrArg (fun q => (Option.map _ (Prod.snd q)).toList) he
    | leaveLoop hh | connect hh => exact Or.inl ⟨rfl, hne hh.not_frame⟩
    | _ => exact Or.inl ⟨rfl, hne (by simp)⟩
  · exact Or.inl ⟨ho, fun _ _ _ _ _ e => absurd (e ▸ trivial) hi⟩

/-- Driver instances are numbered as they are made, and each belongs to one task. -/
structure Serials (w : World) (h : List Relay) : Prop where
  lt : ∀ (t : Nat) (k : RunTask), w.tasks[t]? = some k → Connected k →
    k.driver.serial < w.drivers
  inj : ∀ (t u : Nat) (k m : RunTask), w.tasks[t]? = some k → w.tasks[u]? = some m →
    Connected k → Connected m → k.driver.serial = m.driver.serial → t = u
  conn_lt : ∀ r ∈ h, r.conn < w.drivers

theorem serials_fresh (alwaysOn : Bool) (linger : ℚ) : Serials (fresh alwaysOn linger) [] :=
  ⟨by simp [fresh], by simp [fresh], by simp⟩

/-- A connected task has the driver it had, or the one this step has made. -/
theorem serial_step {w w' : World} {i : Input} {o : List Relay} (h : w.step i = some (w', o))
    {u : Nat} {k' : RunTask} (hk' : w'.tasks[u]? = some k') (hc : Connected k') :
    (∃ k, w.tasks[u]? = some k ∧ Connected k ∧ k'.driver.serial = k.driver.serial) ∨
    (k'.driver.serial = w.drivers ∧ w'.drivers = w.drivers + 1 ∧
      ∃ now₁ now₂ r, i = .run u now₁ now₂ r) := by
  rcases connected_step h hk' hc with ⟨k, hk, hck, -, hd, -⟩ |
    ⟨hd, -, hdr, now₁, now₂, r, hi, -⟩ | ⟨k, hk, f, info, now₁, now₂, -, hp, hd, -⟩
  · exact Or.inl ⟨k, hk, hck, by rw [hd]⟩
  · exact Or.inr ⟨by rw [hd], hdr, now₁, now₂, r, hi⟩
  · exact Or.inl ⟨k, hk, Or.inl hp, by rw [hd]⟩

theorem Serials.step {w w' : World} {i : Input} {h o : List Relay} (hs : Serials w h)
    (hstep : w.step i = some (w', o)) : Serials w' (h ++ o) := by
  have hle := drivers_le hstep
  refine ⟨?_, ?_, ?_⟩
  · intro t k' hk' hc
    rcases serial_step hstep hk' hc with ⟨k, hk, hck, he⟩ | ⟨he, hdr, -⟩
    · exact he ▸ (hs.lt t k hk hck).trans_le hle
    · omega
  · intro t u k' m' hk' hm' hck hcm he
    rcases serial_step hstep hk' hck with ⟨k, hk, hck', hek⟩ | ⟨hek, -, _, _, _, hi⟩ <;>
      rcases serial_step hstep hm' hcm with ⟨m, hm, hcm', hem⟩ | ⟨hem, -, _, _, _, hj⟩
    · exact hs.inj t u k m hk hm hck' hcm' (by omega)
    · have := hs.lt t k hk hck'
      omega
    · have := hs.lt u m hm hcm'
      omega
    · rw [hi] at hj
      cases hj
      rfl
  · intro r hr
    rcases List.mem_append.mp hr with hr | hr
    · exact (hs.conn_lt r hr).trans_le hle
    · rcases step_relays hstep with ⟨ho, -⟩ |
        ⟨t, now₁, now₂, f, info, k, put, -, hk, hp, -, -, -, ho⟩
      · simp [ho] at hr
      · rw [ho, List.mem_singleton] at hr
        subst hr
        exact (hs.lt t k hk (Or.inl hp)).trans_le hle

end DvrBridge.World
