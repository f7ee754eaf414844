import DvrBridge.SupervisorSteps

/-! Whether a subscriber always has a supervisor task: the exact runs in which it does. -/
namespace DvrBridge.World
open Machine

def Live (w : World) (t : Nat) : Prop := ∃ k, w.tasks[t]? = some k ∧ k.pc ≠ .done

/-- With a subscriber, `_task` refers to a task that has not finished. -/
def Served (w : World) : Prop :=
  w.stream.subs ≠ [] → ∃ t, w.stream.task = some t ∧ w.Live t

/-- Nothing but the task behind the handle runs, and nobody has called `stop`. -/
structure Sole (w : World) : Prop where
  handle : ∀ t, w.Live t → w.stream.task = some t
  uncancelled : ∀ (t : Nat) (k : RunTask), w.tasks[t]? = some k →
    k.cancelRequested = false ∧ k.pc ≠ .closing .cancelled
  stoppers : w.stoppers = []

/-- At most one driver generator is open. -/
def OneOpen (w : World) : Prop :=
  ∀ (t u : Nat) (k m : RunTask), w.tasks[t]? = some k → w.tasks[u]? = some m →
    Connected k → Connected m → t = u

theorem Connected.not_done {k : RunTask} (h : Connected k) : k.pc ≠ .done := by
  rcases h with hp | ⟨why, hp⟩ <;> simp [hp]

theorem Sole.eq_of_live {w : World} (h : w.Sole) {t u : Nat} (ht : w.Live t) (hu : w.Live u) :
    t = u :=
  Option.some.inj ((h.handle t ht).symm.trans (h.handle u hu))

theorem Sole.oneOpen {w : World} (h : w.Sole) : w.OneOpen :=
  fun _ _ k m hk hm hck hcm => h.eq_of_live ⟨k, hk, hck.not_done⟩ ⟨m, hm, hcm.not_done⟩

/-- The generator of an idle stream has closed: nobody has subscribed in the meantime. -/
def AbandonsNobody (w : World) : Input → Prop
  | .run t _ _ .closed =>
    ∀ k, w.tasks[t]? = some k → k.pc = .closing .idle → w.stream.subs = []
  | _ => True

theorem taskDone_eq_false_iff (w : World) (t : Nat) : w.taskDone t = false ↔ w.Live t := by
  unfold taskDone Live
  split <;> simp_all

theorem live_createTask (w : World) (t : Nat) :
    w.createTask.Live t ↔ w.Live t ∨ t = w.tasks.length := by
  simp only [createTask, Live, List.getElem?_append]
  split
  · rename_i hlt
    simp [Nat.ne_of_lt hlt]
  · rename_i hge
    by_cases he : t = w.tasks.length
    · simp [he]
    · have hsub : t - w.tasks.length ≠ 0 := by omega
      obtain ⟨m, hm⟩ := Nat.exists_eq_succ_of_ne_zero hsub
      simp [hm, he, List.getElem?_eq_none (Nat.le_of_not_lt hge)]

theorem ensureRunning_cases (w : World) :
    (∃ t, w.stream.task = some t ∧ w.Live t ∧ w.ensureRunning = w) ∨
    ((∀ t, w.stream.task = some t → ¬ w.Live t) ∧ w.ensureRunning = w.createTask) := by
  unfold ensureRunning
  cases ht : w.stream.task with
  | none => exact Or.inr ⟨by simp, rfl⟩
  | some t =>
    cases hd : w.taskDone t with
    | false => exact Or.inl ⟨t, rfl, (w.taskDone_eq_false_iff t).mp hd, by simp [hd]⟩
    | true =>
      refine Or.inr ⟨?_, by simp [hd]⟩
      rintro u ⟨⟩ hl
      rw [(w.taskDone_eq_false_iff t).mpr hl] at hd
      contradiction

theorem Sole.congr {w w' : World} (h : w.Sole) (htasks : w'.tasks = w.tasks)
    (htask : w'.stream.task = w.stream.task) (hst : w'.stoppers = w.stoppers) : w'.Sole := by
  refine ⟨?_, ?_, hst.trans h.stoppers⟩
  · rintro t ⟨k, hk, hl⟩
    rw [htask]
    exact h.handle t ⟨k, htasks ▸ hk, hl⟩
  · intro t k hk
    exact h.uncancelled t k (htasks ▸ hk)

/-- `_ensure_running` leaves a live task behind the handle and no other. -/
theorem Sole.ensureRunning {w : World} (h : w.Sole) :
    w.ensureRunning.Sole ∧ w.ensureRunning.Served := by
  rcases w.ensureRunning_cases with ⟨t, ht, hl, he⟩ | ⟨hn, he⟩
  · rw [he]
    exact ⟨h, fun _ => ⟨t, ht, hl⟩⟩
  · have hnone : ∀ t, ¬ w.Live t := fun t hl => hn t (h.handle t hl) hl
    have hnew : w.createTask.stream.task = some w.tasks.length := rfl
    rw [he]
    refine ⟨⟨?_, ?_, h.stoppers⟩, fun _ => ⟨_, hnew, ?_⟩⟩
    · intro t hl
      rcases (live_createTask w t).mp hl with hl | hl
      · exact absurd hl (hnone t)
      · rw [hnew, hl]
    · intro t k hk
      simp only [createTask, List.getElem?_append] at hk
      split at hk
      · exact h.uncancelled t k hk
      · have hm := List.mem_of_getElem? hk
        rw [List.mem_singleton] at hm
        subst hm
        exact ⟨rfl, by simp⟩
    · exact (live_createTask w _).mpr (Or.inr rfl)

/-- A step of the live task that keeps the handle; the stream stays served if the task lives on or
nobody is subscribed. -/
theorem Sole.advance {w w' : World} {t : Nat} {k k' : RunTask} {P : Prop} (h : w.Sole)
    (hk : w.tasks[t]? = some k) (hl : k.pc ≠ .done)
    (htasks : w'.tasks = w.tasks.set t k') (htask : w'.stream.task = w.stream.task)
    (hst : w'.stoppers = w.stoppers)
    (hc : k'.cancelRequested = false ∧ k'.pc ≠ .closing .cancelled)
    (hP : P → k'.pc ≠ .done ∨ w'.stream.subs = []) : w'.Sole ∧ (P → w'.Served) := by
  have hlen : t < w.tasks.length := (List.getElem?_eq_some_iff.mp hk).1
  have hget (u : Nat) : w'.tasks[u]? = if t = u then some k' else w.tasks[u]? := by
    rw [htasks, List.getElem?_set]
    simp [hlen]
  have hwt : w.stream.task = some t := h.handle t ⟨k, hk, hl⟩
  refine ⟨⟨?_, ?_, hst.trans h.stoppers⟩, ?_⟩
  · rintro u ⟨m, hm, hml⟩
    rw [htask]
    by_cases hu : t = u
    · exact hu ▸ hwt
    · rw [hget, if_neg hu] at hm
      exact h.handle u ⟨m, hm, hml⟩
  · intro u m hm
    rw [hget] at hm
    split at hm
    · rw [Option.some.injEq] at hm
      exact hm ▸ hc
    · exact h.uncancelled u m hm
  · intro hp hs
    rcases hP hp with hpc | hpc
    · exact ⟨t, htask.trans hwt, k', by simp [hget], hpc⟩
    · exact absurd hpc hs

/-- The end of the loop of an idle stream. -/
theorem Sole.finish {w : World} {t : Nat} {k k' : RunTask} (h : w.Sole)
    (hk : w.tasks[t]? = some k) (hl : k.pc ≠ .done) (hc : k'.cancelRequested = false) :
    (({ w with stream := { w.stream with ready := false, task := none } } : World).setTask t
      { k' with pc := .done }).Sole := by
  have hwt : w.stream.task = some t := h.handle t ⟨k, hk, hl⟩
  have hlen : t < w.tasks.length := (List.getElem?_eq_some_iff.mp hk).1
  refine ⟨?_, ?_, h.stoppers⟩
  · rintro u ⟨m, hm, hml⟩
    rw [setTask_tasks] at hm
    split at hm
    · rw [Option.some.injEq] at hm
      subst hm
      exact absurd rfl hml
    · rename_i hu
      have hu' := h.handle u ⟨m, hm, hml⟩
      rw [hwt, Option.some.injEq] at hu'
      exact absurd ⟨hu', hlen⟩ hu
  · intro u m hm
    rw [setTask_tasks] at hm
    split at hm
    · rw [Option.some.injEq] at hm
      subst hm
      exact ⟨hc, by simp⟩
    · exact h.uncancelled u m hm

theorem onFrame_subs_task (s : Stream) (payload : Bytes) (ts90k : Nat) (keyframe : Bool) :
    (s.onFrame payload ts90k keyframe).1.task = s.task ∧
      (s.onFrame payload ts90k keyframe).1.subs.isEmpty = s.subs.isEmpty := by
  by_cases hn : frameNals payload = []
  · rw [Stream.onFrame_skipped s payload ts90k keyframe hn]
    exact ⟨rfl, rfl⟩
  · obtain ⟨item, -, -, -, he⟩ := Stream.onFrame_relayed s payload ts90k keyframe hn
    rw [he]
    exact ⟨rfl, by simp⟩

/-- A run step keeps the task alone; it leaves nobody unserved except at the end of an idle
teardown. -/
theorem Sole.runStep {w w' : World} {t : Nat} {k : RunTask} {now₁ now₂ : ℚ} {r : RunInput}
    {o : List Relay} (h : w.Sole) (hk : w.tasks[t]? = some k)
    (hr : RunStep w t k now₁ now₂ r w' o) :
    w'.Sole ∧ ((r = .closed → k.pc = .closing .idle → w.stream.subs = []) → w'.Served) := by
  obtain ⟨hu, hnc⟩ := h.uncancelled t k hk
  cases hr with
  | cancelCreated hcr | cancelNext hcr | cancelAway hcr =>
    rw [hu] at hcr
    contradiction
  | leaveLoop hh _ hs =>
    have hl : k.pc ≠ .done := by rcases hh.pc with hp | hp <;> simp [hp]
    exact ⟨h.finish hk hl (hh.cancelRequested.trans hu), fun _ hn => absurd hs hn⟩
  | connect hh =>
    have hl : k.pc ≠ .done := by rcases hh.pc with hp | hp <;> simp [hp]
    exact h.advance hk hl rfl rfl rfl ⟨hh.cancelRequested.trans hu, by simp⟩
      fun _ => Or.inl (by simp)
  | frame f info hp =>
    have htask := (onFrame_subs_task { w.stream with info := info } f.payload
      (k.mapper.map f.tsMs now₁).rtp f.keyframe).1
    exact h.advance hk (by simp [hp]) (w.frame_tasks t k f info now₁ now₂)
      (by rw [frame_stream]; exact htask) (by simp) ⟨hu, by simp only; split <;> simp⟩
      fun _ => Or.inl (by simp only; split <;> simp)
  | failed hp =>
    exact h.advance hk (by simp [hp]) rfl rfl rfl ⟨hu, by simp⟩ fun _ => Or.inl (by simp)
  | leaveIdle hp =>
    exact h.advance hk (by simp [hp]) rfl rfl rfl ⟨hu, by simp⟩ fun hc => Or.inr (hc rfl hp)
  | leaveCancelled hp => exact absurd hp hnc
  | leaveFailed hp _ hs =>
    exact h.advance hk (by simp [hp]) rfl rfl rfl ⟨hu, by simp⟩ fun _ => Or.inr hs
  | retry hp =>
    exact h.advance hk (by simp [hp]) rfl rfl rfl ⟨hu, by simp⟩ fun _ => Or.inl (by simp)

/-- The step lemma: without `stop` one task runs at a time, and a step that abandons nobody keeps
the stream served. -/
theorem Sole.step {w w' : World} {i : Input} {o : List Relay} (h : w.Sole)
    (hs : w.step i = some (w', o)) (hi : i ≠ .stop) :
    w'.Sole ∧ (w.Served → w.AbandonsNobody i → w'.Served) := by
  cases step_inv hs with
  | @subscribe x now =>
    have hr : (w.subscribe x now).Sole ∧ (w.subscribe x now).Served :=
      Sole.ensureRunning (h.congr rfl rfl rfl)
    exact ⟨hr.1, fun _ _ => hr.2⟩
  | unsubscribe =>
    refine ⟨h.congr rfl rfl rfl, fun hserved _ hn => hserved ?_⟩
    rintro he
    exact hn (by simp [unsubscribe, he])
  | @touch now =>
    have hr : (w.touch now).Sole ∧ (w.touch now).Served :=
      Sole.ensureRunning (h.congr rfl rfl rfl)
    exact ⟨hr.1, fun _ _ => hr.2⟩
  | get =>
    refine ⟨h.congr rfl rfl rfl, fun hserved _ hn => hserved ?_⟩
    rintro he
    exact hn (by simp [get, he])
  | @waitReady id now =>
    have ht : (w.touch now).Sole ∧ (w.touch now).Served :=
      Sole.ensureRunning (h.congr rfl rfl rfl)
    simp only [waitReady]
    split
    · exact ⟨ht.1, fun _ _ => ht.2⟩
    · exact ⟨ht.1.congr rfl rfl rfl, fun _ _ => ht.2⟩
  | resumed | waitTimeout => exact ⟨h.congr rfl rfl rfl, fun hserved _ => hserved⟩
  | stop => exact absurd rfl hi
  | stopResumed ht => simp [h.stoppers] at ht
  | @run _ k _ now₂ _ _ _ hk _ _ hr =>
    have hw : ({ w with clock := now₂ } : World).Sole := h.congr rfl rfl rfl
    obtain ⟨hsole, hserved⟩ := hw.runStep hk (runStep_inv hr)
    refine ⟨hsole, fun _ hc => hserved ?_⟩
    rintro rfl hp
    exact hc k hk hp

/-- A supervisor that finishes its idle teardown leaves a stream with subscribers unserved. -/
theorem not_served_of_abandons {w w' : World} {i : Input} {o : List Relay} (h : w.Sole)
    (hs : w.step i = some (w', o)) (hc : ¬ w.AbandonsNobody i) : ¬ w'.Served := by
  cases i with
  | run t now₁ now₂ r =>
    cases r with
    | closed =>
      simp only [AbandonsNobody, not_forall] at hc
      obtain ⟨k, hk, hp, hn⟩ := hc
      obtain ⟨k', hk', -, -, hr⟩ := step_run hs
      rw [hk, Option.some.injEq] at hk'
      subst hk'
      have hwt : w.stream.task = some t := h.handle t ⟨k, hk, by simp [hp]⟩
      have hlen : t < w.tasks.length := (List.getElem?_eq_some_iff.mp hk).1
      cases hr with
      | leaveLoop hh => simpa [hp] using hh.pc
      | connect hh => simpa [hp] using hh.pc
      | leaveIdle =>
        intro hserved
        obtain ⟨u, hu, m, hm, hml⟩ := hserved hn
        have hut : t = u := Option.some.inj (hwt.symm.trans hu)
        subst hut
        simp only [leave, setTask_tasks, true_and] at hm
        rw [if_pos hlen, Option.some.injEq] at hm
        exact hml (hm ▸ rfl)
      | leaveCancelled hp' => simp [hp] at hp'
      | leaveFailed hp' => simp [hp] at hp'
      | retry hp' => simp [hp] at hp'
    | _ => exact absurd trivial hc
  | _ => exact absurd trivial hc

theorem fresh_sole (alwaysOn : Bool) (linger : ℚ) : (fresh alwaysOn linger).Sole :=
  ⟨by simp [Live, fresh], by simp [fresh], rfl⟩

/-- In a run without `stop`, every state reached has a live supervisor behind the handle as long
as somebody is subscribed, if and only if no idle teardown ends with a subscriber present. -/
theorem served_iff_abandons_nobody (alwaysOn : Bool) (linger : ℚ) (is : List Input)
    (hstop : ∀ i ∈ is, i ≠ .stop) :
    EveryStep step (fun _ _ _ w' _ => w'.Served) (fresh alwaysOn linger) is ↔
      EveryStep step (fun w _ i _ _ => w.AbandonsNobody i) (fresh alwaysOn linger) is := by
  have h0 : (fresh alwaysOn linger).Served := by simp [Served, fresh]
  refine everyStep_iff (fun w _ => w.Sole ∧ w.Served) ⟨fresh_sole alwaysOn linger, h0⟩ ?_ ?_
    (everyStep_of_forall_mem hstop)
  · rintro w _ i w' o ⟨hw, hserved⟩ hs hi hc
    obtain ⟨hsole, hstep⟩ := hw.step hs hi
    exact ⟨hsole, hstep hserved hc⟩
  · rintro w _ i w' o ⟨hw, hserved⟩ hs hi
    constructor
    · intro hserved'
      by_contra hc
      exact not_served_of_abandons hw hs hc hserved'
    · intro hc
      exact (hw.step hs hi).2 hserved hc

/-- The viewer leaves, a frame finds the stream idle, and a new viewer subscribes while
`gen.aclose()` is still awaited. -/
def idleRace : List Input :=
  [.subscribe 0 0, .run 0 0 0 .begin, .unsubscribe 0 1,
    .run 0 5 5 (.frame { payload := [] } {}), .subscribe 1 5] ++ [.run 0 6 6 .closed]

theorem idleRace_end :
    (run step (fresh false 1) idleRace).map
      (fun r => (r.1.stream.subs.map (·.id), r.1.stream.task, r.1.tasks.map (·.pc))) =
      some ([1], some 0, [.done]) := by
  decide +kernel

theorem idle_race_unserved :
    ¬ EveryStep step (fun _ _ _ w' _ => w'.Served) (fresh false 1) idleRace := by
  intro h
  obtain ⟨⟨w', os⟩, hr, he⟩ := Option.map_eq_some_iff.mp idleRace_end
  simp only [Prod.mk.injEq] at he
  obtain ⟨hsubs, htask, hpcs⟩ := he
  obtain ⟨_, _, _, hserved⟩ := h.last hr
  obtain ⟨t, ht, k, hk, hl⟩ := hserved (by rintro he; simp [he] at hsubs)
  have hm : k.pc ∈ w'.tasks.map (·.pc) := List.mem_map_of_mem (List.mem_of_getElem? hk)
  rw [hpcs, List.mem_singleton] at hm
  exact hl hm

theorem idle_race_served_iff :
    EveryStep step (fun _ _ _ w' _ => w'.Served) (fresh false 1) idleRace ↔
      EveryStep step (fun w _ i _ _ => w.AbandonsNobody i) (fresh false 1) idleRace :=
  served_iff_abandons_nobody false 1 idleRace (by simp [idleRace])

end DvrBridge.World
