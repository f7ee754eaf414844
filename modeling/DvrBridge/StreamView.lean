import DvrBridge.HubFanout
import DvrBridge.SupervisorSteps

/-! A stream as one of its users sees it: the subscribers by other numbers, and of those who wait
only some. The stream takes the same steps under all such views. -/
namespace DvrBridge

/-- The numbers that a user gives to the subscribers, and to the waits that it sees. -/
structure View where
  obj : Nat → Nat
  wait : Nat → Option Nat
  obj_inj : Function.Injective obj
  wait_inj : ∀ a b c, wait a = some c → wait b = some c → a = b

def Subscriber.seen (v : View) (sub : Subscriber) : Subscriber := { sub with id := v.obj sub.id }

def Put.seen (v : View) (p : Put) : Put := { p with took := p.took.map v.obj }

def Relay.seen (v : View) (r : Relay) : Relay := { r with put := r.put.seen v }

def Waiter.seen (v : View) (x : Waiter) : Option Waiter :=
  (v.wait x.id).map fun id => { x with id := id }

def Stream.seen (v : View) (s : Stream) : Stream :=
  { s with subs := s.subs.map (Subscriber.seen v) }

def World.seen (v : View) (w : World) : World :=
  { w with
    stream := w.stream.seen v
    objects := w.objects.map v.obj
    waiters := w.waiters.filterMap (Waiter.seen v) }

/-- What a step is under the view: a wait that is not seen is a `touch`, its end is nothing. -/
def Input.seen (v : View) : Input → Option Input
  | .subscribe x now => some (.subscribe (v.obj x) now)
  | .unsubscribe x now => some (.unsubscribe (v.obj x) now)
  | .get x => some (.get (v.obj x))
  | .waitReady id now =>
    match v.wait id with
    | some id => some (.waitReady id now)
    | none => some (.touch now)
  | .resumed id => (v.wait id).map .resumed
  | .waitTimeout id => (v.wait id).map .waitTimeout
  | .touch now => some (.touch now)
  | .stop => some .stop
  | .stopResumed t => some (.stopResumed t)
  | .run t now₁ now₂ r => some (.run t now₁ now₂ r)

/-! One frame. -/

section
variable (v : View)

theorem Subscriber.offer_seen (item : HubFrame) (sub : Subscriber) :
    (sub.seen v).offer item = ((sub.offer item).1.seen v, (sub.offer item).2) := by
  unfold Subscriber.offer
  split_ifs <;> first | rfl | contradiction

theorem Stream.fanOut_seen (s : Stream) (item : HubFrame) :
    (s.seen v).fanOut item = ((s.fanOut item).1.seen v, (s.fanOut item).2.seen v) := by
  have hsubs : (s.subs.map (Subscriber.seen v)).map (fun sub => (sub.offer item).1) =
      (s.subs.map fun sub => (sub.offer item).1).map (Subscriber.seen v) := by
    rw [List.map_map, List.map_map]
    refine List.map_congr_left fun sub _ => ?_
    exact congrArg Prod.fst (sub.offer_seen v item)
  have htook : ((s.subs.map (Subscriber.seen v)).filter fun sub => (sub.offer item).2).map (·.id) =
      ((s.subs.filter fun sub => (sub.offer item).2).map (·.id)).map v.obj := by
    rw [List.filter_map, List.map_map, List.map_map]
    have hp : ((fun sub : Subscriber => (sub.offer item).2) ∘ Subscriber.seen v) =
        fun sub => (sub.offer item).2 := by
      funext sub
      have h : ((sub.seen v).offer item).2 = (sub.offer item).2 := by rw [sub.offer_seen v]
      exact h
    rw [hp]
    rfl
  simp only [Stream.fanOut, Stream.seen, Put.seen, hsubs, htook]

theorem Stream.onFrame_seen (s : Stream) (payload : Bytes) (ts90k : Nat) (keyframe : Bool) :
    (s.seen v).onFrame payload ts90k keyframe =
      ((s.onFrame payload ts90k keyframe).1.seen v,
        (s.onFrame payload ts90k keyframe).2.map (Put.seen v)) := by
  unfold Stream.onFrame
  by_cases h : frameNals payload = []
  · simp only [h, if_true, Option.map_none]
  · simp only [h, if_false, Option.map_some]
    have hcached : { ((s.seen v).cacheSets (frameNals payload)).setReady with
        framesRelayed := ((s.seen v).cacheSets (frameNals payload)).setReady.framesRelayed + 1 } =
        Stream.seen v { (s.cacheSets (frameNals payload)).setReady with
          framesRelayed := (s.cacheSets (frameNals payload)).setReady.framesRelayed + 1 } := rfl
    rw [hcached, Stream.fanOut_seen]
    rfl

end

namespace World
variable (v : View) (w : World)

@[simp] theorem seen_clock : (w.seen v).clock = w.clock := rfl
@[simp] theorem seen_tasks : (w.seen v).tasks = w.tasks := rfl
@[simp] theorem seen_stoppers : (w.seen v).stoppers = w.stoppers := rfl
@[simp] theorem seen_drivers : (w.seen v).drivers = w.drivers := rfl
@[simp] theorem seen_stream : (w.seen v).stream = w.stream.seen v := rfl
@[simp] theorem seen_objects : (w.seen v).objects = w.objects.map v.obj := rfl

theorem idleExpired_seen (s : Stream) (now : ℚ) :
    (s.seen v).idleExpired now = s.idleExpired now := by
  simp [Stream.idleExpired, Stream.seen]

theorem ensureRunning_seen : (w.seen v).ensureRunning = w.ensureRunning.seen v := by
  have htask : (w.seen v).stream.task = w.stream.task := rfl
  unfold ensureRunning
  rw [htask]
  split
  · have hdone : ∀ t, (w.seen v).taskDone t = w.taskDone t := fun _ => rfl
    rw [hdone]
    split <;> rfl
  · rfl

theorem touch_seen (now : ℚ) : (w.seen v).touch now = (w.touch now).seen v :=
  ensureRunning_seen v { w with stream := { w.stream with lastActivity := now }, clock := now }

theorem subscribe_seen (x : Nat) (now : ℚ) :
    (w.seen v).subscribe (v.obj x) now = (w.subscribe x now).seen v := by
  unfold subscribe
  rw [← touch_seen]
  simp only [seen, Stream.seen, List.map_append, List.map_cons, List.map_nil]
  rfl

theorem unsubscribe_seen (x : Nat) (now : ℚ) :
    (w.seen v).unsubscribe (v.obj x) now = (w.unsubscribe x now).seen v := by
  have hfilter : (w.stream.subs.map (Subscriber.seen v)).filter (·.id ≠ v.obj x) =
      (w.stream.subs.filter (·.id ≠ x)).map (Subscriber.seen v) := by
    rw [List.filter_map]
    congr 1
    refine List.filter_congr fun sub _ => ?_
    simp [Subscriber.seen, v.obj_inj.eq_iff]
  simp only [unsubscribe, seen, Stream.seen, hfilter]

theorem get_seen (x : Nat) : (w.seen v).get (v.obj x) = (w.get x).seen v := by
  have hmap : (w.stream.subs.map (Subscriber.seen v)).map (fun sub =>
        if sub.id = v.obj x then { sub with queue := sub.queue.tail } else sub) =
      (w.stream.subs.map fun sub =>
        if sub.id = x then { sub with queue := sub.queue.tail } else sub).map
          (Subscriber.seen v) := by
    rw [List.map_map, List.map_map]
    refine List.map_congr_left fun sub _ => ?_
    by_cases h : sub.id = x
    · simp [Subscriber.seen, h]
    · simp [Subscriber.seen, h, v.obj_inj.eq_iff]
  simp only [get, seen, Stream.seen, hmap]

theorem waitReady_seen (id : Nat) (now : ℚ) : (w.waitReady id now).seen v =
    match v.wait id with
    | some id => (w.seen v).waitReady id now
    | none => (w.seen v).touch now := by
  have htouch := touch_seen v w now
  have hready : (w.touch now).stream.ready = ((w.touch now).seen v).stream.ready := rfl
  cases hid : v.wait id with
  | none =>
    rw [htouch]
    unfold waitReady
    simp only
    split
    · rfl
    · simp [seen, Waiter.seen, hid]
  | some id' =>
    simp only [waitReady, htouch, ← hready]
    split
    · rfl
    · simp [seen, Waiter.seen, hid]

theorem stop_seen : (w.seen v).stop = w.stop.seen v := by
  have htask : (w.seen v).stream.task = w.stream.task := rfl
  unfold stop
  rw [htask, seen_tasks]
  split
  · rfl
  · split
    · rfl
    · split <;> rfl

theorem wakeWaiters_seen : (w.seen v).wakeWaiters = w.wakeWaiters.seen v := by
  have hready : (w.seen v).stream.ready = w.stream.ready := rfl
  have hwoken : (w.waiters.filterMap (Waiter.seen v)).map (fun x => { x with woken := true }) =
      (w.waiters.map fun x => { x with woken := true }).filterMap (Waiter.seen v) := by
    rw [List.map_filterMap, List.filterMap_map]
    refine List.filterMap_congr fun x _ => ?_
    simp only [Waiter.seen, Function.comp_apply, Option.map_map]
    rfl
  unfold wakeWaiters
  rw [hready]
  split
  · simp only [seen, hwoken]
  · rfl

theorem leaveLoop_seen (t : Nat) (k : RunTask) :
    (w.seen v).leaveLoop t k = (w.leaveLoop t k).seen v := by
  have hempty : (w.stream.subs.map (Subscriber.seen v)).isEmpty = w.stream.subs.isEmpty :=
    List.isEmpty_map
  have hensure := ensureRunning_seen v
    { w with stream := { w.stream with ready := false, task := none } }
  unfold leaveLoop
  simp only [seen_stream, Stream.seen, hempty]
  split
  · rfl
  · exact congrArg (fun u : World => u.setTask t { k with pc := .done }) hensure

theorem loopHead_seen (t : Nat) (k : RunTask) (now₁ now₂ : ℚ) :
    (w.seen v).loopHead t k now₁ now₂ = (w.loopHead t k now₁ now₂).seen v := by
  unfold loopHead
  rw [seen_stream, idleExpired_seen]
  split
  · exact leaveLoop_seen v w t k
  · rfl

theorem frame_seen (t : Nat) (k : RunTask) (f : VideoFrame) (info : StreamInfo) (now₁ now₂ : ℚ) :
    (w.seen v).frame t k f info now₁ now₂ =
      ((w.frame t k f info now₁ now₂).1.seen v,
        (w.frame t k f info now₁ now₂).2.map (Relay.seen v)) := by
  have hframe : (w.seen v).frameResult k f info now₁ =
      ((w.frameResult k f info now₁).1.seen v,
        (w.frameResult k f info now₁).2.map (Put.seen v)) :=
    Stream.onFrame_seen v { w.stream with info := info } f.payload _ f.keyframe
  have hwake := wakeWaiters_seen v { w with stream := (w.frameResult k f info now₁).1 }
  unfold frame
  simp only [hframe, idleExpired_seen]
  refine Prod.ext ?_ ?_
  · exact congrArg (fun u : World => u.setTask t _) hwake
  · cases (w.frameResult k f info now₁).2 <;> rfl

theorem afterFailure_seen (t : Nat) (k : RunTask) (now₁ now₂ : ℚ) :
    (w.seen v).afterFailure t k now₁ now₂ = (w.afterFailure t k now₁ now₂).seen v := by
  unfold afterFailure
  simp only [seen_stream, idleExpired_seen]
  split <;> rfl

theorem cancelled_seen (t : Nat) (k : RunTask) :
    (w.seen v).cancelled t k = (w.cancelled t k).seen v := by
  unfold cancelled
  simp only
  split <;> rfl

/-- A step of a task. -/
theorem runStep_seen (t : Nat) (k : RunTask) (now₁ now₂ : ℚ) (r : RunInput) :
    (w.seen v).runStep t k now₁ now₂ r =
      (w.runStep t k now₁ now₂ r).map fun q => (q.1.seen v, q.2.map (Relay.seen v)) := by
  cases r with
  | cancelled => simp only [runStep, cancelled_seen]; split <;> rfl
  | begin => simp only [runStep, loopHead_seen]; split <;> rfl
  | frame f info => simp only [runStep, frame_seen]; split <;> rfl
  | failed => simp only [runStep]; split <;> rfl
  | closed =>
    simp only [runStep]
    split
    · rename_i why hpc
      split
      · rfl
      · cases why with
        | failed => simp only [closed, afterFailure_seen]; rfl
        | idle | cancelled => rfl
    · rfl
  | woken =>
    have hwake : (w.seen v).stream.wake = w.stream.wake := rfl
    simp only [runStep, reconnect, loopHead_seen, hwake]
    split <;> rfl
  | timeout => simp only [runStep, reconnect, loopHead_seen]; split <;> rfl

variable {v w} {w' : World} {i : Input} {o : List Relay}

theorem mem_waiters_seen {id id' : Nat} {woken : Bool} (hid : v.wait id = some id')
    (h : ({ id := id, woken := woken } : Waiter) ∈ w.waiters) :
    ({ id := id', woken := woken } : Waiter) ∈ (w.seen v).waiters :=
  List.mem_filterMap.mpr ⟨_, h, by simp [Waiter.seen, hid]⟩

theorem waiting_seen {id id' : Nat} (hid : v.wait id = some id') :
    id' ∈ (w.seen v).waiters.map (·.id) ↔ id ∈ w.waiters.map (·.id) := by
  constructor
  · intro h
    obtain ⟨x, hx, rfl⟩ := List.mem_map.mp h
    obtain ⟨y, hy, he⟩ := List.mem_filterMap.mp hx
    obtain ⟨c, hc, rfl⟩ := Option.map_eq_some_iff.mp he
    rw [v.wait_inj _ _ _ hid hc]
    exact List.mem_map_of_mem hy
  · intro h
    obtain ⟨y, hy, rfl⟩ := List.mem_map.mp h
    exact List.mem_map.mpr ⟨_, mem_waiters_seen hid hy, rfl⟩

/-- The wait of `id` is over. -/
theorem dropWaiter_seen (id : Nat) : (w.waiters.filter (·.id ≠ id)).filterMap (Waiter.seen v) =
    match v.wait id with
    | some id => (w.seen v).waiters.filter (·.id ≠ id)
    | none => (w.seen v).waiters := by
  have hseen : (w.seen v).waiters = w.waiters.filterMap (Waiter.seen v) := rfl
  rw [hseen, List.filterMap_filter]
  cases hid : v.wait id with
  | none =>
    refine List.filterMap_congr fun x _ => ?_
    by_cases hx : x.id = id
    · simp [hx, Waiter.seen, hid]
    · simp [hx]
  | some id' =>
    simp only
    rw [List.filter_filterMap]
    refine List.filterMap_congr fun x _ => ?_
    by_cases hx : x.id = id
    · simp [hx, Waiter.seen, hid, Option.filter]
    · cases hc : v.wait x.id with
      | none => simp [hx, Waiter.seen, hc]
      | some c =>
        have hne : c ≠ id' := fun he => hx (v.wait_inj _ _ _ hc (he ▸ hid))
        simp [hx, Waiter.seen, hc, hne, Option.filter]

/-- The step lemma: under a view the stream takes the same step, or none. -/
theorem step_seen (h : w.step i = some (w', o)) :
    (i.seen v = none ∧ w'.seen v = w.seen v ∧ o = []) ∨
      ∃ j, i.seen v = some j ∧ (w.seen v).step j = some (w'.seen v, o.map (Relay.seen v)) := by
  cases i with
  | subscribe x now =>
    obtain ⟨⟨hc, hx⟩, he⟩ := Option.ite_none_right_eq_some.mp h
    cases he
    have hx' : v.obj x ∉ (w.seen v).objects := by simpa [v.obj_inj.eq_iff] using hx
    refine .inr ⟨_, rfl, (if_pos ⟨hc, hx'⟩).trans ?_⟩
    rw [subscribe_seen, List.map_nil]
  | unsubscribe x now =>
    obtain ⟨hc, he⟩ := Option.ite_none_right_eq_some.mp h
    cases he
    refine .inr ⟨_, rfl, (if_pos hc).trans ?_⟩
    rw [unsubscribe_seen, List.map_nil]
  | touch now =>
    obtain ⟨hc, he⟩ := Option.ite_none_right_eq_some.mp h
    cases he
    refine .inr ⟨_, rfl, (if_pos hc).trans ?_⟩
    rw [touch_seen, List.map_nil]
  | get x =>
    obtain ⟨hany, he⟩ := Option.ite_none_right_eq_some.mp h
    cases he
    have hany' : (w.seen v).stream.subs.any
        (fun s => s.id = v.obj x ∧ s.queue ≠ []) = true := by
      obtain ⟨sub, hs, hp⟩ := List.any_eq_true.mp hany
      refine List.any_eq_true.mpr ⟨sub.seen v, List.mem_map_of_mem hs, ?_⟩
      simpa [Subscriber.seen, v.obj_inj.eq_iff] using hp
    refine .inr ⟨_, rfl, (if_pos hany').trans ?_⟩
    rw [get_seen, List.map_nil]
  | waitReady id now =>
    obtain ⟨⟨hc, hid⟩, he⟩ := Option.ite_none_right_eq_some.mp h
    cases he
    have hseen := waitReady_seen v w id now
    cases hw : v.wait id with
    | none =>
      rw [hw] at hseen
      refine .inr ⟨.touch now, by simp only [Input.seen, hw], (if_pos hc).trans ?_⟩
      rw [hseen, List.map_nil]
    | some id' =>
      rw [hw] at hseen
      refine .inr ⟨.waitReady id' now, by simp only [Input.seen, hw],
        (if_pos ⟨hc, fun hm => hid ((waiting_seen hw).mp hm)⟩).trans ?_⟩
      rw [hseen, List.map_nil]
  | resumed id =>
    obtain ⟨hm, he⟩ := Option.ite_none_right_eq_some.mp h
    cases he
    have hdrop := dropWaiter_seen (v := v) (w := w) id
    cases hw : v.wait id with
    | none =>
      rw [hw] at hdrop
      refine .inl ⟨by simp only [Input.seen, hw, Option.map_none], ?_, rfl⟩
      exact congrArg (fun l => { w.seen v with waiters := l }) hdrop
    | some id' =>
      rw [hw] at hdrop
      refine .inr ⟨.resumed id', by simp only [Input.seen, hw, Option.map_some],
        (if_pos (mem_waiters_seen hw hm)).trans ?_⟩
      exact congrArg (fun l => some ({ w.seen v with waiters := l }, [])) hdrop.symm
  | waitTimeout id =>
    obtain ⟨hm, he⟩ := Option.ite_none_right_eq_some.mp h
    cases he
    have hdrop := dropWaiter_seen (v := v) (w := w) id
    cases hw : v.wait id with
    | none =>
      rw [hw] at hdrop
      refine .inl ⟨by simp only [Input.seen, hw, Option.map_none], ?_, rfl⟩
      exact congrArg (fun l => { w.seen v with waiters := l }) hdrop
    | some id' =>
      rw [hw] at hdrop
      refine .inr ⟨.waitTimeout id', by simp only [Input.seen, hw, Option.map_some],
        (if_pos ((waiting_seen hw).mpr hm)).trans ?_⟩
      exact congrArg (fun l => some ({ w.seen v with waiters := l }, [])) hdrop.symm
  | stop =>
    cases h
    exact .inr ⟨_, rfl, congrArg (fun u => some (u, [])) (stop_seen v w)⟩
  | stopResumed t =>
    obtain ⟨hc, he⟩ := Option.ite_none_right_eq_some.mp h
    cases he
    exact .inr ⟨_, rfl, if_pos hc⟩
  | run t now₁ now₂ r =>
    refine .inr ⟨_, rfl, ?_⟩
    simp only [step] at h ⊢
    rw [seen_tasks]
    split at h
    · rename_i k _
      obtain ⟨hc, hr⟩ := Option.ite_none_right_eq_some.mp h
      have hseen := runStep_seen v { w with clock := now₂ } t k now₁ now₂ r
      rw [hr] at hseen
      exact (if_pos hc).trans hseen
    · cases h

/-- The reader of a queue sees the same item. -/
theorem head?_seen (x : Nat) : (w.seen v).head? (v.obj x) = w.head? x := by
  have hfind : (w.stream.subs.map (Subscriber.seen v)).find? (·.id = v.obj x) =
      (w.stream.subs.find? (·.id = x)).map (Subscriber.seen v) := by
    rw [List.find?_map]
    congr 2
    funext sub
    simp [Subscriber.seen, v.obj_inj.eq_iff]
  unfold head?
  rw [seen_stream, Stream.seen]
  simp only [hfind]
  cases w.stream.subs.find? (·.id = x) <;> rfl

end World
end DvrBridge
