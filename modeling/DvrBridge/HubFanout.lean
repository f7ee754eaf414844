import DvrBridge.SupervisorSteps

/-! The frames that `_on_frame` relays, between the calls of the subscriber API and the reads. -/
namespace DvrBridge.World
open Machine

inductive FanInput where
  | onFrame (payload : Bytes) (ts90k : Nat) (keyframe : Bool)
  | get (x : Nat)
  | subscribe (x : Nat) (now : ℚ)
  | unsubscribe (x : Nat) (now : ℚ)

inductive FanOutput where
  | relayed (put : Put)
  | read (x : Nat) (item : HubFrame)
  deriving DecidableEq

/-- The head of a subscriber's queue. -/
def head? (w : World) (x : Nat) : Option HubFrame :=
  (w.stream.subs.find? (·.id = x)).bind (·.queue.head?)

def fanStep (w : World) : FanInput → Option (World × List FanOutput)
  | .onFrame payload ts90k keyframe =>
    let r := w.stream.onFrame payload ts90k keyframe
    some (({ w with stream := r.1 } : World).wakeWaiters, (r.2.map .relayed).toList)
  | .get x => (w.head? x).map fun item => (w.get x, [.read x item])
  | .subscribe x now =>
    if w.clock ≤ now ∧ x ∉ w.objects then some (w.subscribe x now, []) else none
  | .unsubscribe x now => if w.clock ≤ now then some (w.unsubscribe x now, []) else none

/-- The relayed frames, in stream order. -/
def puts (h : List FanOutput) : List Put :=
  h.filterMap fun
    | .relayed put => some put
    | .read _ _ => none

def itemFor (x : Nat) (put : Put) : Option HubFrame := if x ∈ put.took then some put.item else none

/-- The items put on the queue of `x`, in stream order. -/
def received (x : Nat) (h : List FanOutput) : List HubFrame := (puts h).filterMap (itemFor x)

/-- The items that the reader of `x` has taken. -/
def readBy (x : Nat) (h : List FanOutput) : List HubFrame :=
  h.filterMap fun
    | .relayed _ => none
    | .read y item => if y = x then some item else none

@[simp] theorem puts_nil : puts [] = [] := rfl

@[simp] theorem puts_append (h o : List FanOutput) : puts (h ++ o) = puts h ++ puts o :=
  List.filterMap_append

@[simp] theorem received_append (x : Nat) (h o : List FanOutput) :
    received x (h ++ o) = received x h ++ received x o := by
  simp [received]

@[simp] theorem readBy_append (x : Nat) (h o : List FanOutput) :
    readBy x (h ++ o) = readBy x h ++ readBy x o :=
  List.filterMap_append

theorem received_relayed (x : Nat) (put : Put) :
    received x [.relayed put] = if x ∈ put.took then [put.item] else [] := by
  simp only [received, puts, List.filterMap_cons, List.filterMap_nil, itemFor]
  split_ifs <;> rfl

theorem readBy_read (x y : Nat) (item : HubFrame) :
    readBy x [.read y item] = if y = x then [item] else [] := by
  simp only [readBy, List.filterMap_cons, List.filterMap_nil]
  split_ifs <;> rfl

theorem head?_eq_some {w : World} {x : Nat} {item : HubFrame} (h : w.head? x = some item) :
    ∃ sub ∈ w.stream.subs, sub.id = x ∧ sub.queue = item :: sub.queue.tail := by
  obtain ⟨sub, hf, hh⟩ := Option.bind_eq_some_iff.mp h
  refine ⟨sub, List.mem_of_find?_eq_some hf, by simpa using List.find?_some hf, ?_⟩
  exact List.eq_cons_of_mem_head? hh

theorem received_eq_nil {x : Nat} {h : List FanOutput} (hx : ∀ put ∈ puts h, x ∉ put.took) :
    received x h = [] := by
  simpa [received, List.filterMap_eq_nil_iff, itemFor] using hx

/-- What a step can be for the subscribers. -/
theorem fanStep_cases {w w' : World} {i : FanInput} {o : List FanOutput}
    (h : w.fanStep i = some (w', o)) :
    (w'.stream.subs = w.stream.subs ∧ w'.objects = w.objects ∧ o = []) ∨
    (∃ item, w'.stream.subs = (w.stream.fanOut item).1.subs ∧ w'.objects = w.objects ∧
      o = [.relayed (w.stream.fanOut item).2]) ∨
    (∃ x item, w.head? x = some item ∧ w' = w.get x ∧ o = [.read x item]) ∨
    (∃ x, x ∉ w.objects ∧ w'.stream.subs = w.stream.subs ++ [{ id := x }] ∧
      w'.objects = x :: w.objects ∧ o = []) ∨
    (∃ x, w'.stream.subs = w.stream.subs.filter (·.id ≠ x) ∧ w'.objects = w.objects ∧ o = []) := by
  cases i with
  | onFrame payload ts90k keyframe =>
    simp only [fanStep, Option.some.injEq, Prod.mk.injEq] at h
    obtain ⟨rfl, rfl⟩ := h
    rcases Stream.onFrame_fanOut w.stream payload ts90k keyframe with he | ⟨item, -, hsubs, hput⟩
    · exact Or.inl (by simp [he])
    · exact Or.inr (Or.inl ⟨item, by simp [hsubs], by simp, by simp [hput]⟩)
  | get x =>
    simp only [fanStep, Option.map_eq_some_iff, Prod.mk.injEq] at h
    obtain ⟨item, hi, rfl, rfl⟩ := h
    exact Or.inr (Or.inr (Or.inl ⟨x, item, hi, rfl, rfl⟩))
  | subscribe x now =>
    simp only [fanStep, Option.ite_none_right_eq_some, Option.some.injEq, Prod.mk.injEq] at h
    obtain ⟨⟨-, hx⟩, rfl, rfl⟩ := h
    obtain ⟨tasks, task, he⟩ := w.subscribe_eq x now
    exact Or.inr (Or.inr (Or.inr (Or.inl ⟨x, hx, by simp [he]⟩)))
  | unsubscribe x now =>
    simp only [fanStep, Option.ite_none_right_eq_some, Option.some.injEq, Prod.mk.injEq] at h
    obtain ⟨-, rfl, rfl⟩ := h
    exact Or.inr (Or.inr (Or.inr (Or.inr ⟨x, rfl, rfl, rfl⟩)))

end DvrBridge.World
