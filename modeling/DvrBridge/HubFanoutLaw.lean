import DvrBridge.HubFanout
import Mathlib.Data.List.Chain

/-! The fan-out law: what one subscriber's queue gets of the frames that `_on_frame` relays. -/
namespace DvrBridge.World

/-- The queue of `x` gets relayed items in stream order, each at most once, from a keyframe on and
after every gap again from a keyframe on. -/
structure FanOutLaw (x : Nat) (w : World) (h : List FanOutput) : Prop where
  once : ∀ put ∈ puts h, put.took.count x ≤ 1
  read : readBy x h <+: received x h
  queued : ∀ sub ∈ w.stream.subs, sub.id = x → readBy x h ++ sub.queue = received x h
  keyFirst : ∀ item ∈ (received x h).head?, item.keyframe = true
  keyAfterGap : (puts h).IsChain fun p q => x ∉ p.took → x ∈ q.took → q.item.keyframe = true

/-- A frame passes a subscriber by only while it waits for a keyframe or its queue is full. -/
def SkipsOnly (w : World) (o : List FanOutput) : Prop :=
  ∀ put ∈ puts o, ∀ sub ∈ w.stream.subs, sub.id ∉ put.took →
    (sub.waitingKey = true ∧ put.item.keyframe = false) ∨ sub.queue.length = queueMax

/-- Every frame with a NAL is offered to the subscribers once, as an item of its own; no other step
offers an item. -/
def Offers (w : World) (i : FanInput) (o : List FanOutput) : Prop :=
  match i with
  | .onFrame payload ts90k keyframe => frameNals payload ≠ [] →
    ∃ put, o = [.relayed put] ∧ put.item.ts90k = ts90k ∧ put.item.keyframe = keyframe ∧
      put.item.nals =
        (w.stream.cacheSets (frameNals payload)).insertSets keyframe (frameNals payload)
  | .get _ | .subscribe _ _ | .unsubscribe _ _ => puts o = []

/-- Subscribers are distinct objects known by now; one that no longer waits for a keyframe got
the last relayed frame. -/
structure FanInv (w : World) (h : List FanOutput) : Prop where
  nodup : (w.stream.subs.map (·.id)).Nodup
  known : ∀ sub ∈ w.stream.subs, sub.id ∈ w.objects
  took : ∀ put ∈ puts h, ∀ x ∈ put.took, x ∈ w.objects
  bounded : ∀ sub ∈ w.stream.subs, sub.queue.length ≤ queueMax
  flowing : ∀ sub ∈ w.stream.subs, sub.waitingKey = false →
    ∃ p ∈ (puts h).getLast?, sub.id ∈ p.took
  law : ∀ x, FanOutLaw x w h

theorem FanOutLaw.readBy_eq_nil {x : Nat} {w : World} {h : List FanOutput} (hl : FanOutLaw x w h)
    (hx : ∀ put ∈ puts h, x ∉ put.took) : readBy x h = [] := by
  have hp := hl.read
  rw [received_eq_nil hx] at hp
  exact List.prefix_nil.mp hp

/-- A step that changes no subscriber. -/
theorem FanInv.congr {w w' : World} {h : List FanOutput} (hi : FanInv w h)
    (hs : w'.stream.subs = w.stream.subs) (ho : w'.objects = w.objects) : FanInv w' h where
  nodup := hs ▸ hi.nodup
  known := by
    rw [hs, ho]
    exact hi.known
  took := ho ▸ hi.took
  bounded := hs ▸ hi.bounded
  flowing := hs ▸ hi.flowing
  law x := ⟨(hi.law x).once, (hi.law x).read, hs ▸ (hi.law x).queued, (hi.law x).keyFirst,
    (hi.law x).keyAfterGap⟩

/-- What is put on a queue that did not get the frame before is a keyframe. -/
theorem FanInv.key_of_gap {w : World} {h : List FanOutput} (hi : FanInv w h) {item : HubFrame}
    {x : Nat} (hx : x ∈ (w.stream.fanOut item).2.took)
    (hgap : ∀ p ∈ (puts h).getLast?, x ∉ p.took) : item.keyframe = true := by
  obtain ⟨sub, hsub, ho, rfl⟩ := Stream.mem_took_iff.mp hx
  rcases Subscriber.offer_cases item sub with ⟨-, -, hk⟩ | ⟨he, -⟩ | ⟨he, -⟩
  · cases hw : sub.waitingKey with
    | true => exact hk hw
    | false =>
      obtain ⟨p, hp, hm⟩ := hi.flowing sub hsub hw
      exact absurd hm (hgap p hp)
  · simp [he] at ho
  · simp [he] at ho

/-- The subscriber's side of one relayed frame. -/
theorem FanInv.offered {w : World} {h : List FanOutput} (hi : FanInv w h) (item : HubFrame)
    {sub : Subscriber} (hs : sub ∈ w.stream.subs) :
    (sub.offer item).1.queue =
      sub.queue ++ received sub.id [.relayed (w.stream.fanOut item).2] ∧
    (sub.offer item).1.queue.length ≤ queueMax ∧
    ((sub.offer item).1.waitingKey = false → sub.id ∈ (w.stream.fanOut item).2.took) := by
  have hm := Stream.mem_took_iff_of_mem item hi.nodup hs
  have hb := hi.bounded sub hs
  rw [received_relayed]
  rcases Subscriber.offer_cases item sub with ⟨he, hq, -⟩ | ⟨he, hw, -⟩ | ⟨he, -⟩
  · have hin : sub.id ∈ (w.stream.fanOut item).2.took := hm.mpr (by rw [he])
    rw [if_pos hin, he]
    exact ⟨rfl, by simpa using Nat.succ_le_of_lt hq, fun _ => hin⟩
  · have hout : sub.id ∉ (w.stream.fanOut item).2.took := by
      rw [hm, he]
      simp
    rw [if_neg hout, he]
    exact ⟨by simp, hb, by simp [hw]⟩
  · have hout : sub.id ∉ (w.stream.fanOut item).2.took := by
      rw [hm, he]
      simp
    rw [if_neg hout, he]
    exact ⟨by simp, hb, by simp⟩

theorem FanInv.relayed {w w' : World} {h : List FanOutput} (hi : FanInv w h) (item : HubFrame)
    (hs : w'.stream.subs = (w.stream.fanOut item).1.subs) (ho : w'.objects = w.objects) :
    FanInv w' (h ++ [.relayed (w.stream.fanOut item).2]) := by
  have hput : puts [.relayed (w.stream.fanOut item).2] = [(w.stream.fanOut item).2] := rfl
  have hsubs : w'.stream.subs = w.stream.subs.map fun sub => (sub.offer item).1 := hs
  refine ⟨?_, ?_, ?_, ?_, ?_, fun x => ⟨?_, ?_, ?_, ?_, ?_⟩⟩
  · rw [hsubs, List.map_map]
    simpa [Function.comp_def] using hi.nodup
  · rw [hsubs, ho]
    simpa using hi.known
  · intro put hp x hx
    rw [ho]
    rw [puts_append, hput, List.mem_append, List.mem_singleton] at hp
    rcases hp with hp | rfl
    · exact hi.took put hp x hx
    · obtain ⟨sub, hsub, -, rfl⟩ := Stream.mem_took_iff.mp hx
      exact hi.known sub hsub
  · rw [hsubs]
    simp only [List.mem_map, forall_exists_index, and_imp, forall_apply_eq_imp_iff₂]
    exact fun sub hsub => (hi.offered item hsub).2.1
  · rw [hsubs]
    simp only [List.mem_map, forall_exists_index, and_imp, forall_apply_eq_imp_iff₂,
      Subscriber.offer_id]
    intro sub hsub hw
    exact ⟨_, by simp [hput], (hi.offered item hsub).2.2 hw⟩
  · intro put hp
    rw [puts_append, hput, List.mem_append, List.mem_singleton] at hp
    rcases hp with hp | rfl
    · exact (hi.law x).once put hp
    · exact List.nodup_iff_count_le_one.mp (Stream.fanOut_took_nodup item hi.nodup) x
  · rw [readBy_append, received_append]
    simpa [readBy] using (hi.law x).read.trans (List.prefix_append _ _)
  · rw [hsubs]
    simp only [List.mem_map, forall_exists_index, and_imp, forall_apply_eq_imp_iff₂,
      Subscriber.offer_id]
    rintro sub hsub rfl
    rw [(hi.offered item hsub).1, received_append, ← (hi.law sub.id).queued sub hsub rfl]
    simp [readBy]
  · rw [received_append]
    cases hr : received x h with
    | cons a l =>
      have hk := (hi.law x).keyFirst
      rw [hr] at hk
      simpa using hk
    | nil =>
      rw [received_relayed]
      split_ifs with hx
      · have hgap : ∀ p ∈ (puts h).getLast?, x ∉ p.took := by
          intro p hp hxp
          have hmem := List.mem_of_mem_getLast? hp
          simp only [received, List.filterMap_eq_nil_iff, itemFor] at hr
          simpa [hxp] using hr p hmem
        simpa using hi.key_of_gap hx hgap
      · simp
  · rw [puts_append, hput, List.isChain_append]
    refine ⟨(hi.law x).keyAfterGap, by simp, ?_⟩
    rintro p hp q hq hxp hxq
    simp only [List.head?_cons, Option.mem_some_iff] at hq
    subst hq
    refine hi.key_of_gap hxq fun p' hp' => ?_
    exact Option.mem_unique hp hp' ▸ hxp

/-- An object that has not subscribed yet got nothing. -/
theorem FanInv.received_new {w : World} {h : List FanOutput} (hi : FanInv w h) {x : Nat}
    (hx : x ∉ w.objects) : received x h = [] ∧ readBy x h = [] := by
  have hn : ∀ put ∈ puts h, x ∉ put.took := fun put hp hxp => hx (hi.took put hp x hxp)
  exact ⟨received_eq_nil hn, (hi.law x).readBy_eq_nil hn⟩

theorem FanInv.get {w : World} {h : List FanOutput} (hi : FanInv w h) {y : Nat} {item : HubFrame}
    (hh : w.head? y = some item) : FanInv (w.get y) (h ++ [.read y item]) := by
  obtain ⟨top, htop, rfl, hq⟩ := head?_eq_some hh
  have hput : puts (h ++ [.read top.id item]) = puts h := by simp [puts]
  have hrec (x : Nat) : received x (h ++ [.read top.id item]) = received x h := by
    rw [received, hput, received]
  -- what `get` makes of one subscriber
  have hsub (x : Nat) (sub : Subscriber) (hs : sub ∈ w.stream.subs) (hx : sub.id = x) :
      readBy x [.read top.id item] ++ (if sub.id = top.id then sub.queue.tail else sub.queue) =
        sub.queue := by
    rw [readBy_read]
    by_cases he : sub.id = top.id
    · have hst : sub = top := List.inj_on_of_nodup_map hi.nodup hs htop he
      subst hst
      rw [if_pos hx, if_pos rfl, List.singleton_append, ← hq]
    · rw [if_neg he, if_neg (by omega), List.nil_append]
  have hmem (P : Subscriber → Prop) (hP : ∀ sub ∈ w.stream.subs, P { sub with
      queue := if sub.id = top.id then sub.queue.tail else sub.queue }) :
      ∀ sub ∈ (w.get top.id).stream.subs, P sub := by
    intro sub hs
    obtain ⟨m, hm, rfl⟩ := List.mem_map.mp hs
    have := hP m hm
    split_ifs at this ⊢ <;> exact this
  refine ⟨?_, hmem _ hi.known, ?_, hmem _ ?_, hmem _ ?_, fun x => ⟨?_, ?_, hmem _ ?_, ?_, ?_⟩⟩
  · have he : (w.get top.id).stream.subs.map (·.id) = w.stream.subs.map (·.id) := by
      simp only [World.get, List.map_map]
      refine List.map_congr_left fun sub _ => ?_
      simp only [Function.comp_apply]
      split_ifs <;> rfl
    rw [he]
    exact hi.nodup
  · rw [hput]
    exact hi.took
  · intro sub hs
    refine le_trans ?_ (hi.bounded sub hs)
    simp only
    split_ifs <;> simp
  · rw [hput]
    exact hi.flowing
  · rw [hput]
    exact (hi.law x).once
  · rw [hrec, readBy_append, readBy_read]
    split_ifs with hx
    · rw [← (hi.law x).queued top htop hx, hq]
      simp
    · simpa using (hi.law x).read
  · intro sub hs hx
    simp only at hx ⊢
    rw [hrec, readBy_append, List.append_assoc, hsub x sub hs hx, (hi.law x).queued sub hs hx]
  · rw [hrec]
    exact (hi.law x).keyFirst
  · rw [hput]
    exact (hi.law x).keyAfterGap

theorem FanInv.subscribe {w w' : World} {h : List FanOutput} (hi : FanInv w h) {y : Nat}
    (hy : y ∉ w.objects) (hs : w'.stream.subs = w.stream.subs ++ [{ id := y }])
    (ho : w'.objects = y :: w.objects) : FanInv w' h := by
  have hmem (P : Subscriber → Prop) (hP : ∀ sub ∈ w.stream.subs, P sub) (hnew : P { id := y }) :
      ∀ sub ∈ w'.stream.subs, P sub := by
    intro sub hsub
    rw [hs, List.mem_append, List.mem_singleton] at hsub
    rcases hsub with hsub | rfl
    · exact hP sub hsub
    · exact hnew
  refine ⟨?_, hmem _ ?_ ?_, ?_, hmem _ hi.bounded (by simp), hmem _ hi.flowing (by simp),
    fun x => ⟨(hi.law x).once, (hi.law x).read, hmem _ (hi.law x).queued ?_, (hi.law x).keyFirst,
      (hi.law x).keyAfterGap⟩⟩
  · rw [hs, List.map_append, List.nodup_append]
    refine ⟨hi.nodup, by simp, ?_⟩
    rintro a ha b hb rfl
    obtain ⟨sub, hsub, rfl⟩ := List.mem_map.mp ha
    simp only [List.map_cons, List.map_nil, List.mem_singleton] at hb
    exact hy (hb ▸ hi.known sub hsub)
  · intro sub hsub
    rw [ho]
    exact List.mem_cons_of_mem y (hi.known sub hsub)
  · simp [ho]
  · intro put hp x hx
    rw [ho]
    exact List.mem_cons_of_mem y (hi.took put hp x hx)
  · rintro rfl
    obtain ⟨hr, hb⟩ := hi.received_new hy
    simp [hr, hb]

theorem FanInv.unsubscribe {w w' : World} {h : List FanOutput} (hi : FanInv w h) {y : Nat}
    (hs : w'.stream.subs = w.stream.subs.filter (·.id ≠ y)) (ho : w'.objects = w.objects) :
    FanInv w' h := by
  have hmem : ∀ sub ∈ w'.stream.subs, sub ∈ w.stream.subs := by
    rw [hs]
    exact fun sub hsub => List.mem_of_mem_filter hsub
  refine ⟨?_, ?_, ho ▸ hi.took, fun sub hsub => hi.bounded sub (hmem sub hsub),
    fun sub hsub => hi.flowing sub (hmem sub hsub),
    fun x => ⟨(hi.law x).once, (hi.law x).read,
      fun sub hsub => (hi.law x).queued sub (hmem sub hsub), (hi.law x).keyFirst,
      (hi.law x).keyAfterGap⟩⟩
  · rw [hs]
    exact (List.filter_sublist.map _).nodup hi.nodup
  · rw [ho]
    exact fun sub hsub => hi.known sub (hmem sub hsub)

/-- The step lemma of the fan-out law. -/
theorem FanInv.step {w w' : World} {h o : List FanOutput} {i : FanInput} (hi : FanInv w h)
    (hs : w.fanStep i = some (w', o)) : FanInv w' (h ++ o) := by
  rcases fanStep_cases hs with ⟨hsubs, hobj, rfl⟩ | ⟨item, hsubs, hobj, rfl⟩ |
    ⟨x, item, hh, rfl, rfl⟩ | ⟨x, hx, hsubs, hobj, rfl⟩ | ⟨x, hsubs, hobj, rfl⟩
  · rw [List.append_nil]
    exact hi.congr hsubs hobj
  · exact hi.relayed item hsubs hobj
  · exact hi.get hh
  · rw [List.append_nil]
    exact hi.subscribe hx hsubs hobj
  · rw [List.append_nil]
    exact hi.unsubscribe hsubs hobj

theorem fanInv_fresh (alwaysOn : Bool) (linger : ℚ) : FanInv (fresh alwaysOn linger) [] := by
  refine ⟨?_, ?_, ?_, ?_, ?_, fun x => ⟨?_, ?_, ?_, ?_, ?_⟩⟩ <;>
    simp [fresh, readBy, received]

theorem offers_step {w w' : World} {i : FanInput} {o : List FanOutput}
    (hs : w.fanStep i = some (w', o)) : w.Offers i o := by
  cases i with
  | onFrame payload ts90k keyframe =>
    intro hn
    obtain ⟨item, hts, hk, hnals, he⟩ := Stream.onFrame_relayed w.stream payload ts90k keyframe hn
    simp only [fanStep, he, Option.some.injEq, Prod.mk.injEq] at hs
    obtain ⟨-, rfl⟩ := hs
    exact ⟨_, rfl, hts, hk, hnals⟩
  | get x =>
    simp only [fanStep, Option.map_eq_some_iff, Prod.mk.injEq] at hs
    obtain ⟨item, -, -, rfl⟩ := hs
    rfl
  | subscribe x now | unsubscribe x now =>
    simp only [fanStep, Option.ite_none_right_eq_some, Option.some.injEq, Prod.mk.injEq] at hs
    obtain ⟨-, -, rfl⟩ := hs
    rfl

/-- A frame that a subscriber misses. -/
theorem FanInv.skipsOnly {w w' : World} {h o : List FanOutput} {i : FanInput} (hi : FanInv w h)
    (hs : w.fanStep i = some (w', o)) : w.SkipsOnly o := by
  rcases fanStep_cases hs with ⟨-, -, rfl⟩ | ⟨item, -, -, rfl⟩ | ⟨x, item, -, -, rfl⟩ |
    ⟨x, -, -, -, rfl⟩ | ⟨x, -, -, rfl⟩
  · simp [SkipsOnly]
  · intro put hp sub hsub hout
    have he : put = (w.stream.fanOut item).2 := by simpa [puts] using hp
    subst he
    rw [Stream.mem_took_iff_of_mem item hi.nodup hsub] at hout
    rcases Subscriber.offer_cases item sub with ⟨he, -⟩ | ⟨-, hw, hk⟩ | ⟨-, hq⟩
    · simp [he] at hout
    · exact Or.inl ⟨hw, hk⟩
    · exact Or.inr (le_antisymm (hi.bounded sub hsub) hq)
  · simp [SkipsOnly, puts]
  · simp [SkipsOnly]
  · simp [SkipsOnly]

end DvrBridge.World
