import DvrBridge.StreamSystem

/-! A subscriber whose queue never overflows gets every relayed item from the first keyframe on. -/
namespace DvrBridge.System
open World

/-- The relayed items. -/
def items (h : List SystemOutput) : List HubFrame := (puts (hubOf h)).map (·.item)

/-- The items from the first keyframe on. -/
def shown (h : List SystemOutput) : List HubFrame :=
  (items h).dropWhile fun item => !item.keyframe

/-- No item was dropped for subscriber `n`. -/
def NeverFull (n : Nat) (w : World) : Prop :=
  ∀ sub ∈ w.stream.subs, sub.id = n → sub.dropped = 0

/-- Subscriber `n` has been there since the beginning of the history `h`. -/
structure Gate (n : Nat) (w : World) (h : List SystemOutput) : Prop where
  subscribed : ∀ sub ∈ w.stream.subs, sub.id = n →
    received n (hubOf h) = shown h ∧ (sub.waitingKey = true ↔ shown h = [])
  behind : received n (hubOf h) <+: shown h

theorem items_append (h o : List SystemOutput) : items (h ++ o) = items h ++ items o := by
  simp [items]

theorem shown_append (h o : List SystemOutput) :
    shown (h ++ o) =
      if shown h = [] then shown o else shown h ++ items o := by
  rw [shown, items_append, List.dropWhile_append]
  simp only [List.isEmpty_iff]
  rfl

theorem received_sublist (n : Nat) (h : List SystemOutput) {item : HubFrame}
    (hi : item ∈ received n (hubOf h)) : item ∈ items h := by
  obtain ⟨put, hp, he⟩ := List.mem_filterMap.mp hi
  unfold itemFor at he
  split at he
  · cases he
    exact List.mem_map_of_mem hp
  · cases he

section
variable {n : Nat} {w w' : World} {h o : List SystemOutput}

/-- A step that relays nothing and brings no subscriber `n`. -/
theorem Gate.keep (hg : Gate n w h) (hp : puts (hubOf o) = [])
    (hsub : ∀ sub' ∈ w'.stream.subs, sub'.id = n →
      ∃ sub ∈ w.stream.subs, sub.id = n ∧ sub.waitingKey = sub'.waitingKey) :
    Gate n w' (h ++ o) := by
  have hitems : items o = [] := by simp [items, hp]
  have hrec : received n (hubOf (h ++ o)) = received n (hubOf h) := by
    rw [hubOf_append, received_append, received, received, hp, List.filterMap_nil, List.append_nil]
  have hshown : shown (h ++ o) = shown h := by
    rw [shown, items_append, hitems, List.append_nil, shown]
  refine ⟨fun sub' hs' hn => ?_, by rw [hrec, hshown]; exact hg.behind⟩
  obtain ⟨sub, hs, hid, hk⟩ := hsub sub' hs' hn
  rw [hrec, hshown, ← hk]
  exact hg.subscribed sub hs hid

/-- One more item: what it does to one subscriber. -/
theorem Gate.offered (hg : Gate n w h) (hnd : (w.stream.subs.map (·.id)).Nodup)
    {item : HubFrame} (ho : hubOf o = [.relayed (w.stream.fanOut item).2]) {sub : Subscriber}
    (hs : sub ∈ w.stream.subs) (hid : sub.id = n) (hd : (sub.offer item).1.dropped = 0) :
    received n (hubOf (h ++ o)) = shown (h ++ o) ∧
      ((sub.offer item).1.waitingKey = true ↔ shown (h ++ o) = []) := by
  have hitems : items o = [item] := by simp [items, ho, puts]
  have hshown : shown o = if item.keyframe then [item] else [] := by
    rw [shown, hitems, List.dropWhile_cons]
    cases item.keyframe <;> rfl
  obtain ⟨hrec, hwait⟩ := hg.subscribed sub hs hid
  have htook := Stream.mem_took_iff_of_mem item hnd hs
  rw [hubOf_append, received_append, ho, received_relayed, hrec, shown_append, hshown, hitems]
  rw [hid] at htook
  rcases Subscriber.offer_cases item sub with ⟨he, -, hk⟩ | ⟨he, hw, hk⟩ | ⟨he, -⟩
  · rw [if_pos (htook.mpr (by rw [he])), he]
    by_cases hnil : shown h = []
    · rw [if_pos hnil, if_pos (hk (hwait.mpr hnil)), hnil]
      simp
    · rw [if_neg hnil]
      simp
  · have hnot : n ∉ (w.stream.fanOut item).2.took := by
      rw [htook, he]
      simp
    rw [if_neg hnot, he, if_pos (hwait.mp hw), hk, hwait.mp hw]
    simp [hw]
  · rw [he] at hd
    cases hd

theorem Gate.relayed (hg : Gate n w h) (hnd : (w.stream.subs.map (·.id)).Nodup)
    {item : HubFrame} (ho : hubOf o = [.relayed (w.stream.fanOut item).2])
    (hs' : w'.stream.subs = (w.stream.fanOut item).1.subs) (hf : NeverFull n w') :
    Gate n w' (h ++ o) := by
  have hitems : items o = [item] := by simp [items, ho, puts]
  have hsubs : w'.stream.subs = w.stream.subs.map fun sub => (sub.offer item).1 := hs'
  have hone : ∀ sub ∈ w.stream.subs, sub.id = n →
      received n (hubOf (h ++ o)) = shown (h ++ o) ∧
        ((sub.offer item).1.waitingKey = true ↔ shown (h ++ o) = []) := by
    intro sub hs hid
    refine hg.offered hnd ho hs hid (hf _ ?_ ?_)
    · rw [hsubs]
      exact List.mem_map_of_mem hs
    · rw [Subscriber.offer_id, hid]
  refine ⟨fun sub' hm hn => ?_, ?_⟩
  · rw [hsubs] at hm
    obtain ⟨sub, hs, rfl⟩ := List.mem_map.mp hm
    rw [Subscriber.offer_id] at hn
    exact hone sub hs hn
  · by_cases hex : ∃ sub ∈ w.stream.subs, sub.id = n
    · obtain ⟨sub, hs, hid⟩ := hex
      rw [(hone sub hs hid).1]
    · have hnot : n ∉ (w.stream.fanOut item).2.took := by
        rw [Stream.mem_took_iff]
        rintro ⟨sub, hs, -, hid⟩
        exact hex ⟨sub, hs, hid⟩
      rw [hubOf_append, received_append, ho, received_relayed, if_neg hnot, List.append_nil,
        shown_append, hitems]
      split
      · rename_i hnil
        have := hg.behind
        rw [hnil, List.prefix_nil] at this
        rw [this]
        exact List.nil_prefix
      · exact hg.behind.trans (List.prefix_append _ _)

/-- A reader takes an item. -/
theorem Gate.get (hg : Gate n w h) {x : Nat} (hp : puts (hubOf o) = []) :
    Gate n (w.get x) (h ++ o) := by
  refine hg.keep hp fun sub' hm hn => ?_
  obtain ⟨sub, hs, rfl⟩ := List.mem_map.mp hm
  split at hn
  · rename_i hx
    exact ⟨sub, hs, hn, by simp [hx]⟩
  · rename_i hx
    exact ⟨sub, hs, hn, by simp [hx]⟩

/-- A step of the others. -/
theorem Gate.hub (hg : Gate n w h) (hnd : (w.stream.subs.map (·.id)).Nodup) {made : Nat}
    (hm : n < made) {i : Input} {os : List Relay} (hi : others made i = true)
    (hs : HubStep w w' i os) (hf : NeverFull n w') :
    Gate n w' (h ++ ((delivered i).map .delivered ++ (w.observe i os).map .hub)) := by
  have hout : hubOf ((delivered i).map .delivered ++ (w.observe i os).map .hub) =
      w.observe i os := by simp
  cases hs with
  | quiet hq hget =>
    refine hg.keep ?_ fun sub' hs' hn => ⟨sub', hq.subs ▸ hs', hn, rfl⟩
    rw [hout]
    cases i with
    | get x => exact absurd rfl (hget x)
    | _ => rfl
  | relays item _ _ _ hsubs => exact hg.relayed hnd hout hsubs hf
  | @gets sub _ _ hw =>
    rw [hw]
    refine hg.get ?_
    rw [hout, observe]
    cases w.head? sub.id <;> rfl
  | subscribes _ hsubs =>
    refine hg.keep (by rw [hout]; rfl) fun sub' hs' hn => ?_
    rw [hsubs, List.mem_append, List.mem_singleton] at hs'
    rcases hs' with hs' | rfl
    · exact ⟨sub', hs', hn, rfl⟩
    · have := of_decide_eq_true hi
      simp only at hn
      omega
  | unsubscribes hsubs =>
    refine hg.keep (by rw [hout]; rfl) fun sub' hs' hn => ⟨sub', ?_, hn, rfl⟩
    rw [hsubs] at hs'
    exact List.mem_of_mem_filter hs'

end
end DvrBridge.System
