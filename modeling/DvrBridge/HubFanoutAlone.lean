import DvrBridge.HubFanoutLaw

/-! What a subscriber gets does not depend on the other subscribers. -/
namespace DvrBridge.World
open Machine

/-- The frames and the actions of `x` itself. -/
def concerns (x : Nat) : FanInput → Bool
  | .onFrame _ _ _ => true
  | .get y => y = x
  | .subscribe y _ => y = x
  | .unsubscribe y _ => y = x

/-- `w'` is `w` as if `x` were alone. -/
structure AloneAs (x : Nat) (w w' : World) : Prop where
  sets : w'.stream.sps = w.stream.sps ∧ w'.stream.pps = w.stream.pps
  subs : w'.stream.subs = w.stream.subs.filter (·.id = x)
  objects : ∀ y ∈ w'.objects, y ∈ w.objects
  clock : w'.clock ≤ w.clock

/-- What an output adds to the queue of `x`. -/
def seenBy (x : Nat) : FanOutput → Option HubFrame
  | .relayed put => itemFor x put
  | .read _ _ => none

theorem received_eq (x : Nat) (h : List FanOutput) : received x h = h.filterMap (seenBy x) := by
  rw [received, puts, List.filterMap_filterMap]
  refine List.filterMap_congr fun o _ => ?_
  cases o <;> rfl

theorem filter_map_id (x : Nat) (f : Subscriber → Subscriber) (hf : ∀ sub, (f sub).id = sub.id)
    (subs : List Subscriber) :
    (subs.map f).filter (·.id = x) = (subs.filter (·.id = x)).map f := by
  rw [List.filter_map]
  simp [Function.comp_def, hf]

theorem AloneAs.onFrame {x : Nat} {w w' : World} (ha : AloneAs x w w') (payload : Bytes)
    (ts90k : Nat) (keyframe : Bool) :
    ∃ c o c' o', w.fanStep (.onFrame payload ts90k keyframe) = some (c, o) ∧
      w'.fanStep (.onFrame payload ts90k keyframe) = some (c', o') ∧ AloneAs x c c' ∧
      received x o' = received x o := by
  refine ⟨_, _, _, _, rfl, rfl, ?_⟩
  by_cases hn : frameNals payload = []
  · simp only [Stream.onFrame_skipped _ _ _ _ hn]
    exact ⟨⟨by simpa using ha.sets, by simpa using ha.subs, by simpa using ha.objects,
      by simpa using ha.clock⟩, trivial⟩
  · obtain ⟨⟨nals, ts, key⟩, hts, hk, hnals, he⟩ :=
      Stream.onFrame_relayed w.stream payload ts90k keyframe hn
    obtain ⟨⟨nals', ts', key'⟩, hts', hk', hnals', he'⟩ :=
      Stream.onFrame_relayed w'.stream payload ts90k keyframe hn
    obtain ⟨hsps, hpps⟩ := ha.sets
    have hsame : nals' = nals := by
      simp only at hnals hnals'
      rw [hnals, hnals']
      simp only [Stream.insertSets, Stream.cacheSets, hsps, hpps]
      rfl
    simp only at hts hk hts' hk'
    subst hts hk hts' hk' hsame
    simp only [he, he']
    refine ⟨⟨by simp [hsps, hpps], ?_, by simpa using ha.objects, by simpa using ha.clock⟩, ?_⟩
    · simp only [wakeWaiters_stream]
      rw [ha.subs, filter_map_id x _ fun sub => Subscriber.offer_id _ sub]
    · simp only [Option.map_some, Option.toList_some, received_relayed]
      congr 1
      simp only [ha.subs, List.mem_map, List.mem_filter, decide_eq_true_eq, eq_iff_iff]
      constructor
      · rintro ⟨sub, ⟨⟨hs, hx⟩, ho⟩, he⟩
        exact ⟨sub, ⟨hs, ho⟩, he⟩
      · rintro ⟨sub, ⟨hs, ho⟩, he⟩
        exact ⟨sub, ⟨⟨hs, he⟩, ho⟩, he⟩

theorem AloneAs.head? {x : Nat} {w w' : World} (ha : AloneAs x w w') : w'.head? x = w.head? x := by
  simp [World.head?, ha.subs, List.find?_filter]

/-- Of the other subscribers `x` sees nothing. -/
theorem AloneAs.dropped {x : Nat} {w w' c : World} {i : FanInput} {o : List FanOutput}
    (ha : AloneAs x w w') (hs : w.fanStep i = some (c, o)) (hk : concerns x i = false) :
    AloneAs x c w' ∧ received x o = [] := by
  cases i with
  | onFrame payload ts90k keyframe => cases hk
  | get y =>
    simp only [fanStep, Option.map_eq_some_iff, Prod.mk.injEq] at hs
    obtain ⟨item, -, rfl, rfl⟩ := hs
    have hy : y ≠ x := by simpa [concerns] using hk
    refine ⟨⟨ha.sets, ?_, ha.objects, ha.clock⟩, rfl⟩
    rw [ha.subs]
    simp only [World.get]
    rw [filter_map_id x _ fun sub => by split_ifs <;> rfl]
    refine (List.map_id' _).symm.trans (List.map_congr_left fun sub hsub => ?_)
    have hx : sub.id = x := by simpa using List.of_mem_filter hsub
    rw [if_neg (by omega)]
  | subscribe y now =>
    simp only [fanStep, Option.ite_none_right_eq_some, Option.some.injEq, Prod.mk.injEq] at hs
    obtain ⟨⟨hc, -⟩, rfl, rfl⟩ := hs
    obtain ⟨tasks, task, he⟩ := w.subscribe_eq y now
    have hy : y ≠ x := by simpa [concerns] using hk
    rw [he]
    exact ⟨⟨ha.sets, by simp [ha.subs, hy], fun z hz => List.mem_cons_of_mem y (ha.objects z hz),
      ha.clock.trans hc⟩, rfl⟩
  | unsubscribe y now =>
    simp only [fanStep, Option.ite_none_right_eq_some, Option.some.injEq, Prod.mk.injEq] at hs
    obtain ⟨hc, rfl, rfl⟩ := hs
    have hy : y ≠ x := by simpa [concerns] using hk
    refine ⟨⟨ha.sets, ?_, ha.objects, ha.clock.trans hc⟩, rfl⟩
    simp only [World.unsubscribe, ha.subs, List.filter_filter]
    refine List.filter_congr fun sub _ => ?_
    by_cases hx : sub.id = x
    · simp [hx, Ne.symm hy]
    · simp [hx]

theorem AloneAs.kept {x : Nat} {w w' c : World} {i : FanInput} {o : List FanOutput}
    (ha : AloneAs x w w') (hs : w.fanStep i = some (c, o)) (hk : concerns x i = true) :
    ∃ c' o', w'.fanStep i = some (c', o') ∧ AloneAs x c c' ∧ received x o' = received x o := by
  cases i with
  | onFrame payload ts90k keyframe =>
    obtain ⟨d, e, c', o', hd, hc', hR, he⟩ := ha.onFrame payload ts90k keyframe
    rw [hs, Option.some.injEq, Prod.mk.injEq] at hd
    obtain ⟨rfl, rfl⟩ := hd
    exact ⟨c', o', hc', hR, he⟩
  | get y =>
    simp only [fanStep, Option.map_eq_some_iff, Prod.mk.injEq] at hs
    obtain ⟨item, hi, rfl, rfl⟩ := hs
    have hy : y = x := by simpa [concerns] using hk
    subst hy
    refine ⟨w'.get y, _, by rw [fanStep, ha.head?, hi]; rfl, ⟨ha.sets, ?_, ha.objects, ha.clock⟩,
      rfl⟩
    simp only [World.get, ha.subs]
    rw [filter_map_id y _ fun sub => by split_ifs <;> rfl]
  | subscribe y now =>
    simp only [fanStep, Option.ite_none_right_eq_some, Option.some.injEq, Prod.mk.injEq] at hs
    obtain ⟨⟨hc, hn⟩, rfl, rfl⟩ := hs
    have hy : y = x := by simpa [concerns] using hk
    subst hy
    obtain ⟨tasks, task, he⟩ := w.subscribe_eq y now
    obtain ⟨tasks', task', he'⟩ := w'.subscribe_eq y now
    refine ⟨w'.subscribe y now, [],
      by rw [fanStep, if_pos ⟨ha.clock.trans hc, fun hm => hn (ha.objects y hm)⟩], ?_, rfl⟩
    rw [he, he']
    refine ⟨ha.sets, by simp [ha.subs], ?_, le_refl now⟩
    intro z hz
    rcases List.mem_cons.mp hz with rfl | hz
    · exact List.mem_cons_self
    · exact List.mem_cons_of_mem y (ha.objects z hz)
  | unsubscribe y now =>
    simp only [fanStep, Option.ite_none_right_eq_some, Option.some.injEq, Prod.mk.injEq] at hs
    obtain ⟨hc, rfl, rfl⟩ := hs
    refine ⟨w'.unsubscribe y now, [], by simp [fanStep, ha.clock.trans hc], ⟨ha.sets, ?_,
      ha.objects, le_refl now⟩, rfl⟩
    simp only [World.unsubscribe, ha.subs, List.filter_filter, Bool.and_comm]

theorem aloneAs_refl (x : Nat) (alwaysOn : Bool) (linger : ℚ) :
    AloneAs x (fresh alwaysOn linger) (fresh alwaysOn linger) :=
  ⟨⟨rfl, rfl⟩, rfl, fun _ hy => hy, le_refl _⟩

/-- A run and the same run without the other subscribers give `x` the same items. -/
theorem received_alone {alwaysOn : Bool} {linger : ℚ} {is : List FanInput} {w : World}
    {h : List FanOutput} (x : Nat) (hr : run fanStep (fresh alwaysOn linger) is = some (w, h)) :
    ∃ w' h', run fanStep (fresh alwaysOn linger) (is.filter (concerns x)) = some (w', h') ∧
      received x h' = received x h := by
  obtain ⟨w', h', hr', -, he⟩ := run_filter (AloneAs x) (concerns x) (seenBy x)
    (fun s s' i c o ha hs hk => by simpa only [received_eq] using ha.kept hs hk)
    (fun s s' i c o ha hs hk => by simpa only [received_eq] using ha.dropped hs hk)
    (aloneAs_refl x alwaysOn linger) hr
  exact ⟨w', h', hr', by rw [received_eq, received_eq, he]⟩

/-- In every run each subscriber's queue obeys the fan-out law, every frame with a NAL is offered
once and passes a subscriber by only for its own gate or its own full queue, and a run with the same
frames and the same actions of `x` gives `x` the same items, whatever the others do. -/
theorem fan_out_law (alwaysOn : Bool) (linger : ℚ) (is : List FanInput) (w : World)
    (h : List FanOutput) (hr : run fanStep (fresh alwaysOn linger) is = some (w, h)) :
    (∀ x, FanOutLaw x w h) ∧
    EveryStep fanStep (fun c _ i _ o => c.Offers i o ∧ c.SkipsOnly o) (fresh alwaysOn linger) is ∧
    ∀ x js w' h', run fanStep (fresh alwaysOn linger) js = some (w', h') →
      is.filter (concerns x) = js.filter (concerns x) → received x h = received x h' := by
  refine ⟨?_, ?_, ?_⟩
  · exact (run_invariant' FanInv (fanInv_fresh alwaysOn linger)
      (fun _ _ _ _ _ hi hs => hi.step hs) hr).law
  · exact everyStep_of_invariant (Q := fun _ _ _ _ _ => True) FanInv
      (fanInv_fresh alwaysOn linger) (fun _ _ _ _ _ hi hs _ => hi.step hs)
      (fun _ _ _ _ _ hi hs _ => ⟨offers_step hs, hi.skipsOnly hs⟩)
      (fun _ _ _ _ _ _ _ _ _ _ => trivial)
  · intro x js w' h' hr' hv
    obtain ⟨w₁, h₁, hr₁, he₁⟩ := received_alone x hr
    obtain ⟨w₂, h₂, hr₂, he₂⟩ := received_alone x hr'
    rw [hv, hr₂, Option.some.injEq, Prod.mk.injEq] at hr₁
    rw [← he₁, ← he₂, hr₁.2]

/-- Two viewers, the second of whom joins after the keyframe. -/
def lateJoin : List FanInput :=
  [.subscribe 0 0, .onFrame [0, 0, 1, 0x65] 0 true, .subscribe 1 0,
    .onFrame [0, 0, 1, 0x41] 3600 false, .get 0, .onFrame [0, 0, 1, 0x65] 7200 true]

theorem lateJoin_run :
    run fanStep (fresh false 10) lateJoin = some
      ((run fanStep (fresh false 10) lateJoin).get (by decide +kernel)) := by
  rw [Option.some_get]

theorem fan_out_law_late_join :
    received 1 ((run fanStep (fresh false 10) lateJoin).get (by decide +kernel)).2 =
      [⟨[[0x65]], 7200, true⟩] ∧
    (∀ x, FanOutLaw x ((run fanStep (fresh false 10) lateJoin).get (by decide +kernel)).1
      ((run fanStep (fresh false 10) lateJoin).get (by decide +kernel)).2) ∧
    EveryStep fanStep (fun c _ i _ o => c.Offers i o ∧ c.SkipsOnly o) (fresh false 10) lateJoin :=
  have h := fan_out_law false 10 lateJoin _ _ lateJoin_run
  ⟨by decide +kernel, h.1, h.2.1⟩

end DvrBridge.World
