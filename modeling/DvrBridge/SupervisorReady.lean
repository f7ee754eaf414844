import DvrBridge.SupervisorKeyframe

/-! Which connection the parameter sets of a ready stream come from. -/
namespace DvrBridge.World
open Machine H264

/-- The driver instance of `k` yielded a frame with this parameter set. -/
def DeliveredSet (k : RunTask) (t : Int) : Option Bytes → Prop
  | some n => n ≠ [] ∧ nalType n = t ∧ ∃ f ∈ k.driver.yielded, n ∈ frameNals f.payload
  | none => False

def DeliveredSets (k : RunTask) (sps pps : Option Bytes) : Prop :=
  DeliveredSet k nalSps sps ∧ DeliveredSet k nalPps pps

/-- A ready stream has both parameter sets, received from a driver instance that is connected. -/
def ReadySets (w : World) : Prop :=
  w.stream.ready = true → ∃ k ∈ w.tasks, Connected k ∧ DeliveredSets k w.stream.sps w.stream.pps

/-- A relayed frame makes no pair of parameter sets with a set of an earlier connection. -/
def PairsOwnSets (w : World) : Input → Prop
  | .run t _ _ (.frame f _) =>
    ∀ k, w.tasks[t]? = some k → frameNals f.payload ≠ [] →
      let sps := Stream.cacheSet nalSps w.stream.sps (frameNals f.payload)
      let pps := Stream.cacheSet nalPps w.stream.pps (frameNals f.payload)
      truthy sps = true → truthy pps = true →
        DeliveredSets { k with driver := { k.driver with yielded := k.driver.yielded ++ [f] } }
          sps pps
  | _ => True

theorem truthy_eq_true_iff (set : Option Bytes) :
    truthy set = true ↔ ∃ n, set = some n ∧ n ≠ [] := by
  rcases set with _ | _ | ⟨b, bs⟩ <;> simp [truthy]

theorem DeliveredSet.truthy {k : RunTask} {t : Int} {set : Option Bytes}
    (h : DeliveredSet k t set) : truthy set = true := by
  cases set with
  | none => cases h
  | some n => exact (truthy_eq_true_iff _).mpr ⟨n, rfl, h.1⟩

theorem DeliveredSet.mono {k k' : RunTask} {t : Int} {set : Option Bytes}
    (h : DeliveredSet k t set) (hy : ∀ f ∈ k.driver.yielded, f ∈ k'.driver.yielded) :
    DeliveredSet k' t set := by
  cases set with
  | none => cases h
  | some n =>
    obtain ⟨hn, ht, f, hf, hm⟩ := h
    exact ⟨hn, ht, f, hy f hf, hm⟩

theorem DeliveredSets.mono {k k' : RunTask} {sps pps : Option Bytes}
    (h : DeliveredSets k sps pps) (hy : ∀ f ∈ k.driver.yielded, f ∈ k'.driver.yielded) :
    DeliveredSets k' sps pps :=
  ⟨h.1.mono hy, h.2.mono hy⟩

/-- A frame's NALs replace a parameter set or leave it. -/
theorem cacheSet_cases (t : Int) (cached : Option Bytes) (nals : List Bytes) :
    Stream.cacheSet t cached nals = cached ∨ ∃ n ∈ nals, Stream.cacheSet t cached nals = some n := by
  unfold Stream.cacheSet
  induction nals generalizing cached with
  | nil => exact Or.inl rfl
  | cons m nals ih =>
    rw [List.foldl_cons]
    rcases ih (if nalType m = t then some m else cached) with he | ⟨n, hn, he⟩
    · rw [he]
      split_ifs
      · exact Or.inr ⟨m, List.mem_cons_self, rfl⟩
      · exact Or.inl rfl
    · exact Or.inr ⟨n, List.mem_cons_of_mem m hn, he⟩

theorem truthy_cacheSet {cached : Option Bytes} (t : Int) (payload : Bytes)
    (h : truthy cached = true) :
    truthy (Stream.cacheSet t cached (frameNals payload)) = true := by
  rcases cacheSet_cases t cached (frameNals payload) with he | ⟨n, hn, he⟩
  · rw [he]
    exact h
  · rw [he, truthy_eq_true_iff]
    exact ⟨n, rfl, by simpa using (List.mem_filter.mp hn).2⟩

theorem frameResult_sets (w : World) (k : RunTask) {f : VideoFrame} (info : StreamInfo) (now : ℚ)
    (hn : frameNals f.payload ≠ []) :
    (w.frameResult k f info now).1.sps =
      Stream.cacheSet nalSps w.stream.sps (frameNals f.payload) ∧
    (w.frameResult k f info now).1.pps =
      Stream.cacheSet nalPps w.stream.pps (frameNals f.payload) ∧
    (w.frameResult k f info now).1.ready = (w.stream.ready ||
      (truthy (Stream.cacheSet nalSps w.stream.sps (frameNals f.payload)) &&
        truthy (Stream.cacheSet nalPps w.stream.pps (frameNals f.payload)))) := by
  obtain ⟨item, -, -, -, he⟩ := Stream.onFrame_relayed { w.stream with info := info }
    f.payload (k.mapper.map f.tsMs now).rtp f.keyframe hn
  rw [frameResult, he]
  exact ⟨rfl, rfl, rfl⟩

/-- The task after a frame is connected to the same driver instance. -/
theorem frame_task (w : World) (t : Nat) (k : RunTask) (f : VideoFrame) (info : StreamInfo)
    (now₁ now₂ : ℚ) :
    ∃ k', (w.frame t k f info now₁ now₂).1.tasks = w.tasks.set t k' ∧ Connected k' ∧
      k'.driver = { k.driver with yielded := k.driver.yielded ++ [f] } := by
  refine ⟨_, w.frame_tasks t k f info now₁ now₂, ?_, rfl⟩
  unfold Connected
  simp only
  split <;> simp

/-- A step of the task behind `k` that changes neither the parameter sets nor the flag, unless it
clears the flag. -/
theorem ReadySets.set {w w' : World} {t : Nat} {k k' : RunTask} (h : w.ReadySets)
    (hk : w.tasks[t]? = some k) (htasks : w'.tasks = w.tasks.set t k')
    (hready : w'.stream.ready = true → w.stream.ready = true ∧
      w'.stream.sps = w.stream.sps ∧ w'.stream.pps = w.stream.pps)
    (hc : Connected k → Connected k' ∧ ∀ f ∈ k.driver.yielded, f ∈ k'.driver.yielded) :
    w'.ReadySets := by
  intro hr
  obtain ⟨hr, hsps, hpps⟩ := hready hr
  obtain ⟨m, hm, hcm, hd⟩ := h hr
  rw [hsps, hpps, htasks]
  rcases mem_set_of_mem hk hm with rfl | hm
  · obtain ⟨hc', hy⟩ := hc hcm
    exact ⟨k', List.mem_set (List.getElem?_eq_some_iff.mp hk).1 _, hc', hd.mono hy⟩
  · exact ⟨m, hm k', hcm, hd⟩

theorem ReadySets.callStep {w w' : World} (h : w.ReadySets) (hs : CallStep w w') :
    w'.ReadySets := by
  intro hr
  obtain ⟨k, hk, hc, hd⟩ := h (hs.ready ▸ hr)
  rw [hs.sets.1, hs.sets.2]
  rcases hs.kept k hk with hk' | hk'
  · exact ⟨k, hk', hc, hd⟩
  · exact ⟨_, hk', hc, hd⟩

theorem ReadySets.runStep {w w' : World} {t : Nat} {k : RunTask} {now₁ now₂ : ℚ} {r : RunInput}
    {o : List Relay} (h : w.ReadySets) (hk : w.tasks[t]? = some k)
    (hr : RunStep w t k now₁ now₂ r w' o) (hcond : w.PairsOwnSets (.run t now₁ now₂ r)) :
    w'.ReadySets := by
  cases hr with
  | cancelAway | leaveLoop | leaveIdle | leaveCancelled | leaveFailed | retry =>
    intro hready
    cases hready
  | cancelCreated _ hp =>
    exact h.set hk rfl (fun hready => ⟨hready, rfl, rfl⟩) (fun hc => by simp [Connected, hp] at hc)
  | cancelNext =>
    exact h.set hk rfl (fun hready => ⟨hready, rfl, rfl⟩)
      (fun _ => ⟨Or.inr ⟨_, rfl⟩, fun _ hf => hf⟩)
  | failed =>
    exact h.set hk rfl (fun hready => ⟨hready, rfl, rfl⟩)
      (fun _ => ⟨Or.inr ⟨_, rfl⟩, fun _ hf => hf⟩)
  | connect hh =>
    refine h.set hk rfl (fun hready => ⟨hready, rfl, rfl⟩) (fun hc => ?_)
    rcases hh.pc with hp | hp <;> simp [Connected, hp] at hc
  | frame f info hp =>
    obtain ⟨k', htasks, hc', hd'⟩ := w.frame_task t k f info now₁ now₂
    by_cases hn : frameNals f.payload = []
    · refine h.set hk htasks ?_ fun _ => ⟨hc', fun g hg => by simp [hd', hg]⟩
      rw [frame_stream, frameResult, Stream.onFrame_skipped _ _ _ _ hn]
      exact fun hready => ⟨hready, rfl, rfl⟩
    · obtain ⟨hsps, hpps, hrdy⟩ := w.frameResult_sets k info now₁ hn
      intro hready
      rw [frame_stream, hrdy, Bool.or_eq_true, Bool.and_eq_true] at hready
      rw [htasks, frame_stream, hsps, hpps]
      refine ⟨k', List.mem_set (List.getElem?_eq_some_iff.mp hk).1 _, hc', ?_⟩
      -- a stream that was ready has two sets, and a frame takes none away
      have hboth : truthy (Stream.cacheSet nalSps w.stream.sps (frameNals f.payload)) = true ∧
          truthy (Stream.cacheSet nalPps w.stream.pps (frameNals f.payload)) = true := by
        rcases hready with hready | hready
        · obtain ⟨m, -, -, hs, hp⟩ := h hready
          exact ⟨truthy_cacheSet nalSps f.payload hs.truthy,
            truthy_cacheSet nalPps f.payload hp.truthy⟩
        · exact hready
      exact (hcond k hk hn hboth.1 hboth.2).mono fun g hg => by simpa [hd'] using hg

theorem ReadySets.step {w w' : World} {i : Input} {o : List Relay} (h : w.ReadySets)
    (hs : w.step i = some (w', o)) (hcond : w.PairsOwnSets i) : w'.ReadySets := by
  rcases step_cases hs with ⟨t, now₁, now₂, r, k, rfl, hk, -, -, hr⟩ | ⟨-, -, hcall⟩
  · exact ReadySets.runStep (w := { w with clock := now₂ }) h hk hr hcond
  · exact h.callStep hcall

/-- With one generator open, a ready stream with own sets was made by a frame that pairs them. -/
theorem pairsOwnSets_of_ready {w w' : World} {i : Input} {o : List Relay}
    (hs : w.step i = some (w', o)) (hone : w'.OneOpen) (hr : w'.ReadySets) : w.PairsOwnSets i := by
  unfold PairsOwnSets
  split
  · rename_i t now₁ now₂ f info
    intro k hk hn sps pps hsps hpps
    obtain ⟨k', hk', -, -, hrun⟩ := step_run hs
    rw [hk, Option.some.injEq] at hk'
    subst hk'
    cases hrun with
    | leaveLoop hh => exact absurd rfl (hh.not_frame f info)
    | connect hh => exact absurd rfl (hh.not_frame f info)
    | frame =>
      obtain ⟨k', htasks, hc', hd'⟩ :=
        ({ w with clock := now₂ } : World).frame_task t k f info now₁ now₂
      obtain ⟨hs₁, hs₂, hrdy⟩ := ({ w with clock := now₂ } : World).frameResult_sets k info now₁ hn
      have hready : (({ w with clock := now₂ } : World).frame t k f info now₁ now₂).1.stream.ready
          = true := by
        rw [frame_stream, hrdy, Bool.or_eq_true, Bool.and_eq_true]
        exact Or.inr ⟨hsps, hpps⟩
      obtain ⟨m, hm, hcm, hd⟩ := hr hready
      obtain ⟨u, hu⟩ := List.mem_iff_getElem?.mp hm
      have ht : (({ w with clock := now₂ } : World).frame t k f info now₁ now₂).1.tasks[t]? =
          some k' := by
        rw [htasks, List.getElem?_set_self (List.getElem?_eq_some_iff.mp hk).1]
      have hut := hone u t m k' hu ht hcm hc'
      subst hut
      rw [ht, Option.some.injEq] at hu
      subst hu
      rw [frame_stream, hs₁, hs₂] at hd
      exact hd.mono fun g hg => by simpa [hd'] using hg
  · trivial

theorem readySets_fresh (alwaysOn : Bool) (linger : ℚ) : (fresh alwaysOn linger).ReadySets := by
  simp [ReadySets, fresh]

/-- In every run in which no relayed frame pairs a parameter set with one of an earlier
connection, a ready stream advertises the sets of a connected driver. Without `stop` the two are
equivalent. -/
theorem ready_sets_iff_pairs_own_sets (alwaysOn : Bool) (linger : ℚ) (is : List Input) :
    (EveryStep step (fun w _ i _ _ => w.PairsOwnSets i) (fresh alwaysOn linger) is →
      EveryStep step (fun _ _ _ w' _ => w'.ReadySets) (fresh alwaysOn linger) is) ∧
    ((∀ i ∈ is, i ≠ .stop) →
      (EveryStep step (fun _ _ _ w' _ => w'.ReadySets) (fresh alwaysOn linger) is ↔
        EveryStep step (fun w _ i _ _ => w.PairsOwnSets i) (fresh alwaysOn linger) is)) := by
  constructor
  · exact everyStep_of_invariant (fun w _ => w.ReadySets) (readySets_fresh alwaysOn linger)
      (fun w _ i w' o hw hs hc => hw.step hs hc) (fun w _ i w' o hw hs hc => hw.step hs hc)
  · intro hstop
    refine everyStep_iff (fun w _ => w.Sole ∧ w.ReadySets)
      ⟨fresh_sole alwaysOn linger, readySets_fresh alwaysOn linger⟩ ?_ ?_
      (everyStep_of_forall_mem hstop)
    · rintro w _ i w' o ⟨hsole, hw⟩ hs hi hc
      exact ⟨(hsole.step hs hi).1, hw.step hs hc⟩
    · rintro w _ i w' o ⟨hsole, hw⟩ hs hi
      exact ⟨pairsOwnSets_of_ready hs (hsole.step hs hi).1.oneOpen, hw.step hs⟩

instance (k : RunTask) (t : Int) (set : Option Bytes) : Decidable (DeliveredSet k t set) :=
  match set with
  | some n => inferInstanceAs
      (Decidable (n ≠ [] ∧ nalType n = t ∧ ∃ f ∈ k.driver.yielded, n ∈ frameNals f.payload))
  | none => inferInstanceAs (Decidable False)

instance (k : RunTask) : Decidable (Connected k) :=
  decidable_of_iff (k.pc = .next ∨ ∃ why ∈ [Closing.idle, .failed, .cancelled],
    k.pc = .closing why) (by
      constructor
      · rintro (h | ⟨why, -, h⟩)
        · exact Or.inl h
        · exact Or.inr ⟨why, h⟩
      · rintro (h | ⟨why, h⟩)
        · exact Or.inl h
        · exact Or.inr ⟨why, by cases why <;> simp, h⟩)

instance (w : World) : Decidable w.ReadySets :=
  inferInstanceAs (Decidable (w.stream.ready = true → ∃ k ∈ w.tasks, Connected k ∧
    DeliveredSet k nalSps w.stream.sps ∧ DeliveredSet k nalPps w.stream.pps))

/-- A session with SPS and PPS ends idle; the first frame of the next one holds neither. -/
def idleRestart : List Input :=
  [.touch 0, .run 0 0 0 .begin,
    .run 0 11 11 (.frame { payload := [0, 0, 1, 0x67, 0, 0, 1, 0x68] } {}), .run 0 11 11 .closed,
    .touch 20, .run 1 20 20 .begin] ++
  [.run 1 21 21 (.frame { payload := [0, 0, 1, 0x41] } {})]

theorem idle_restart_not_ready_sets :
    ¬ EveryStep step (fun _ _ _ w' _ => w'.ReadySets) (fresh false 10) idleRestart :=
  not_everyStep (by decide +kernel)

theorem idle_restart_ready_iff :
    EveryStep step (fun _ _ _ w' _ => w'.ReadySets) (fresh false 10) idleRestart ↔
      EveryStep step (fun w _ i _ _ => w.PairsOwnSets i) (fresh false 10) idleRestart :=
  (ready_sets_iff_pairs_own_sets false 10 idleRestart).2 (by simp [idleRestart])

end DvrBridge.World
