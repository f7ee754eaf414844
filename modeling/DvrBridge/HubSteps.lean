import DvrBridge.HubFanoutLaw

/-! A step of the event loop as the subscribers of the stream see it. -/
namespace DvrBridge.World
open H264

/-- The cached parameter sets stay, or are dropped for a new connection. -/
def SetsStay (s s' : Stream) : Prop :=
  s'.sps = s.sps ∧ s'.pps = s.pps ∨ s'.sps = none ∧ s'.pps = none

/-- What is neither a relayed frame nor a call of the subscriber API. -/
structure Quiet (w w' : World) : Prop where
  subs : w'.stream.subs = w.stream.subs
  objects : w'.objects = w.objects
  sets : SetsStay w.stream w'.stream

inductive HubStep (w w' : World) : Input → List Relay → Prop
  | quiet {i : Input} : Quiet w w' → (∀ x, i ≠ .get x) →
      (∀ t now₁ now₂ f info, i = .run t now₁ now₂ (.frame f info) → frameNals f.payload = []) →
      HubStep w w' i []
  | relays {t : Nat} {now₁ now₂ : ℚ} {f : VideoFrame} {info : StreamInfo} {conn : Nat}
      (item : HubFrame) : frameNals f.payload ≠ [] → item.keyframe = f.keyframe →
      item.nals =
        (w.stream.cacheSets (frameNals f.payload)).insertSets f.keyframe (frameNals f.payload) →
      w'.stream.subs = (w.stream.fanOut item).1.subs → w'.objects = w.objects →
      w'.stream.sps = Stream.cacheSet nalSps w.stream.sps (frameNals f.payload) →
      w'.stream.pps = Stream.cacheSet nalPps w.stream.pps (frameNals f.payload) →
      HubStep w w' (.run t now₁ now₂ (.frame f info)) [⟨conn, (w.stream.fanOut item).2⟩]
  | gets {sub : Subscriber} : sub ∈ w.stream.subs → sub.queue ≠ [] → w' = w.get sub.id →
      HubStep w w' (.get sub.id) []
  | subscribes {x : Nat} {now : ℚ} : x ∉ w.objects →
      w'.stream.subs = w.stream.subs ++ [{ id := x }] → w'.objects = x :: w.objects →
      SetsStay w.stream w'.stream → HubStep w w' (.subscribe x now) []
  | unsubscribes {x : Nat} {now : ℚ} : w'.stream.subs = w.stream.subs.filter (·.id ≠ x) →
      w'.objects = w.objects → SetsStay w.stream w'.stream → HubStep w w' (.unsubscribe x now) []

theorem setsStay_refl (s : Stream) : SetsStay s s := .inl ⟨rfl, rfl⟩

theorem quiet_ensureRunning {w w' : World} (h : Quiet w w') : Quiet w w'.ensureRunning := by
  obtain ⟨tasks, task, he⟩ := ensureRunning_eq w'
  rw [he]
  exact ⟨h.subs, h.objects, h.sets⟩

theorem quiet_touch (w : World) (now : ℚ) : Quiet w (w.touch now) :=
  quiet_ensureRunning ⟨rfl, rfl, setsStay_refl _⟩

theorem quiet_waitReady (w : World) (id : Nat) (now : ℚ) : Quiet w (w.waitReady id now) := by
  have ht := quiet_touch w now
  simp only [waitReady]
  split
  · exact ht
  · exact ⟨ht.subs, ht.objects, ht.sets⟩

theorem quiet_stop (w : World) : Quiet w w.stop := by
  unfold stop
  split
  · exact ⟨rfl, rfl, setsStay_refl _⟩
  · split
    · exact ⟨rfl, rfl, setsStay_refl _⟩
    · split <;> exact ⟨rfl, rfl, setsStay_refl _⟩

/-- Only a frame can relay. -/
theorem RunStep.quiet {w w' : World} {t : Nat} {k : RunTask} {now₁ now₂ : ℚ} {r : RunInput}
    {o : List Relay} (h : RunStep w t k now₁ now₂ r w' o) (hf : ∀ f info, r ≠ .frame f info) :
    Quiet w w' ∧ o = [] := by
  cases h with
  | frame f info => exact absurd rfl (hf f info)
  | retry => exact ⟨⟨rfl, rfl, .inr ⟨rfl, rfl⟩⟩, rfl⟩
  | _ => exact ⟨⟨rfl, rfl, setsStay_refl _⟩, rfl⟩

theorem hubStep_frame {w w' : World} {t : Nat} {k : RunTask} {now₁ now₂ : ℚ} {f : VideoFrame}
    {info : StreamInfo} {o : List Relay}
    (h : RunStep { w with clock := now₂ } t k now₁ now₂ (.frame f info) w' o) :
    HubStep w w' (.run t now₁ now₂ (.frame f info)) o := by
  generalize hi : RunInput.frame f info = r at h
  cases h with
  | frame g info' =>
    cases hi
    have hobj : (({ w with clock := now₂ } : World).frame t k f info now₁ now₂).1.objects =
        w.objects := by simp [World.frame, setTask]
    by_cases hn : frameNals f.payload = []
    · have hskip := Stream.onFrame_skipped { w.stream with info := info } f.payload
        (k.mapper.map f.tsMs now₁).rtp f.keyframe hn
      rw [frame_relays, frameResult, hskip]
      refine .quiet ⟨?_, hobj, ?_⟩ (by simp) (by rintro _ _ _ _ _ ⟨⟩; exact hn)
      · rw [frame_stream, frameResult, hskip]
      · rw [frame_stream, frameResult, hskip]
        exact setsStay_refl _
    · obtain ⟨item, -, hk, hnals, he⟩ := Stream.onFrame_relayed { w.stream with info := info }
        f.payload (k.mapper.map f.tsMs now₁).rtp f.keyframe hn
      rw [frame_relays, frameResult, he]
      refine .relays item hn hk hnals ?_ hobj ?_ ?_
      · rw [frame_stream, frameResult, he]
        rfl
      · rw [frame_stream, frameResult, he]
      · rw [frame_stream, frameResult, he]
  | leaveLoop hd | connect hd => exact absurd hi.symm (hd.not_frame f info)
  | _ => cases hi

/-- The inversion lemma of a step for the subscribers. -/
theorem hubStep_of_step {w w' : World} {i : Input} {o : List Relay}
    (h : w.step i = some (w', o)) : HubStep w w' i o := by
  cases step_inv h with
  | @run t k now₁ now₂ r _ _ hk _ _ hrun =>
    have hr := runStep_inv hrun
    by_cases hf : ∃ f info, r = .frame f info
    · obtain ⟨f, info, rfl⟩ := hf
      exact hubStep_frame hr
    · obtain ⟨hq, rfl⟩ := hr.quiet fun f info he => hf ⟨f, info, he⟩
      refine .quiet ⟨hq.subs, hq.objects, hq.sets⟩ (by simp) ?_
      rintro _ _ _ f info ⟨⟩
      exact absurd ⟨f, info, rfl⟩ hf
  | @subscribe x now _ hx =>
    obtain ⟨tasks, task, he⟩ := w.subscribe_eq x now
    rw [he]
    exact .subscribes hx rfl rfl (setsStay_refl _)
  | unsubscribe => exact .unsubscribes rfl rfl (setsStay_refl _)
  | get hany =>
    obtain ⟨sub, hs, hp⟩ := List.any_eq_true.mp hany
    obtain ⟨rfl, hq⟩ := of_decide_eq_true hp
    exact .gets hs hq rfl
  | @touch now => exact .quiet (quiet_touch w now) (by simp) (by simp)
  | @waitReady id now => exact .quiet (quiet_waitReady w id now) (by simp) (by simp)
  | resumed | waitTimeout | stopResumed =>
    exact .quiet ⟨rfl, rfl, setsStay_refl _⟩ (by simp) (by simp)
  | stop => exact .quiet (quiet_stop w) (by simp) (by simp)

/-- What a step shows of the queues. -/
def observe (w : World) : Input → List Relay → List FanOutput
  | .get x, _ => ((w.head? x).map (.read x)).toList
  | _, o => o.map fun r => .relayed r.put

theorem head?_of_mem {w : World} {sub : Subscriber} (hn : (w.stream.subs.map (·.id)).Nodup)
    (hs : sub ∈ w.stream.subs) : w.head? sub.id = sub.queue.head? := by
  have hsome : (w.stream.subs.find? (·.id = sub.id)).isSome := by
    rw [List.find?_isSome]
    exact ⟨sub, hs, by simp⟩
  obtain ⟨top, htop⟩ := Option.isSome_iff_exists.mp hsome
  have hid : top.id = sub.id := by simpa using List.find?_some htop
  have := List.inj_on_of_nodup_map hn (List.mem_of_find?_eq_some htop) hs hid
  rw [World.head?, htop, Option.bind_some, this]

/-- The fan-out law along the steps of the event loop. -/
theorem FanInv.observed {w w' : World} {i : Input} {h : List FanOutput} {o : List Relay}
    (hi : FanInv w h) (hs : HubStep w w' i o) : FanInv w' (h ++ w.observe i o) := by
  cases hs with
  | quiet hq hg =>
    have ho : w.observe i [] = [] := by
      cases i with
      | get x => exact absurd rfl (hg x)
      | _ => rfl
    rw [ho, List.append_nil]
    exact hi.congr hq.subs hq.objects
  | relays item _ _ _ hsubs hobj => exact hi.relayed item hsubs hobj
  | gets hs hq hw =>
    have hhead := head?_of_mem hi.nodup hs
    rw [List.head?_eq_some_head hq] at hhead
    rw [observe, hhead, hw]
    exact hi.get hhead
  | subscribes hx hsubs hobj =>
    change FanInv w' (h ++ [])
    rw [List.append_nil]
    exact hi.subscribe hx hsubs hobj
  | unsubscribes hsubs hobj =>
    change FanInv w' (h ++ [])
    rw [List.append_nil]
    exact hi.unsubscribe hsubs hobj

end DvrBridge.World
