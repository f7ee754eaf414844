import DvrBridge.SupervisorServed

/-! What a subscriber gets of a new device connection: whether it begins with a keyframe. -/
namespace DvrBridge.World
open Machine

/-- The newly relayed non-keyframes go only to subscribers that got a keyframe of the same
connection before. -/
def KeyFirst (h o : List Relay) : Prop :=
  ∀ r ∈ o, r.put.item.keyframe = false → ∀ x ∈ r.put.took,
    ∃ r' ∈ h, r'.conn = r.conn ∧ r'.put.item.keyframe = true ∧ x ∈ r'.put.took

/-- No frame that the driver instance yielded so far had a NAL. -/
def NothingRelayed (k : RunTask) : Prop := ∀ g ∈ k.driver.yielded, frameNals g.payload = []

/-- The first relayed frame of a connection is a keyframe, or every subscriber waits for one or
has a full queue. -/
def StartsDecodable (w : World) : Input → Prop
  | .run t _ _ (.frame f _) =>
    ∀ k, w.tasks[t]? = some k → NothingRelayed k → frameNals f.payload ≠ [] →
      f.keyframe = true ∨
      ∀ sub ∈ w.stream.subs, sub.waitingKey = true ∨ queueMax ≤ sub.queue.length
  | _ => True

/-- A subscriber that takes what comes has a keyframe of each connection that has relayed. -/
structure Keyed (w : World) (h : List Relay) : Prop where
  serials : Serials w h
  relayed : ∀ (t : Nat) (k : RunTask), w.tasks[t]? = some k → Connected k → NothingRelayed k →
    ∀ r ∈ h, r.conn ≠ k.driver.serial
  keyed : ∀ (t : Nat) (k : RunTask), w.tasks[t]? = some k → Connected k → ¬ NothingRelayed k →
    ∀ sub ∈ w.stream.subs, sub.waitingKey = false →
      ∃ r ∈ h, r.conn = k.driver.serial ∧ r.put.item.keyframe = true ∧ sub.id ∈ r.put.took

/-- A relayed frame is one item offered to every subscriber. -/
theorem frameResult_fanOut {w : World} {k : RunTask} {f : VideoFrame} {info : StreamInfo}
    {now : ℚ} {put : Put} (h : (w.frameResult k f info now).2 = some put) :
    ∃ item : HubFrame, item.keyframe = f.keyframe ∧ put = (w.stream.fanOut item).2 ∧
      (w.frameResult k f info now).1.subs =
        w.stream.subs.map fun sub => (sub.offer item).1 := by
  unfold frameResult at h ⊢
  rcases Stream.onFrame_fanOut { w.stream with info := info } f.payload
    (k.mapper.map f.tsMs now).rtp f.keyframe with he | ⟨item, hk, hsubs, hput⟩
  · rw [he] at h
    cases h
  · rw [hput, Option.some.injEq] at h
    exact ⟨item, hk, h.symm, hsubs⟩

theorem frameResult_none {w : World} {k : RunTask} {f : VideoFrame} {info : StreamInfo} {now : ℚ}
    (h : (w.frameResult k f info now).2 = none) :
    (w.frameResult k f info now).1.subs = w.stream.subs := by
  unfold frameResult at h ⊢
  rcases Stream.onFrame_fanOut { w.stream with info := info } f.payload
    (k.mapper.map f.tsMs now).rtp f.keyframe with he | ⟨item, -, -, hput⟩
  · rw [he]
  · rw [hput] at h
    cases h

/-- Only a relayed frame opens a subscriber's gate. -/
theorem gate_step {w w' : World} {i : Input} (hstep : w.step i = some (w', [])) :
    NoGateOpened w.stream w'.stream := by
  rcases step_cases hstep with ⟨t, now₁, now₂, r, k, -, -, -, -, hr⟩ | ⟨-, -, hcall⟩
  · generalize ho : ([] : List Relay) = o at hr
    cases hr with
    | frame f info =>
      rw [frame_relays] at ho
      have hnone : (({ w with clock := now₂ } : World).frameResult k f info now₁).2 = none := by
        cases hput : (({ w with clock := now₂ } : World).frameResult k f info now₁).2 with
        | none => rfl
        | some put => simp [hput] at ho
      refine noGateOpened_of_subs ?_
      rw [frame_stream, frameResult_none hnone]
    | _ => exact noGateOpened_of_subs rfl
  · exact hcall.gates

theorem keyed_fresh (alwaysOn : Bool) (linger : ℚ) : Keyed (fresh alwaysOn linger) [] :=
  ⟨serials_fresh alwaysOn linger, by simp, by simp [fresh]⟩

/-- A connection whose frames all had no NAL has relayed nothing. -/
theorem Keyed.relayed_step {w w' : World} {i : Input} {h o : List Relay} (hw : Keyed w h)
    (hstep : w.step i = some (w', o)) (t : Nat) (k' : RunTask) (hk' : w'.tasks[t]? = some k')
    (hc : Connected k') (hn : NothingRelayed k') :
    ∀ r ∈ h ++ o, r.conn ≠ k'.driver.serial := by
  intro r hr
  rcases connected_step hstep hk' hc with ⟨m, hm, hcm, -, hd, -, hne⟩ |
    ⟨hd, -, -, _, _, q, hi, hq⟩ | ⟨m, hm, f, info, _, _, hi, hpm, hd, -⟩
  · rw [hd]
    rcases List.mem_append.mp hr with hr | hr
    · exact hw.relayed t m hm hcm (by simpa only [NothingRelayed, hd] using hn) r hr
    · rcases step_relays hstep with ⟨rfl, -⟩ | ⟨u, _, _, g, _, k, put, hi, hk, hp, -, -, -, rfl⟩
      · cases hr
      · rw [List.mem_singleton] at hr
        subst hr
        intro he
        have htu := hw.serials.inj u t k m hk hm (Or.inl hp) hcm he
        exact absurd (htu ▸ hi) (hne _ _ g _)
  · rw [hd]
    rcases List.mem_append.mp hr with hr | hr
    · exact (hw.serials.conn_lt r hr).ne
    · rcases step_relays hstep with ⟨rfl, -⟩ | ⟨_, _, _, g, info, _, _, hi', -, -, -, -, -, -⟩
      · cases hr
      · rw [hi] at hi'
        cases hi'
        exact absurd rfl (hq g info)
  · have hf : frameNals f.payload = [] := hn f (by simp [hd])
    have hm' : NothingRelayed m := fun g hg => hn g (by simp [hd, hg])
    rw [hd]
    rcases List.mem_append.mp hr with hr | hr
    · exact hw.relayed t m hm (Or.inl hpm) hm' r hr
    · rcases step_relays hstep with ⟨rfl, -⟩ | ⟨_, _, _, g, _, _, _, hi', -, -, hg, -, -, -⟩
      · cases hr
      · rw [hi] at hi'
        cases hi'
        exact absurd hf hg

/-- Whom a relayed frame of task `t` reaches. -/
theorem Keyed.reaches {w : World} {h : List Relay} (hw : Keyed w h) {t : Nat} {k : RunTask}
    (hk : w.tasks[t]? = some k) (hp : k.pc = .next) {f : VideoFrame} {info : StreamInfo}
    {now₁ now₂ : ℚ} (hn : frameNals f.payload ≠ [])
    (hc : w.StartsDecodable (.run t now₁ now₂ (.frame f info))) {item : HubFrame}
    (hkey : item.keyframe = f.keyframe) {sub : Subscriber} (hs : sub ∈ w.stream.subs)
    (ho : (sub.offer item).2 = true) :
    item.keyframe = true ∨
    ∃ r ∈ h, r.conn = k.driver.serial ∧ r.put.item.keyframe = true ∧ sub.id ∈ r.put.took := by
  cases hi : item.keyframe with
  | true => exact Or.inl rfl
  | false =>
    refine Or.inr ?_
    rcases Subscriber.offer_cases item sub with ⟨-, hq, hwait⟩ | ⟨he, -⟩ | ⟨he, -⟩
    · have hopen : sub.waitingKey = false := by
        cases hw : sub.waitingKey with
        | false => rfl
        | true => exact absurd (hwait hw) (by simp [hi])
      by_cases hnone : NothingRelayed k
      · rcases hc k hk hnone hn with hf | hall
        · rw [← hkey, hi] at hf
          cases hf
        · rcases hall sub hs with hwait' | hfull
          · simp [hopen] at hwait'
          · omega
      · exact hw.keyed t k hk (Or.inl hp) hnone sub hs hopen
    · simp [he] at ho
    · simp [he] at ho

/-- A gate that is open after a frame got this frame. -/
theorem offer_open {item : HubFrame} {sub : Subscriber}
    (h : (sub.offer item).1.waitingKey = false) : (sub.offer item).2 = true := by
  rcases Subscriber.offer_cases item sub with ⟨he, -⟩ | ⟨he, hw, -⟩ | ⟨he, -⟩
  · rw [he]
  · rw [he] at h
    simp [hw] at h
  · rw [he] at h
    cases h

theorem Keyed.keyed_step {w w' : World} {i : Input} {h o : List Relay} (hw : Keyed w h)
    (hstep : w.step i = some (w', o)) (hone : w.OneOpen) (hcond : w.StartsDecodable i) (t : Nat)
    (k' : RunTask) (hk' : w'.tasks[t]? = some k') (hc : Connected k') (hn : ¬ NothingRelayed k') :
    ∀ sub ∈ w'.stream.subs, sub.waitingKey = false → ∃ r ∈ h ++ o,
      r.conn = k'.driver.serial ∧ r.put.item.keyframe = true ∧ sub.id ∈ r.put.took := by
  rcases step_relays hstep with ⟨rfl, hskip⟩ |
    ⟨u, now₁, now₂, f, info, k, put, rfl, hk, hp, hf, hstream, hput, rfl⟩
  · intro sub hs hopen
    obtain ⟨sub₀, hs₀, hid, hopen₀⟩ := gate_step hstep sub hs hopen
    rw [List.append_nil, ← hid]
    rcases connected_step hstep hk' hc with ⟨m, hm, hcm, -, hd, -⟩ | ⟨hd, -⟩ |
      ⟨m, hm, f, info, now₁, now₂, hi, hpm, hd, -⟩
    · rw [hd]
      exact hw.keyed t m hm hcm (by simpa only [NothingRelayed, hd] using hn) sub₀ hs₀ hopen₀
    · simp [NothingRelayed, hd] at hn
    · rw [hd]
      refine hw.keyed t m hm (Or.inl hpm) (fun hm' => hn ?_) sub₀ hs₀ hopen₀
      intro g hg
      simp only [hd, List.mem_append, List.mem_singleton] at hg
      rcases hg with hg | rfl
      · exact hm' g hg
      · exact hskip t now₁ now₂ g info hi
  · obtain ⟨item, hkey, rfl, hsubs⟩ := frameResult_fanOut hput
    -- with one generator open the frame is this connection's own
    have htu : t = u ∧ k'.driver.serial = k.driver.serial := by
      rcases connected_step hstep hk' hc with ⟨m, hm, hcm, -, hd, -, -⟩ |
        ⟨-, -, -, _, _, q, hi, hq⟩ | ⟨m, hm, _, _, _, _, hi, -, hd, -⟩
      · have htu := hone t u m k hm hk hcm (Or.inl hp)
        subst htu
        rw [hm, Option.some.injEq] at hk
        exact ⟨rfl, by rw [hd, hk]⟩
      · cases hi
        exact absurd rfl (hq f info)
      · cases hi
        rw [hm, Option.some.injEq] at hk
        exact ⟨rfl, by rw [hd, ← hk]⟩
    obtain ⟨rfl, hserial⟩ := htu
    rw [hstream, hsubs]
    intro sub' hs' hopen
    obtain ⟨sub, hs, rfl⟩ := List.mem_map.mp hs'
    have ho := offer_open hopen
    rw [Subscriber.offer_id, hserial]
    rcases hw.reaches hk hp hf hcond hkey hs ho with hi | ⟨r, hr, he⟩
    · exact ⟨⟨k.driver.serial, (w.stream.fanOut item).2⟩, by simp, rfl, hi,
        Stream.mem_took_iff.mpr ⟨sub, hs, ho, rfl⟩⟩
    · exact ⟨r, List.mem_append_left _ hr, he⟩

theorem Keyed.step {w w' : World} {i : Input} {h o : List Relay} (hw : Keyed w h)
    (hstep : w.step i = some (w', o)) (hone : w.OneOpen) (hcond : w.StartsDecodable i) :
    Keyed w' (h ++ o) :=
  ⟨hw.serials.step hstep, hw.relayed_step hstep, hw.keyed_step hstep hone hcond⟩

theorem Keyed.keyFirst {w w' : World} {i : Input} {h o : List Relay} (hw : Keyed w h)
    (hstep : w.step i = some (w', o)) (hcond : w.StartsDecodable i) : KeyFirst h o := by
  rcases step_relays hstep with ⟨rfl, -⟩ |
    ⟨t, now₁, now₂, f, info, k, put, rfl, hk, hp, hf, -, hput, rfl⟩
  · simp [KeyFirst]
  · obtain ⟨item, hkey, rfl, -⟩ := frameResult_fanOut hput
    intro r hr hnk x hx
    rw [List.mem_singleton] at hr
    subst hr
    obtain ⟨sub, hs, ho, rfl⟩ := Stream.mem_took_iff.mp hx
    rcases hw.reaches hk hp hf hcond hkey hs ho with hi | he
    · rw [Stream.fanOut_item, hi] at hnk
      cases hnk
    · exact he

/-- A connection that starts with a non-keyframe while somebody takes what comes. -/
theorem Keyed.startsDecodable {w w' : World} {i : Input} {h o : List Relay} (hw : Keyed w h)
    (hstep : w.step i = some (w', o)) (hlaw : KeyFirst h o) : w.StartsDecodable i := by
  rcases step_relays hstep with ⟨rfl, hskip⟩ |
    ⟨t, now₁, now₂, f, info, k, put, rfl, hk, hp, hf, -, hput, rfl⟩
  · unfold StartsDecodable
    split
    · rename_i t now₁ now₂ f info
      intro _ _ _ hn
      exact absurd (hskip t now₁ now₂ f info rfl) hn
    · trivial
  · obtain ⟨item, hkey, rfl, -⟩ := frameResult_fanOut hput
    intro m hm hnone _
    rw [hk, Option.some.injEq] at hm
    subst hm
    by_contra hcon
    rw [not_or, Bool.not_eq_true] at hcon
    obtain ⟨hnk, hall⟩ := hcon
    refine hall fun sub hs => ?_
    by_contra hopen
    rw [not_or, Bool.not_eq_true] at hopen
    have ho : (sub.offer item).2 = true := by
      rcases Subscriber.offer_cases item sub with ⟨he, -⟩ | ⟨-, hwait, -⟩ | ⟨-, hfull⟩
      · rw [he]
      · simp [hopen.1] at hwait
      · exact absurd hfull hopen.2
    obtain ⟨r, hr, hconn, -⟩ := hlaw _ (List.mem_singleton_self _) (hkey.trans hnk) sub.id
      (Stream.mem_took_iff.mpr ⟨sub, hs, ho, rfl⟩)
    exact hw.relayed t k hk (Or.inl hp) hnone r hr hconn

/-- In every run with one generator open at a time, connections that start decodably put no
non-keyframe on a queue before a keyframe of the same connection. Without `stop` one generator is
open at a time, and there the two are equivalent. -/
theorem key_first_iff_starts_decodable (alwaysOn : Bool) (linger : ℚ) (is : List Input) :
    (EveryStep step (fun w _ i _ _ => w.OneOpen ∧ w.StartsDecodable i) (fresh alwaysOn linger) is →
      EveryStep step (fun _ h _ _ o => KeyFirst h o) (fresh alwaysOn linger) is) ∧
    ((∀ i ∈ is, i ≠ .stop) →
      (EveryStep step (fun _ h _ _ o => KeyFirst h o) (fresh alwaysOn linger) is ↔
        EveryStep step (fun w _ i _ _ => w.StartsDecodable i) (fresh alwaysOn linger) is)) := by
  constructor
  · exact everyStep_of_invariant Keyed (keyed_fresh alwaysOn linger)
      (fun w h i w' o hw hs hc => hw.step hs hc.1 hc.2)
      (fun w h i w' o hw hs hc => hw.keyFirst hs hc.2)
  · intro hstop
    refine everyStep_iff (fun w h => w.Sole ∧ Keyed w h)
      ⟨fresh_sole alwaysOn linger, keyed_fresh alwaysOn linger⟩ ?_ ?_
      (everyStep_of_forall_mem hstop)
    · rintro w h i w' o ⟨hsole, hw⟩ hs hi hc
      exact ⟨(hsole.step hs hi).1, hw.step hs hsole.oneOpen hc⟩
    · rintro w h i w' o ⟨-, hw⟩ hs -
      exact ⟨hw.startsDecodable hs, hw.keyFirst hs⟩

instance (h o : List Relay) : Decidable (KeyFirst h o) :=
  inferInstanceAs (Decidable (∀ r ∈ o, r.put.item.keyframe = false → ∀ x ∈ r.put.took,
    ∃ r' ∈ h, r'.conn = r.conn ∧ r'.put.item.keyframe = true ∧ x ∈ r'.put.took))

/-- The device drops after a keyframe and its next connection starts with a P-frame. -/
def midGopReconnect : List Input :=
  [.subscribe 0 0, .run 0 0 0 .begin,
    .run 0 0 0 (.frame { payload := [0, 0, 1, 0x65], keyframe := true } {}),
    .run 0 1 1 .failed, .run 0 1 1 .closed, .run 0 2 2 .timeout] ++
  [.run 0 3 3 (.frame { payload := [0, 0, 1, 0x41] } {})]

theorem mid_gop_reconnect_not_key_first :
    ¬ EveryStep step (fun _ h _ _ o => KeyFirst h o) (fresh false 10) midGopReconnect :=
  not_everyStep (by decide +kernel)

theorem mid_gop_reconnect_iff :
    EveryStep step (fun _ h _ _ o => KeyFirst h o) (fresh false 10) midGopReconnect ↔
      EveryStep step (fun w _ i _ _ => w.StartsDecodable i) (fresh false 10) midGopReconnect :=
  (key_first_iff_starts_decodable false 10 midGopReconnect).2 (by simp [midGopReconnect])

end DvrBridge.World
