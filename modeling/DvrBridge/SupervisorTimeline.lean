import DvrBridge.SupervisorSteps
import Mathlib.Data.List.Chain

/-! The RTP timeline over a whole session: a reconnect starts a new mapper at 0. -/
namespace DvrBridge.World
open Machine TimestampMapper

/-- At most 5 s ahead at 90 kHz, modulo 2^32. -/
def Forward (p r : Relay) : Prop := ahead p.put.item.ts90k r.put.item.ts90k ≤ 450000

/-- The last frame this driver instance yielded had a NAL, so it was relayed. -/
def LastRelayed (k : RunTask) : Prop :=
  ∃ f, k.driver.yielded.getLast? = some f ∧ frameNals f.payload ≠ []

/-- For a frame that is relayed after another one. If it is the first of its connection, the last
stamp was 0 or within 5 s of the wrap. Otherwise the same connection relayed the frame before it,
or the frames passed over since the last stamp and this frame's own step make up at most 5 s. -/
def KeepsTimeline (w : World) (h : List Relay) : Input → Prop
  | .run t now₁ _ (.frame f _) =>
    ∀ k p, w.tasks[t]? = some k → h.getLast? = some p → frameNals f.payload ≠ [] →
      (k.driver.yielded = [] ∧ (p.put.item.ts90k = 0 ∨ 2 ^ 32 - 450000 ≤ p.put.item.ts90k)) ∨
      (p.conn = k.driver.serial ∧ LastRelayed k) ∨
      (k.driver.yielded ≠ [] ∧
        (ahead p.put.item.ts90k k.mapper.rtp + k.mapper.advance f.tsMs now₁) % 2 ^ 32 ≤ 450000)
  | _ => True

structure Timeline (w : World) (h : List Relay) : Prop where
  serials : Serials w h
  stamp_lt : ∀ r ∈ h, r.put.item.ts90k < 2 ^ 32
  stamp : ∀ (t : Nat) (k : RunTask) (p : Relay), w.tasks[t]? = some k → Connected k →
    h.getLast? = some p → p.conn = k.driver.serial → LastRelayed k →
    p.put.item.ts90k = k.mapper.rtp
  start : ∀ (t : Nat) (k : RunTask), w.tasks[t]? = some k → Connected k →
    k.driver.yielded = [] → k.mapper = {}
  chain : h.IsChain Forward

theorem timeline_fresh (alwaysOn : Bool) (linger : ℚ) : Timeline (fresh alwaysOn linger) [] :=
  ⟨serials_fresh alwaysOn linger, by simp, by simp, by simp [fresh], .nil⟩

theorem frameResult_stamp {w : World} {k : RunTask} {f : VideoFrame} {info : StreamInfo}
    {now : ℚ} {put : Put} (h : (w.frameResult k f info now).2 = some put) :
    put.item.ts90k = (k.mapper.map f.tsMs now).rtp := by
  unfold frameResult at h
  by_cases hn : frameNals f.payload = []
  · rw [Stream.onFrame_skipped _ _ _ _ hn] at h
    cases h
  · obtain ⟨item, ht, -, -, he⟩ := Stream.onFrame_relayed { w.stream with info := info }
      f.payload (k.mapper.map f.tsMs now).rtp f.keyframe hn
    rw [he, Option.some.injEq] at h
    rw [← h]
    exact ht

/-- The stamp of the last relay stays the mapper's position while this driver's frames are
relayed one after another. -/
theorem Timeline.stamp_step {w w' : World} {i : Input} {h o : List Relay} (hw : Timeline w h)
    (hstep : w.step i = some (w', o)) (t : Nat) (k' : RunTask) (p : Relay)
    (hk' : w'.tasks[t]? = some k') (hc : Connected k') (hp : (h ++ o).getLast? = some p)
    (hconn : p.conn = k'.driver.serial) (hl : LastRelayed k') :
    p.put.item.ts90k = k'.mapper.rtp := by
  have hser := hw.serials.step hstep
  rcases step_relays hstep with ⟨ho, hskip⟩ |
    ⟨u, now₁, now₂, f, info, k, put, hi, hk, hpc, -, -, hput, ho⟩
  · rw [ho, List.append_nil] at hp
    rcases connected_step hstep hk' hc with ⟨m, hm, hcm, -, hd, hmap, -⟩ |
      ⟨hd, -⟩ | ⟨m, hm, f, info, now₁, now₂, hi, hpm, hd, -⟩
    · rw [hmap]
      refine hw.stamp t m p hm hcm hp (hd ▸ hconn) ?_
      simpa only [LastRelayed, hd] using hl
    · simp [LastRelayed, hd] at hl
    · obtain ⟨g, hg, hgn⟩ := hl
      rw [hd, List.getLast?_concat, Option.some.injEq] at hg
      exact absurd (hskip t now₁ now₂ f info hi) (hg ▸ hgn)
  · rw [ho, List.getLast?_concat, Option.some.injEq] at hp
    subst hp
    rcases connected_step hstep hk' hc with ⟨m, hm, hcm, -, hd, -, hne⟩ |
      ⟨-, -, -, _, _, r, hi', hr⟩ | ⟨m, hm, f', info', _, _, hi', hpm, hd, hmap⟩
    · have htu := hw.serials.inj t u m k hm hk hcm (Or.inl hpc) (by rw [← hd]; exact hconn.symm)
      exact absurd (htu ▸ hi) (hne now₁ now₂ f info)
    · rw [hi] at hi'
      cases hi'
      exact absurd rfl (hr f info)
    · rw [hi] at hi'
      cases hi'
      rw [hm, Option.some.injEq] at hk
      subst hk
      rw [hmap]
      exact frameResult_stamp hput

/-- The first frame of every connection makes no step: its mapper has no earlier reading. -/
theorem advance_start (tsMs : Option Int) (now : ℚ) :
    ({} : TimestampMapper).advance tsMs now = 0 := by
  simp [advance, deltaMs, wallDelta]

/-- The first frame of a connection is stamped 0. -/
theorem first_stamp_iff {w : World} {h : List Relay} {t : Nat} {k : RunTask} {p : Relay}
    (hw : Timeline w h) (hk : w.tasks[t]? = some k) (hpc : k.pc = .next)
    (hy : k.driver.yielded = []) (f : VideoFrame) (now : ℚ) (hp : h.getLast? = some p) :
    (ahead p.put.item.ts90k k.mapper.rtp + k.mapper.advance f.tsMs now) % 2 ^ 32 ≤ 450000 ↔
      p.put.item.ts90k = 0 ∨ 2 ^ 32 - 450000 ≤ p.put.item.ts90k := by
  have hlt := hw.stamp_lt p (List.mem_of_getLast? hp)
  rw [hw.start t k hk (Or.inl hpc) hy, advance_start]
  simp only [ahead]
  omega

/-- A mapper that no frame has reached yet is a new one. -/
theorem Timeline.start_step {w w' : World} {i : Input} {h o : List Relay} (hw : Timeline w h)
    (hstep : w.step i = some (w', o)) (t : Nat) (k' : RunTask) (hk' : w'.tasks[t]? = some k')
    (hc : Connected k') (hy : k'.driver.yielded = []) : k'.mapper = {} := by
  rcases connected_step hstep hk' hc with ⟨m, hm, hcm, -, hd, hmap, -⟩ | ⟨-, hmap, -⟩ |
    ⟨m, -, f, info, now₁, now₂, -, -, hd, -⟩
  · rw [hmap]
    exact hw.start t m hm hcm (hd ▸ hy)
  · exact hmap
  · simp [hd] at hy

/-- The new history is a chain exactly if the relayed frame keeps the timeline. -/
theorem Timeline.chain_iff {w w' : World} {i : Input} {h o : List Relay} (hw : Timeline w h)
    (hstep : w.step i = some (w', o)) : (h ++ o).IsChain Forward ↔ w.KeepsTimeline h i := by
  rcases step_relays hstep with ⟨rfl, hskip⟩ |
    ⟨t, now₁, now₂, f, info, k, put, rfl, hk, hpc, hn, -, hput, rfl⟩
  · refine ⟨fun _ => ?_, fun _ => by simpa using hw.chain⟩
    unfold KeepsTimeline
    split
    · rename_i t now₁ now₂ f info
      intro _ _ _ _ hn
      exact absurd (hskip t now₁ now₂ f info rfl) hn
    · trivial
  · have hts := frameResult_stamp hput
    simp only [List.isChain_append, hw.chain, List.isChain_singleton, true_and,
      List.head?_cons, Option.mem_def, Option.some.injEq, forall_eq', KeepsTimeline]
    -- the distance from the last stamp, split at the mapper's position before this frame
    have hahead (p : Relay) (hp : h.getLast? = some p) : Forward p ⟨k.driver.serial, put⟩ ↔
        (ahead p.put.item.ts90k k.mapper.rtp + k.mapper.advance f.tsMs now₁) % 2 ^ 32 ≤ 450000 := by
      rw [Forward, hts, map_rtp,
        ahead_add_right _ _ _ (hw.stamp_lt p (List.mem_of_getLast? hp))]
    constructor
    · intro hf m p hm hp _
      rw [hk, Option.some.injEq] at hm
      subst hm
      by_cases hy : k.driver.yielded = []
      · exact Or.inl ⟨hy, (first_stamp_iff hw hk hpc hy f now₁ hp).mp ((hahead p hp).mp (hf p hp))⟩
      · exact Or.inr (Or.inr ⟨hy, (hahead p hp).mp (hf p hp)⟩)
    · intro hc p hp
      rcases hc k p hk hp hn with ⟨hy, hwrap⟩ | ⟨hconn, hlast⟩ | ⟨-, hle⟩
      · exact (hahead p hp).mpr ((first_stamp_iff hw hk hpc hy f now₁ hp).mpr hwrap)
      · have he := hw.stamp t k p hk (Or.inl hpc) hp hconn hlast
        rw [Forward, hts, he]
        exact k.mapper.ahead_map f.tsMs now₁
      · exact (hahead p hp).mpr hle

theorem Timeline.step {w w' : World} {i : Input} {h o : List Relay} (hw : Timeline w h)
    (hstep : w.step i = some (w', o)) (hc : w.KeepsTimeline h i) : Timeline w' (h ++ o) := by
  refine ⟨hw.serials.step hstep, ?_, hw.stamp_step hstep, hw.start_step hstep,
    (hw.chain_iff hstep).mpr hc⟩
  intro r hr
  rcases List.mem_append.mp hr with hr | hr
  · exact hw.stamp_lt r hr
  · rcases step_relays hstep with ⟨rfl, -⟩ | ⟨_, now₁, _, f, _, k, _, -, -, -, -, -, hput, rfl⟩
    · simp at hr
    · rw [List.mem_singleton] at hr
      rw [hr, frameResult_stamp hput]
      exact (k.mapper.map f.tsMs now₁).rtp_lt

/-- In every run of one stream, each relayed frame is stamped at most 5 s ahead of the frame
relayed before it if and only if every relayed frame keeps the timeline. -/
theorem forward_iff_keeps_timeline (alwaysOn : Bool) (linger : ℚ) (is : List Input) :
    EveryStep step (fun _ h _ _ o => (h ++ o).IsChain Forward) (fresh alwaysOn linger) is ↔
      EveryStep step (fun w h i _ _ => w.KeepsTimeline h i) (fresh alwaysOn linger) is := by
  refine everyStep_iff Timeline (timeline_fresh alwaysOn linger) ?_ ?_
    (everyStep_of_forall_mem (A := fun _ => True) (by simp))
  · intro w h i w' o hw hs _ hc
    exact hw.step hs hc
  · intro w h i w' o hw hs _
    exact hw.chain_iff hs

/-- Two frames 40 ms apart, a connection loss, and the first frame of the next connection. -/
def reconnectRun : List Input :=
  [.subscribe 0 0, .run 0 0 0 .begin,
    .run 0 0 0 (.frame { payload := [0, 0, 1, 0x65], tsMs := some 1000, keyframe := true } {}),
    .run 0 1 1 (.frame { payload := [0, 0, 1, 0x41], tsMs := some 1040 } {}),
    .run 0 1 1 .failed, .run 0 1 1 .closed, .run 0 2 2 .timeout] ++
  [.run 0 3 3 (.frame { payload := [0, 0, 1, 0x65], tsMs := some 5000, keyframe := true } {})]

theorem reconnectRun_stamps :
    (run step (fresh false 10) reconnectRun).map (fun r => r.2.map (·.put.item.ts90k)) =
      some [0, 3600, 0] := by
  decide +kernel

theorem reconnect_goes_back :
    ¬ EveryStep step (fun _ h _ _ o => (h ++ o).IsChain Forward) (fresh false 10)
      reconnectRun := by
  intro h
  obtain ⟨⟨w', os⟩, hr, he⟩ := Option.map_eq_some_iff.mp reconnectRun_stamps
  have hchain : os.IsChain Forward := EveryStep.history .nil h hr
  have hmap : (os.map (·.put.item.ts90k)).IsChain (fun a b => ahead a b ≤ 450000) :=
    (List.isChain_map _).mpr hchain
  rw [he] at hmap
  revert hmap
  decide

end DvrBridge.World
