import DvrBridge.StreamSystem
import DvrBridge.SupervisorPrepared

/-! The stream and a connection that describes it: between the wake-up of `wait_ready` and the use
of the parameter sets other tasks may run. -/
namespace DvrBridge
open Machine

structure Describer where
  world : World
  conn : Conn

inductive DescribeInput where
  /-- the supervisor, its driver and the other users of the stream -/
  | hub (i : Input)
  /-- the connection, but for the end of a wait for this stream -/
  | conn (i : ConnInput) (now : ℚ)
  /-- the woken connection goes on -/
  | resumed
  /-- `wait_for` times out -/
  | timedOut

inductive DescribeOutput where
  /-- the parameter sets at the call of `build_sdp` -/
  | buildSdp (sps pps : Option Bytes)
  | conn (e : Effect)
  deriving DecidableEq

namespace Describer

/-- The inputs that are the connection's own. -/
def mine : Input → Bool
  | .waitReady id _ | .resumed id | .waitTimeout id => decide (id = World.ownWait)
  | _ => false

/-- The connection waits for the stream `name`. -/
def awaits (name : Str) (c : Conn) : Bool :=
  match c.pc with
  | .waitReady _ s _ => decide (s = name)
  | _ => false

def endsWait : ConnInput → Bool
  | .loop (.ready _ _ _) | .loop .notReady => true
  | _ => false

/-- A call of the connection on the stream; a DESCRIBE calls `wait_ready`. -/
def call (name : Str) (now : ℚ) (w : World) : Effect → Option World
  | .touch s =>
    if s = name then (w.step (.waitReady World.ownWait now)).map (·.1) else some w
  | e => System.call name now w e

def calls (name : Str) (now : ℚ) : World → List Effect → Option World
  | w, [] => some w
  | w, e :: es => (call name now w e).bind fun w => calls name now w es

/-- The connection after `wait_ready` has returned. -/
def goOn (srv : Server) (w : World) (c : Conn) : Option (Describer × List DescribeOutput) :=
  (c.step srv (.loop (.ready w.stream.sps w.stream.pps w.stream.info))).map fun r =>
    (⟨w, r.1⟩, .buildSdp w.stream.sps w.stream.pps :: r.2.map .conn)

def step (srv : Server) (name : Str) (s : Describer) :
    DescribeInput → Option (Describer × List DescribeOutput)
  | .hub i => if mine i then none else (s.world.step i).map fun r => ({ s with world := r.1 }, [])
  | .conn i now =>
    if awaits name s.conn ∧ endsWait i then none
    else
      (s.conn.step srv i).bind fun r => (calls name now s.world r.2).bind fun w =>
        -- the wait for a set event does not suspend
        if !awaits name s.conn && awaits name r.1 && w.stream.ready then
          (goOn srv w r.1).map fun q => (q.1, r.2.map .conn ++ q.2)
        else some (⟨w, r.1⟩, r.2.map .conn)
  | .resumed =>
    if awaits name s.conn then
      (s.world.step (.resumed World.ownWait)).bind fun r => goOn srv r.1 s.conn
    else none
  | .timedOut =>
    if awaits name s.conn then
      (s.world.step (.waitTimeout World.ownWait)).bind fun r =>
        (s.conn.step srv (.loop .notReady)).map fun q => (⟨r.1, q.1⟩, q.2.map .conn)
    else none

def fresh (alwaysOn : Bool) (linger : ℚ) (peer : Option Str) (ssrc : Nat) : Describer :=
  ⟨World.fresh alwaysOn linger, Conn.fresh peer ssrc⟩

/-- The connection sends `r`: it waits for the lock with it, or has just written it. -/
def Sends (r : Response) (c : Conn) (o : List DescribeOutput) : Prop :=
  ∃ handler k, c.pc = .locking handler r k ∨
    c.pc = .draining handler k ∧ .conn (.response r) ∈ o

/-- `build_sdp` gets both sets, and a DESCRIBE whose wait has ended is answered 200 or 504. -/
def Described (i : DescribeInput) (s' : Describer) (o : List DescribeOutput) : Prop :=
  (∀ sps pps, .buildSdp sps pps ∈ o → sps.isSome = true ∧ pps.isSome = true ∧
    ∃ r, r.code = 200 ∧ Sends r s'.conn o) ∧
  (i = .timedOut → ∃ r, r.code = 504 ∧ Sends r s'.conn o)

/-- No supervisor drops the sets under a woken DESCRIBE. -/
def KeepsSets (s : Describer) : DescribeInput → Prop
  | .hub i => s.world.KeepsSets i
  | _ => True

theorem sends_respond (c : Conn) (handler : Option Str) (r : Response) (k : After)
    (o : List DescribeOutput) :
    Sends r (c.respond handler r k).1 (o ++ (c.respond handler r k).2.map .conn) := by
  unfold Conn.respond
  split
  · exact ⟨handler, k, .inr ⟨rfl, by simp [Conn.write]⟩⟩
  · exact ⟨handler, k, .inl rfl⟩

theorem awaits_iff {name : Str} {c : Conn} :
    awaits name c = true ↔ ∃ url cseq, c.pc = .waitReady url name cseq := by
  unfold awaits
  cases hp : c.pc <;> simp

/-- With both sets the wait ends in a 200. -/
theorem goOn_sends {srv : Server} {name : Str} {w : World} {c : Conn} {s' : Describer}
    {o : List DescribeOutput} (before : List DescribeOutput) (hc : awaits name c = true)
    (h : goOn srv w c = some (s', o))
    (hs : truthy w.stream.sps = true ∧ truthy w.stream.pps = true) :
    s'.world = w ∧
      (∀ sps pps, .buildSdp sps pps ∈ o → sps.isSome = true ∧ pps.isSome = true) ∧
      ∃ r, r.code = 200 ∧ Sends r s'.conn (before ++ o) := by
  obtain ⟨url, cseq, hp⟩ := awaits_iff.mp hc
  obtain ⟨sps, hsps, -⟩ := (World.truthy_eq_true_iff _).mp hs.1
  obtain ⟨pps, hpps, -⟩ := (World.truthy_eq_true_iff _).mp hs.2
  obtain ⟨⟨c', es⟩, hstep, he⟩ := Option.map_eq_some_iff.mp h
  cases he
  simp only [Conn.step, Conn.loopStep, hp, hsps, hpps, Conn.describeAnswer, Conn.finish,
    Option.some.injEq] at hstep
  refine ⟨rfl, ?_, ?_⟩
  · intro sps' pps' hm
    rcases List.mem_cons.mp hm with hm | hm
    · cases hm
      simp [hsps, hpps]
    · simp at hm
  · have hsend := sends_respond c (some cseq) (.ok [("CSeq".toList, cseq),
      ("Content-Base".toList, PyText.rstripChar '/' url ++ ['/']),
      ("Content-Type".toList, "application/sdp".toList)]
      (PyText.encode (buildSdp name sps pps w.stream.info.width w.stream.info.height))) .next
      (before ++ [.buildSdp w.stream.sps w.stream.pps])
    rw [hstep, List.append_assoc] at hsend
    exact ⟨_, rfl, hsend⟩

theorem calls_prepared {name : Str} {now : ℚ} {w w' : World} {es : List Effect}
    (h : w.Prepared) (hw : calls name now w es = some w') : w'.Prepared := by
  induction es generalizing w with
  | nil =>
    cases hw
    exact h
  | cons e es ih =>
    obtain ⟨v, hv, hw⟩ := Option.bind_eq_some_iff.mp hw
    refine ih ?_ hw
    unfold call at hv
    split at hv
    · split at hv
      · obtain ⟨r, hr, rfl⟩ := Option.map_eq_some_iff.mp hv
        exact h.step (i := .waitReady World.ownWait now) hr trivial
      · cases hv
        exact h
    · unfold System.call at hv
      split at hv
      · split at hv
        · obtain ⟨r, hr, rfl⟩ := Option.map_eq_some_iff.mp hv
          exact h.step hr trivial
        · cases hv
          exact h
      · split at hv
        · obtain ⟨r, hr, rfl⟩ := Option.map_eq_some_iff.mp hv
          exact h.step hr trivial
        · cases hv
          exact h
      · split at hv
        · obtain ⟨r, hr, rfl⟩ := Option.map_eq_some_iff.mp hv
          exact h.step hr trivial
        · cases hv
          exact h
      · cases hv
        exact h

theorem described_step {srv : Server} {name : Str} {s s' : Describer} {i : DescribeInput}
    {o : List DescribeOutput} (h : s.world.Prepared) (hs : s.step srv name i = some (s', o))
    (hk : KeepsSets s i) : s'.world.Prepared ∧ Described i s' o := by
  cases i with
  | hub i =>
    obtain ⟨-, hs⟩ := Option.ite_none_left_eq_some.mp hs
    obtain ⟨⟨w, o'⟩, hw, he⟩ := Option.map_eq_some_iff.mp hs
    cases he
    exact ⟨h.step hw hk, by simp, by simp⟩
  | conn i now =>
    obtain ⟨-, hs⟩ := Option.ite_none_left_eq_some.mp hs
    obtain ⟨⟨c, es⟩, hc, hs⟩ := Option.bind_eq_some_iff.mp hs
    obtain ⟨w, hw, hs⟩ := Option.bind_eq_some_iff.mp hs
    have hp := calls_prepared h hw
    split at hs
    · rename_i hcond
      simp only [Bool.and_eq_true] at hcond
      obtain ⟨⟨q, o'⟩, hgo, he⟩ := Option.map_eq_some_iff.mp hs
      cases he
      obtain ⟨hworld, hsets, r, hr, hsend⟩ :=
        goOn_sends (es.map .conn) hcond.1.2 hgo (hp.ready hcond.2)
      refine ⟨hworld ▸ hp, ?_, by simp⟩
      intro sps pps hm
      rcases List.mem_append.mp hm with hm | hm
      · simp at hm
      · obtain ⟨h₁, h₂⟩ := hsets sps pps hm
        exact ⟨h₁, h₂, r, hr, hsend⟩
    · cases hs
      exact ⟨hp, by simp, by simp⟩
  | resumed =>
    obtain ⟨ha, hs⟩ := Option.ite_none_right_eq_some.mp hs
    obtain ⟨⟨w, o'⟩, hw, hgo⟩ := Option.bind_eq_some_iff.mp hs
    have hp := h.step hw trivial
    obtain ⟨hwoken, hw⟩ := Option.ite_none_right_eq_some.mp hw
    obtain ⟨rfl, -⟩ := Prod.mk.inj (Option.some.inj hw)
    obtain ⟨hworld, hsets, r, hr, hsend⟩ := goOn_sends [] ha hgo (h.woken hwoken)
    refine ⟨hworld ▸ hp, ?_, by simp⟩
    intro sps pps hm
    obtain ⟨h₁, h₂⟩ := hsets sps pps hm
    exact ⟨h₁, h₂, r, hr, hsend⟩
  | timedOut =>
    obtain ⟨ha, hs⟩ := Option.ite_none_right_eq_some.mp hs
    obtain ⟨⟨w, o'⟩, hw, hs⟩ := Option.bind_eq_some_iff.mp hs
    obtain ⟨⟨c, es⟩, hc, he⟩ := Option.map_eq_some_iff.mp hs
    cases he
    obtain ⟨url, cseq, hpc⟩ := awaits_iff.mp ha
    simp only [Conn.step, Conn.loopStep, hpc, Conn.gatewayTimeout, Option.some.injEq] at hc
    have hsend := sends_respond s.conn none
      { code := 504, reason := "Gateway Timeout".toList, headers := [("CSeq".toList, cseq)] }
      .next []
    rw [hc] at hsend
    exact ⟨h.step hw trivial, by simp, fun _ => ⟨_, rfl, hsend⟩⟩

theorem prepared_fresh (alwaysOn : Bool) (linger : ℚ) : (World.fresh alwaysOn linger).Prepared :=
  ⟨by simp [World.fresh], by simp [World.fresh, World.OwnWoken]⟩

/-- As long as no failed driver's sets are dropped between the wake-up of a DESCRIBE and its next
step, `build_sdp` always gets both sets and every DESCRIBE is answered 200 or 504. -/
theorem described_of_keepsSets (srv : Server) (name : Str) (alwaysOn : Bool) (linger : ℚ)
    (peer : Option Str) (ssrc : Nat) (is : List DescribeInput)
    (h : EveryStep (step srv name) (fun s _ i _ _ => KeepsSets s i)
      (fresh alwaysOn linger peer ssrc) is) :
    EveryStep (step srv name) (fun _ _ i s' o => Described i s' o)
      (fresh alwaysOn linger peer ssrc) is := by
  refine everyStep_of_invariant (Q := fun s _ i _ _ => KeepsSets s i)
    (fun s _ => s.world.Prepared) (prepared_fresh alwaysOn linger) ?_ ?_ h
  · exact fun s _ i s' o hp hs hk => (described_step hp hs hk).1
  · exact fun s _ i s' o hp hs hk => (described_step hp hs hk).2

/-- The stream that the examples describe. -/
def camServer : Server := { hub := ["cam".toList], urlPath := Conn.plainPath }

def describeCam : DescribeInput :=
  .conn (Conn.request "DESCRIBE rtsp://h/cam RTSP/1.0" [("cseq", "2")]) 0

/-- One access unit with both parameter sets. -/
def setsFrame : VideoFrame :=
  { tsMs := some 0, payload := [0, 0, 1, 0x67, 1, 0, 0, 1, 0x68, 2], keyframe := true }

def describeRun : List DescribeInput :=
  [describeCam, .hub (.run 0 0 0 .begin), .hub (.run 0 0 0 (.frame setsFrame {})), .resumed]

theorem described_of_keepsSets_one :
    (run (step camServer "cam".toList) (fresh false 10 none 1) describeRun).isSome = true ∧
      EveryStep (step camServer "cam".toList) (fun _ _ i s' o => Described i s' o)
        (fresh false 10 none 1) describeRun :=
  ⟨by decide +kernel, described_of_keepsSets camServer "cam".toList false 10 none 1 describeRun
    ((everyStep_of_forall_mem (A := fun i => ∀ s, KeepsSets s i)
      (by simp [describeRun, describeCam, KeepsSets, World.KeepsSets])).mono
      fun s _ i _ _ h => h s)⟩

/-- The driver fails after the frame that woke the DESCRIBE, and the supervisor is scheduled
first. -/
def droppedRun : List DescribeInput :=
  [describeCam, .hub (.run 0 0 0 .begin), .hub (.run 0 0 0 (.frame setsFrame {})),
    .hub (.run 0 0 0 .failed), .hub (.run 0 0 0 .closed)]

/-- `build_sdp` gets no sets, and the connection closes without an answer. -/
theorem describe_without_sets :
    ¬ EveryStep (step camServer "cam".toList) (fun _ _ i s' o => Described i s' o)
      (fresh false 10 none 1) (droppedRun ++ [.resumed]) := by
  intro h
  have hrun : ((run (step camServer "cam".toList) (fresh false 10 none 1) droppedRun).bind
      fun r => (step camServer "cam".toList r.1 .resumed).map (·.2)) =
        some [.buildSdp none none, .conn .crashed, .conn .closeWriter] := by
    decide +kernel
  obtain ⟨⟨s, os⟩, hr, hs⟩ := Option.bind_eq_some_iff.mp hrun
  obtain ⟨⟨s', o⟩, hs, rfl⟩ := Option.map_eq_some_iff.mp hs
  obtain ⟨hsps, -⟩ := (h droppedRun .resumed [] rfl s os s' _ hr hs).1 none none (by simp)
  cases hsps

end Describer
end DvrBridge
