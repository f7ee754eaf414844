import DvrBridge.Machine
import DvrBridge.RtspLedger

/-! The UDP endpoints that a connection holds open while `RTSPServer.stop` may close it. -/
namespace DvrBridge
open Machine PyText

namespace LiveConn

/-- At most one endpoint is open or being created, and none once `run` has returned. -/
def OwnsOne (s : LiveConn) (os : List Effect) : Prop :=
  (openEndpoints os).length + (if s.conn.pc.isOpening then 1 else 0) ≤ 1 ∧
    (s.conn.pc = .ended → openEndpoints os = [])

/-- An endpoint is created for a peer with an address, and no pump takes its first step without a
subscriber while an endpoint is stored. -/
def Provided (s : LiveConn) : LiveInput → Prop
  | .loop (.opened _) => s.conn.peer ≠ none
  | .pump _ .start => s.conn.udp = none ∨ s.conn.sub ≠ none
  | _ => True

/-- The stored endpoint is the one that is open, and no failed pump keeps it from being released. -/
structure Held (s : LiveConn) (os : List Effect) : Prop where
  ledger : openEndpoints os = s.conn.endpoints
  opening : s.conn.pc.isOpening = true → s.conn.udp = none ∧ s.playTask = none
  left : s.conn.pc = .closing ∨ s.conn.pc = .ended → s.conn.udp = none
  failed : ∀ n t, s.playTask = some n ∨ s.awaited = some n → s.tasks[n]? = some t →
    t.failed = true → s.conn.udp = none

theorem held_fresh (peer : Option Str) (ssrc : Nat) : (fresh peer ssrc).Held [] :=
  ⟨rfl, by simp [fresh, Conn.fresh, LoopPc.isOpening], fun _ => rfl, by simp [fresh]⟩

section steps
variable {srv : Server} {s s' : LiveConn} {os o : List Effect}

theorem Held.ownsOne (h : s.Held os) : s.OwnsOne os := by
  refine ⟨?_, fun he => ?_⟩
  · rw [h.ledger, Conn.endpoints]
    cases hp : s.conn.pc.isOpening with
    | true => simp [(h.opening hp).1]
    | false => cases s.conn.udp <;> simp
  · rw [h.ledger, Conn.endpoints, h.left (.inr he)]
    rfl

theorem openEndpoints_append (h : openEndpoints os = s.conn.endpoints) :
    openEndpoints (os ++ o) = o.foldl Effect.track s.conn.endpoints := by
  rw [openEndpoints, List.foldl_append, ← h]
  rfl

/-- A step that leaves the endpoint and the handles alone. -/
theorem Held.frame (h : s.Held os) (hu : Conn.Untouched s.conn s'.conn o)
    (hpl : s'.playTask = s.playTask) (ha : s'.awaited = s.awaited)
    (ht : ∀ (n : Nat) (t : PumpTask), s'.tasks[n]? = some t → t.failed = true →
      s.conn.udp = none ∨ ∃ t' : PumpTask, s.tasks[n]? = some t' ∧ t'.failed = true) :
    s'.Held (os ++ o) := by
  refine ⟨?_, ?_, ?_, ?_⟩
  · rw [openEndpoints_append h.ledger, track_quiet hu.quiet, Conn.endpoints, Conn.endpoints, hu.udp]
  · rw [hu.pc, hu.udp, hpl]
    exact h.opening
  · rw [hu.pc, hu.udp]
    exact h.left
  · intro n t hn htn hf
    rw [hpl, ha] at hn
    rw [hu.udp]
    rcases ht n t htn hf with hnone | ⟨t', ht', hf'⟩
    · exact hnone
    · exact h.failed n t' hn ht' hf'

theorem failed_modify {l : List PumpTask} {m n : Nat} {t : PumpTask} {p : Pump}
    (ht : (l.modify m fun t => { t with pump := p })[n]? = some t) (hf : t.failed = true) :
    ∃ t', l[n]? = some t' ∧ t'.failed = true := by
  rw [List.getElem?_modify] at ht
  obtain ⟨t', ht', rfl⟩ := Option.map_eq_some_iff.mp ht
  refine ⟨t', ht', ?_⟩
  split at hf <;> exact hf

/-- A failed `play_task` is not one that the step has created. -/
theorem putTask_failed {p : Option Pump} {n : Nat} {t : PumpTask}
    (hn : (s.putTask p).playTask = some n) (ht : (s.putTask p).tasks[n]? = some t)
    (hf : t.failed = true) :
    s.playTask = some n ∧ ∃ t', s.tasks[n]? = some t' ∧ t'.failed = true := by
  cases p with
  | none => cases hn
  | some p =>
    cases hm : s.playTask with
    | some m =>
      simp only [putTask, hm] at hn ht
      exact ⟨hm ▸ hn, failed_modify ht hf⟩
    | none =>
      simp only [putTask, hm] at hn ht
      obtain rfl : s.tasks.length = n := Option.some.inj hn
      rw [List.getElem?_concat_length, Option.some.injEq] at ht
      subst ht
      cases hf

theorem Held.afterLoop {c : Conn} (h : s.Held os) (hb : Conn.Balanced s.atLoop c o) :
    (s.afterLoop (c, o)).1.Held (os ++ o) := by
  have hc : (s.afterLoop (c, o)).1.conn = c := putTask_conn ..
  refine ⟨?_, ?_, ?_, ?_⟩
  · rw [openEndpoints_append h.ledger, hc]
    exact hb.ledger
  · rw [hc]
    intro hop
    obtain ⟨hu, hpl⟩ := hb.opening hop
    refine ⟨hu, ?_⟩
    change ((s.leftBy .loop c).putTask c.playTask).playTask = none
    rw [hpl]
    rfl
  · rw [hc]
    exact hb.left
  · rw [hc]
    intro n t hn ht hf
    have hn : ((s.leftBy .loop c).putTask c.playTask).playTask = some n := by
      rcases hn with hn | hn <;> exact hn
    obtain ⟨hold, t', ht', hf'⟩ := putTask_failed hn ht hf
    rcases hb.kept with hk | hk | hk
    · exact hk
    · rw [hk]
      exact h.failed n t' (.inl hold) ht' hf'
    · rw [hk] at hn
      cases hn

theorem Held.vacant (h : s.Held os) (hp : s.atLoop.pc.isOpening = true) : s.atLoop.Vacant := by
  obtain ⟨hu, hpl⟩ := h.opening hp
  refine ⟨hu, ?_⟩
  simp [atLoop, seenBy, hpl]

theorem Held.joinFails {why : Leave} (h : s.Held os)
    (hu : why = .close → s.conn.udp = none) :
    (s.joinFails why).1.Held (os ++ (s.joinFails why).2) := by
  cases why with
  | teardown =>
    exact h.afterLoop ((Conn.stopPlay_stopped s.atLoop .close).balanced.cons trivial)
  | close =>
    have hn := hu rfl
    refine ⟨?_, by simp [LiveConn.joinFails, LoopPc.isOpening], fun _ => hn, fun _ _ _ _ _ => hn⟩
    rw [openEndpoints_append h.ledger]
    exact track_quiet (by simp [LiveConn.joinFails, Effect.Quiet]) _

theorem Held.loopStep {i : LoopInput} (h : s.Held os) (hs : s.loopStep srv i = some (s', o))
    (hpeer : ∀ port, i = .opened port → s.conn.peer ≠ none) : s'.Held (os ++ o) := by
  unfold LiveConn.loopStep at hs
  split at hs
  · rename_i why hp
    obtain ⟨t, ht, hs⟩ := Option.bind_eq_some_iff.mp hs
    obtain ⟨n, hn, ht⟩ := Option.bind_eq_some_iff.mp ht
    split at hs
    · rename_i hf
      obtain ⟨rfl, rfl⟩ := Prod.mk.inj (Option.some.inj hs)
      exact h.joinFails fun _ => h.failed n t (.inr hn) ht hf
    · rw [Option.ite_none_right_eq_some] at hs
      obtain ⟨-, hs⟩ := hs
      obtain ⟨rfl, rfl⟩ := Prod.mk.inj (Option.some.inj hs)
      have hst := Conn.afterStop_stopped (c := { s.atLoop with playTask := none }) why (by simp)
      refine h.afterLoop ⟨hst.balanced.ledger, hst.balanced.opening, hst.balanced.left, ?_⟩
      exact hst.balanced.kept
  · obtain ⟨⟨c, e⟩, hc, hs⟩ := Option.map_eq_some_iff.mp hs
    obtain ⟨rfl, rfl⟩ := Prod.mk.inj hs
    refine h.afterLoop ((Conn.loopStep_inv hc).balanced h.vacant ?_ hpeer)
    exact fun hp => h.left (.inl hp)

theorem Held.pumpStep {n : Nat} {i : PumpInput} (h : s.Held os)
    (hs : s.pumpStep n i = some (s', o))
    (hsub : i = .start → s.conn.udp = none ∨ s.conn.sub ≠ none) : s'.Held (os ++ o) := by
  obtain ⟨t, ht, hstep⟩ := Option.bind_eq_some_iff.mp hs
  clear hs
  split at hstep
  · cases hstep
  · split at hstep
    · rename_i hnone
      obtain ⟨rfl, rfl⟩ := Prod.mk.inj (Option.some.inj hstep)
      refine h.frame ⟨rfl, rfl, by simp⟩ rfl rfl fun m t' _ _ => .inl ?_
      exact (hsub rfl).resolve_right fun hne => hne hnone
    · obtain ⟨⟨c, e⟩, hc, he⟩ := Option.map_eq_some_iff.mp hstep
      obtain ⟨rfl, rfl⟩ := Prod.mk.inj he
      have hstep := (Conn.pumpStep_inv hc).2.untouched
      have hnext := c.nextFrame_untouched (c.playTask.getD t.pump)
      refine h.frame ⟨hnext.udp.trans hstep.udp, hnext.pc.trans hstep.pc, ?_⟩ rfl rfl
        fun m t' ht' hf => .inr (failed_modify ht' hf)
      exact List.forall_mem_append.mpr ⟨hstep.quiet, hnext.quiet⟩

theorem Held.release (h : s.Held os) : s.release.1.Held (os ++ s.release.2) := by
  refine ⟨?_, fun _ => ⟨rfl, rfl⟩, fun _ => rfl, fun _ _ _ _ _ => rfl⟩
  rw [openEndpoints_append h.ledger]
  change (s.conn.released ++ [Effect.closeWriter]).foldl Effect.track s.conn.endpoints = []
  rw [List.foldl_append, Conn.track_released]
  rfl

/-- The calls of `RTSPServer.stop` are no part of the invariant. -/
theorem Held.withClosers (h : s.Held os) (l : List Closer) : Held { s with closers := l } os :=
  ⟨h.ledger, h.opening, h.left, h.failed⟩

theorem Held.stop (h : s.Held os) : s.stop.1.Held (os ++ s.stop.2) := by
  have hcl : s.closes.1.Held (os ++ s.closes.2) := h.release.withClosers _
  unfold LiveConn.stop
  split
  · exact hcl
  · split
    · exact hcl
    · split
      · exact hcl
      · refine Held.withClosers ?_ _
        exact h.frame ⟨rfl, rfl, by simp⟩ rfl rfl fun m t ht hf => .inr (failed_modify ht hf)

theorem Held.closerStep {k : Nat} {i : CloserInput} (h : s.Held os)
    (hs : s.closerStep k i = some (s', o)) : s'.Held (os ++ o) := by
  have hsame (l : List Closer) : Held { s with closers := l } (os ++ []) := by
    rw [List.append_nil]
    exact h.withClosers l
  unfold LiveConn.closerStep at hs
  split at hs
  · obtain ⟨t, -, hs⟩ := Option.bind_eq_some_iff.mp hs
    split at hs
    · obtain ⟨rfl, rfl⟩ := Prod.mk.inj (Option.some.inj hs)
      exact hsame _
    · rw [Option.ite_none_right_eq_some] at hs
      obtain ⟨-, hs⟩ := hs
      obtain ⟨rfl, rfl⟩ := Prod.mk.inj (Option.some.inj hs)
      exact h.release.withClosers _
  · obtain ⟨rfl, rfl⟩ := Prod.mk.inj (Option.some.inj hs)
    exact hsame _
  · cases hs

theorem Held.step {i : LiveInput} (h : s.Held os) (hs : s.step srv i = some (s', o))
    (hi : s.Provided i) : s'.Held (os ++ o) := by
  cases i with
  | loop i =>
    refine h.loopStep hs ?_
    rintro port rfl
    exact hi
  | pump n i =>
    refine h.pumpStep hs ?_
    rintro rfl
    exact hi
  | stop =>
    obtain ⟨rfl, rfl⟩ := Prod.mk.inj (Option.some.inj hs)
    exact h.stop
  | closer k i => exact h.closerStep hs

end steps

/-- In every run of a connection, its pumps and the `close()` calls of `RTSPServer.stop` in which
endpoints are created for a peer with an address and no pump starts without a subscriber while an
endpoint is stored, at most one endpoint is open or being created, and none after `run`. -/
theorem owns_one_endpoint (srv : Server) (peer : Option Str) (ssrc : Nat) (is : List LiveInput)
    (hp : EveryStep (step srv) (fun s _ i _ _ => s.Provided i) (fresh peer ssrc) is) :
    EveryStep (step srv) (fun _ h _ s o => s.OwnsOne (h ++ o)) (fresh peer ssrc) is :=
  everyStep_of_invariant Held (held_fresh peer ssrc)
    (fun _ _ _ _ _ h hs hi => h.step hs hi) (fun _ _ _ _ _ h hs hi => (h.step hs hi).ownsOne) hp

instance (s : LiveConn) (os : List Effect) : Decidable (s.OwnsOne os) :=
  inferInstanceAs (Decidable (_ ∧ _))

instance (s : LiveConn) : DecidablePred s.Provided := fun i =>
  match i with
  | .loop (.opened _) => inferInstanceAs (Decidable (s.conn.peer ≠ none))
  | .pump _ .start => inferInstanceAs (Decidable (s.conn.udp = none ∨ s.conn.sub ≠ none))
  | .loop (.request _ _ _) | .loop .skipped | .loop (.malformed _) | .loop .gone
  | .loop (.ready _ _ _) | .loop .notReady | .loop .openFailed | .loop .acquired | .loop .drained
  | .loop .lost | .loop .timedOut | .loop .joined | .loop .closed | .pump _ (.frame _)
  | .pump _ .acquired | .pump _ .drained | .pump _ .lost | .pump _ .failed | .pump _ .cancelled
  | .stop | .closer _ _ => isTrue trivial

def request (line : String) (headers : List (String × String)) : LiveInput :=
  .loop (.request (encode line.toList) (headers.map fun h => (h.1.toList, h.2.toList))
    "0123456789abcdef".toList)

def setup (transport : String) : LiveInput :=
  request "SETUP rtsp://h/cam RTSP/1.0" [("transport", transport)]

def play : LiveInput := request "PLAY rtsp://h/cam RTSP/1.0" []

def teardown : LiveInput := request "TEARDOWN rtsp://h/cam RTSP/1.0" []

/-- `RTSPServer.stop` comes while the endpoint of a SETUP is being created. -/
def stoppedWhileOpening : List LiveInput :=
  [setup "RTP/AVP;client_port=5000", .stop, .loop (.opened 50000), .closer 0 .closed,
    .loop .drained, play, .loop .drained, .pump 0 .start, .loop .gone, .pump 0 .cancelled,
    .loop .joined, .loop .closed]

theorem owns_one_endpoint_opening :
    EveryStep (step { hub := ["cam".toList], urlPath := Conn.plainPath })
      (fun _ h _ s o => s.OwnsOne (h ++ o)) (fresh (some "c".toList) 1) stoppedWhileOpening :=
  owns_one_endpoint _ _ _ _ (everyStep_of_checkEvery (by decide +kernel))

/-- A TEARDOWN and `RTSPServer.stop` await the first pump. The request loop goes on first and
creates the second pump, whose handle `close` then drops; the third takes its subscriber along.
The second crashes at `self.sub.queue`, waits for the lock that the response to the last PLAY
holds, and takes the new subscriber before the fourth pump starts: the `AssertionError` of that one
ends the `close()` of `run`. -/
def orphanedPump : List LiveInput :=
  [setup "RTP/AVP/TCP", .loop .drained, play, .loop .drained, .pump 0 .start,
    teardown, .loop .drained, .stop, .pump 0 .cancelled, .loop .joined,
    setup "RTP/AVP/TCP", .loop .drained, play, .loop .drained,
    request "OPTIONS * RTSP/1.0" [], .closer 0 .joined, .pump 1 .start, .loop .drained,
    setup "RTP/AVP/TCP", .loop .drained, play, .loop .drained, .pump 2 .start,
    teardown, .loop .drained, .pump 2 .cancelled, .loop .joined,
    setup "RTP/AVP;client_port=5000", .loop (.opened 50000), .loop .drained,
    play, .pump 1 (.frame { nals := [[0x65]], keyframe := true, ts90k := 0 }), .loop .drained,
    .pump 1 .acquired, .pump 3 .start, .loop .gone] ++
  [.loop .joined]

theorem not_owns_one_endpoint :
    ¬ EveryStep (step { hub := ["cam".toList], urlPath := Conn.plainPath })
      (fun _ h _ s o => s.OwnsOne (h ++ o)) (fresh (some "c".toList) 1) orphanedPump :=
  not_everyStep (by decide +kernel)

/-- A peer without an address: its endpoint is created, but never stored. -/
def unknownPeer : List LiveInput :=
  [setup "RTP/AVP;client_port=5000", .loop (.opened 50000)] ++ [.loop .closed]

theorem unknownPeer_leaks :
    ¬ EveryStep (step { hub := ["cam".toList], urlPath := Conn.plainPath })
      (fun _ h _ s o => s.OwnsOne (h ++ o)) (fresh none 1) unknownPeer :=
  not_everyStep (by decide +kernel)

end LiveConn
end DvrBridge
