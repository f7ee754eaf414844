import DvrBridge.RtspSteps

/-! Whether a connection that has left its session leaves a subscriber behind. -/
namespace DvrBridge.Conn
open Machine PyText

/-- The end of `_on_teardown` or of `run`. -/
def Left (o : List Effect) : Prop := .teardownDone ∈ o ∨ .ended ∈ o

/-- No `CancelledError` reaches a pump that has not taken its first step. -/
def CancelsStarted (c : Conn) : ConnInput → Prop
  | .pump .cancelled => ∀ p ∈ c.playTask, p.pc ≠ .created
  | _ => True

/-- The pump is over. -/
def Idle (c : Conn) : Prop := ∀ p, c.playTask = some p → p.pc = .done

/-- The one subscriber of this connection in a stream is the one its running pump reads. -/
structure Owned (c : Conn) : Prop where
  idle : c.Idle → c.subs = []
  busy : ¬ c.Idle → ∃ s x, c.stream = some s ∧ c.sub = some x ∧ c.subs = [(s, x)]
  gone : c.pc = .closing ∨ c.pc = .ended → c.playTask = none

/-- What a step leaves: the invariant, and no subscriber if the session was left. -/
def Keeps (c : Conn) (o : List Effect) : Prop := c.Owned ∧ (Left o → c.subs = [])

instance (o : List Effect) : Decidable (Left o) :=
  inferInstanceAs (Decidable (.teardownDone ∈ o ∨ .ended ∈ o))

theorem left_append (o o' : List Effect) : Left (o ++ o') ↔ Left o ∨ Left o' := by
  simp only [Left, List.mem_append]
  tauto

theorem left_cons (e : Effect) (o : List Effect) :
    Left (e :: o) ↔ e = .teardownDone ∨ e = .ended ∨ Left o := by
  simp only [Left, List.mem_cons, eq_comm]
  tauto

theorem not_left_nil : ¬ Left [] := by simp [Left]

theorem not_left_released (c : Conn) : ¬ Left c.released :=
  not_or.mpr ⟨not_mem_released (by simp) c, not_mem_released (by simp) c⟩

theorem Keeps.append {c : Conn} {pre o : List Effect} (h : c.Keeps o) (hp : ¬ Left pre) :
    c.Keeps (pre ++ o) :=
  ⟨h.1, fun hl => h.2 (((left_append pre o).mp hl).resolve_left hp)⟩

theorem Keeps.cons {c : Conn} {e : Effect} {o : List Effect} (h : c.Keeps o)
    (ht : e ≠ .teardownDone) (hd : e ≠ .ended) : c.Keeps (e :: o) :=
  ⟨h.1, fun hl => h.2 ((((left_cons e o).mp hl).resolve_left ht).resolve_left hd)⟩

/-- A step that keeps the pump and the subscribers. -/
theorem Owned.keeps {c c' : Conn} {o : List Effect} (h : c.Owned)
    (hpl : c'.playTask = c.playTask) (hsubs : c'.subs = c.subs)
    (hs : c.Idle ∨ c'.stream = c.stream ∧ c'.sub = c.sub)
    (hg : c'.pc ≠ .closing ∧ c'.pc ≠ .ended) (ho : ¬ Left o) : c'.Keeps o := by
  have hi : c'.Idle ↔ c.Idle := by simp only [Idle, hpl]
  refine ⟨⟨fun hid => hsubs ▸ h.idle (hi.mp hid), fun hid => ?_, fun hpc => ?_⟩,
    fun hl => absurd hl ho⟩
  · have hb := fun he => hid (hi.mpr he)
    obtain ⟨s, x, h₁, h₂, h₃⟩ := h.busy hb
    rcases hs with hs | ⟨hs, hx⟩
    · exact absurd hs hb
    · exact ⟨s, x, hs.trans h₁, hx.trans h₂, hsubs.trans h₃⟩
  · rcases hpc with hpc | hpc
    · exact absurd hpc hg.1
    · exact absurd hpc hg.2

theorem Owned.sent {c c' : Conn} {handler : Option Str} {r : Response} {k : After}
    {o : List Effect} (h : c.Owned) (hs : Sent c handler r k c' o) : c'.Keeps o := by
  cases hs with
  | written => exact h.keeps rfl rfl (.inr ⟨rfl, rfl⟩) (by simp) (by simp [Left])
  | queued => exact h.keeps rfl rfl (.inr ⟨rfl, rfl⟩) (by simp) not_left_nil

theorem Owned.stopped {c c' : Conn} {why : Leave} {o : List Effect} (h : c.Owned)
    (hs : Stopped c why c' o) : c'.Keeps o := by
  cases hs with
  | joins p hp hd =>
    have hb : ¬ c.Idle := fun hi => hd (hi p hp)
    refine ⟨⟨fun hi => ?_, fun _ => h.busy hb, by simp⟩, fun hl => absurd hl not_left_nil⟩
    exact absurd (hi _ rfl) hd
  | tornDown hi => exact ⟨⟨fun _ => h.idle hi, fun hn => absurd (by simp [Idle]) hn, by simp⟩,
      fun _ => h.idle hi⟩
  | closes hi => exact ⟨⟨fun _ => h.idle hi, fun hn => absurd (by simp [Idle]) hn, fun _ => rfl⟩,
      fun _ => h.idle hi⟩

/-- The lock is no part of the invariant. -/
theorem Owned.withLock {c : Conn} (h : c.Owned) (l : FifoLock Party) : Owned { c with lock := l } :=
  ⟨h.idle, h.busy, h.gone⟩

/-- Nor are the endpoints. -/
theorem Owned.withEndpoint {c : Conn} (h : c.Owned) (n : Nat) (u : Option (Nat × Str × Int)) :
    Owned { c with opened := n, udp := u } :=
  ⟨h.idle, h.busy, h.gone⟩

theorem SetupStep.same {srv : Server} {c c₁ : Conn} {url : Str} {headers : Headers}
    {cseq token : Str} {out : Outcome} (h : SetupStep srv c url headers cseq token c₁ out) :
    c₁.playTask = c.playTask ∧ c₁.subs = c.subs ∧ c₁.pc = c.pc := by
  cases h <;> exact ⟨rfl, rfl, rfl⟩

/-- Without a pump a SETUP may change the stream. -/
theorem Owned.setup {srv : Server} {c c₁ : Conn} {url : Str} {headers : Headers}
    {cseq token : Str} {out : Outcome} (h : c.Owned) (hp : c.playTask = none)
    (hs : SetupStep srv c url headers cseq token c₁ out) : c₁.Owned := by
  obtain ⟨hpl, hsubs, hpc⟩ := hs.same
  have hi : c.Idle := by simp [Idle, hp]
  refine ⟨fun _ => hsubs ▸ h.idle hi, fun hn => absurd ?_ hn, fun _ => hpl.trans hp⟩
  simp [Idle, hpl, hp]

theorem Owned.handlerStep {srv : Server} {c c' : Conn} {url : Str} {headers : Headers}
    {cseq token : Str} {m : Method} {o : List Effect} (h : c.Owned)
    (hs : HandlerStep srv c url headers cseq token m c' o) : c'.Keeps o := by
  cases hs with
  | answers _ _ hsent => exact h.sent hsent
  | refuses _ hsent => exact h.sent hsent
  | describeCrashes _ hstop => exact (h.stopped hstop).cons (by simp) (by simp)
  | waits => exact h.keeps rfl rfl (.inr ⟨rfl, rfl⟩) (by simp) (by simp [Left])
  | setupCrashes hp hset hstop =>
    exact (((h.setup hp hset).stopped hstop).cons (by simp) (by simp)).append
      (not_left_released c)
  | setupRefuses hp hset hsent =>
    exact ((h.setup hp hset).sent hsent).append (not_left_released c)
  | setupAnswers hp hset hsent =>
    exact ((h.setup hp hset).sent hsent).append (not_left_released c)
  | setupOpens hp hset =>
    have hc := h.setup hp hset
    exact hc.keeps rfl rfl (.inr ⟨rfl, rfl⟩) (by simp) (not_left_released c)

theorem Owned.loopStep {srv : Server} {c c' : Conn} {i : LoopInput} {o : List Effect}
    (h : c.Owned) (hs : LoopStep srv c i c' o) : c'.Keeps o := by
  cases hs with
  | badLine _ _ hsent | unauthorized _ _ _ hsent | unknown _ _ _ _ hsent | malformed _ _ hsent
  | ready _ _ hsent | notReady _ hsent => exact h.sent hsent
  | authCrashes _ _ _ hstop | readyCrashes _ hstop | openFails _ hstop =>
    exact (h.stopped hstop).cons (by simp) (by simp)
  | handles _ _ _ _ hstep => exact (h.handlerStep hstep).cons (by simp) (by simp)
  | skipped => exact ⟨h, fun hl => absurd hl not_left_nil⟩
  | gone _ hstop => exact h.stopped hstop
  | opened _ _ _ hsent => exact ((h.withEndpoint _ _).sent hsent).cons (by simp) (by simp)
  | openedCrashes _ _ hstop =>
    exact (((h.withEndpoint _ _).stopped hstop).cons (by simp) (by simp)).cons (by simp) (by simp)
  | acquired => exact h.keeps rfl rfl (.inr ⟨rfl, rfl⟩) (by simp) (by simp [Left])
  | drained | playsOn => exact h.keeps rfl rfl (.inr ⟨rfl, rfl⟩) (by simp) not_left_nil
  | @subscribes _ s _ hp hst =>
    have hi : c.Idle := by simp [Idle, hp]
    refine ⟨⟨fun hid => ?_, fun _ => ⟨s, c.made, hst, rfl, ?_⟩, by simp⟩, fun hl => ?_⟩
    · cases hid {} rfl
    · change c.subs ++ [(s, c.made)] = [(s, c.made)]
      rw [h.idle hi, List.nil_append]
    · simp [Left] at hl
  | playCrashes _ _ _ hstop =>
    exact ((h.withLock _).stopped hstop).cons (by simp) (by simp)
  | tearsDown _ hstop => exact (h.withLock _).stopped hstop
  | quits _ _ hstop => exact (h.withLock _).stopped hstop
  | timedOut _ hsent => exact (h.withLock _).sent hsent
  | joined _ _ _ hstop => exact h.stopped hstop
  | closed hp =>
    have hn := h.gone (.inl hp)
    have hi : c.Idle := by simp [Idle, hn]
    exact ⟨⟨h.idle, h.busy, fun _ => hn⟩, fun _ => h.idle hi⟩

/-- The `finally` of the pump removes the subscriber. -/
theorem Owned.exited {c c' : Conn} {p : Pump} {o : List Effect} (h : c.Owned) (hb : ¬ c.Idle)
    (hs : Exited c p c' o) : c'.Keeps o := by
  obtain ⟨s, x, hst, hsub, hsubs⟩ := h.busy hb
  cases hs with
  | @unsubscribes y t hy ht =>
    have hys : y = x := Option.some.inj (hy.symm.trans hsub)
    have hts : t = s := Option.some.inj (ht.symm.trans hst)
    have hnil : c.subs.erase (t, y) = [] := by simp [hsubs, hys, hts]
    refine ⟨⟨fun _ => hnil, fun hn => absurd ?_ hn, fun hpc => ?_⟩, fun _ => hnil⟩
    · rintro q ⟨⟩
      rfl
    · exact absurd (by simp [Idle, h.gone hpc]) hb
  | bare hn => simp [hst, hsub] at hn

theorem Owned.pumpStep {c c' : Conn} {p : Pump} {i : PumpInput} {o : List Effect} (h : c.Owned)
    (hp : c.playTask = some p) (hd : p.pc ≠ .done) (hs : PumpStep c p i c' o)
    (hc : i = .cancelled → p.pc ≠ .created) : c'.Keeps o := by
  have hb : ¬ c.Idle := fun hi => hd (hi p hp)
  have hpc : ¬ (c.pc = .closing ∨ c.pc = .ended) := fun hpc => by simp [h.gone hpc] at hp
  -- a step that leaves the pump running and the subscriber in place
  have hrun {c₁ : Conn} {q : Pump} {e : List Effect} (hq : q.pc ≠ .done)
      (hpl : c₁.playTask = some q) (hsubs : c₁.subs = c.subs) (hst : c₁.stream = c.stream)
      (hsub : c₁.sub = c.sub) (hpc₁ : c₁.pc = c.pc) (he : ¬ Left e) : c₁.Keeps e := by
    refine ⟨⟨fun hi => absurd (hi q hpl) hq, fun _ => ?_, fun hcl => absurd (hpc₁ ▸ hcl) hpc⟩,
      fun hl => absurd hl he⟩
    rw [hst, hsub, hsubs]
    exact h.busy hb
  cases hs with
  | unstarted hcr => exact absurd hcr (hc rfl)
  | cancelledGetting _ _ hex => exact h.exited hb hex
  | cancelledWaiting _ _ hex => exact Owned.exited (c := c.leaveQueue _) (h.withLock _) hb hex
  | cancelledDraining _ _ hex | lost _ _ hex =>
    exact Owned.exited (c := c.release) (h.withLock _) hb hex
  | starts => exact hrun (by simp) rfl rfl rfl rfl rfl not_left_nil
  | writes => exact hrun (by simp) rfl rfl rfl rfl rfl (by simp [Left])
  | queues => exact hrun (by simp) rfl rfl rfl rfl rfl not_left_nil
  | sends => exact hrun hd hp rfl rfl rfl rfl (by simp [Left])
  | drops => exact hrun hd hp rfl rfl rfl rfl not_left_nil
  | acquired => exact hrun (by simp) rfl rfl rfl rfl rfl (by simp [Left])
  | drained | crashWaits => exact hrun (by simp) rfl rfl rfl rfl rfl not_left_nil
  | crashes _ _ _ hex =>
    exact (Owned.exited (c := c.release) (h.withLock _) hb hex).cons (by simp) (by simp)
  | crashTurn _ _ _ hex =>
    exact (Owned.exited (c := c.leaveQueue _) (h.withLock _) hb hex).cons (by simp) (by simp)

theorem Owned.step {srv : Server} {c c' : Conn} {i : ConnInput} {o : List Effect} (h : c.Owned)
    (hs : c.step srv i = some (c', o)) (hc : c.CancelsStarted i) : c'.Keeps o := by
  rcases step_cases hs with ⟨j, rfl, hl⟩ | ⟨j, p, rfl, hp, hd, hps⟩
  · exact h.loopStep hl
  · refine h.pumpStep hp hd hps ?_
    rintro rfl
    exact hc p hp

theorem owned_fresh (peer : Option Str) (ssrc : Nat) : (fresh peer ssrc).Owned :=
  ⟨fun _ => rfl, fun hb => absurd (by simp [Idle, fresh]) hb, fun _ => rfl⟩

/-- In every run in which no `CancelledError` reaches a pump before its first step, the connection
has no subscriber in any stream when `_on_teardown` or `run` has finished. -/
theorem left_without_subscriber (srv : Server) (peer : Option Str) (ssrc : Nat)
    (is : List ConnInput)
    (hc : EveryStep (step srv) (fun c _ i _ _ => c.CancelsStarted i) (fresh peer ssrc) is) :
    EveryStep (step srv) (fun _ _ _ c' o => Left o → c'.subs = []) (fresh peer ssrc) is :=
  everyStep_of_invariant (fun c _ => c.Owned) (owned_fresh peer ssrc)
    (fun _ _ _ _ _ h hs hc => (h.step hs hc).1) (fun _ _ _ _ _ h hs hc => (h.step hs hc).2) hc

/-- SETUP, PLAY and TEARDOWN in one packet: the pump is cancelled before it starts. -/
def pipelined : List ConnInput :=
  [request "SETUP rtsp://h/cam RTSP/1.0" [("transport", "RTP/AVP/TCP")], .loop .drained,
    request "PLAY rtsp://h/cam RTSP/1.0" [], .loop .drained,
    request "TEARDOWN rtsp://h/cam RTSP/1.0" [], .loop .drained, .pump .cancelled] ++
  [.loop .joined]

theorem pipelined_leaves_subscriber :
    ¬ EveryStep (step { hub := ["cam".toList], urlPath := plainPath })
      (fun _ _ _ c' o => Left o → c'.subs = []) (fresh (some "c".toList) 1) pipelined :=
  not_everyStep (by decide +kernel)

instance (c : Conn) : (i : ConnInput) → Decidable (c.CancelsStarted i)
  | .pump .cancelled => inferInstanceAs (Decidable (∀ p ∈ c.playTask, p.pc ≠ .created))
  | .loop _ | .pump .start | .pump (.frame _) | .pump .acquired | .pump .drained | .pump .lost
  | .pump .failed => isTrue trivial

/-- The same requests, with the pump started in time. -/
def unhurried : List ConnInput :=
  [request "SETUP rtsp://h/cam RTSP/1.0" [("transport", "RTP/AVP/TCP")], .loop .drained,
    request "PLAY rtsp://h/cam RTSP/1.0" [], .loop .drained, .pump .start,
    request "TEARDOWN rtsp://h/cam RTSP/1.0" [], .loop .drained, .pump .cancelled, .loop .joined]

theorem unhurried_left_without_subscriber :
    EveryStep (step { hub := ["cam".toList], urlPath := plainPath })
      (fun _ _ _ c' o => Left o → c'.subs = []) (fresh (some "c".toList) 1) unhurried :=
  left_without_subscriber _ _ _ unhurried (everyStep_of_checkEvery (by decide +kernel))

end DvrBridge.Conn
