import DvrBridge.RtspSteps

/-! The write lock of a connection: it is held and awaited exactly where the two tasks are. -/
namespace DvrBridge.Conn
open PyText FifoLock

def loopUse : LoopPc → Use
  | .locking _ _ _ => .waits
  | .draining _ _ => .holds
  | _ => .out

def pumpUse : Option Pump → Use
  | some { pc := .locking _ _, .. } | some { pc := .crashLocking, .. } => .waits
  | some { pc := .draining, .. } => .holds
  | _ => .out

def uses (loop pump : Use) : Party → Use
  | .loop => loop
  | .pump => pump

/-- The lock agrees with the two tasks. -/
def LockAgrees (c : Conn) : Prop := c.lock.Agrees (uses (loopUse c.pc) (pumpUse c.playTask))

/-- The lock as it is while the request loop is away from it. -/
def LoopOut (c : Conn) : Prop := c.lock.Agrees (uses .out (pumpUse c.playTask))

/-- The lock as it is while the pump is away from it. -/
def PumpOut (c : Conn) : Prop := c.lock.Agrees (uses (loopUse c.pc) .out)

theorem uses_ne_loop {a a' b : Use} : ∀ x, x ≠ Party.loop → uses a' b x = uses a b x
  | .pump, _ => rfl
  | .loop, h => absurd rfl h

theorem uses_ne_pump {a b b' : Use} : ∀ x, x ≠ Party.pump → uses a b' x = uses a b x
  | .loop, _ => rfl
  | .pump, h => absurd rfl h

theorem LockAgrees.loopOut {c : Conn} (h : c.LockAgrees) (hp : loopUse c.pc = .out) :
    c.LoopOut := by
  unfold LoopOut
  rw [← hp]
  exact h

theorem LockAgrees.release {c : Conn} (h : c.LockAgrees) (hp : loopUse c.pc = .holds) :
    c.release.LoopOut :=
  Agrees.release .loop h hp rfl uses_ne_loop

/-- Without a pump the lock is free for the request loop. -/
theorem LoopOut.free {c : Conn} (h : c.LoopOut) (hn : c.playTask = none) : c.lock.free = true := by
  refine h.free_of_out fun x => ?_
  cases x with
  | loop => rfl
  | pump =>
    rw [hn]
    rfl

theorem LoopOut.withEndpoint {c : Conn} (h : c.LoopOut) (n : Nat) (u : Option (Nat × Str × Int)) :
    LoopOut { c with opened := n, udp := u } := h

theorem LoopOut.sent {c c' : Conn} {handler : Option Str} {r : Response} {k : After}
    {o : List Effect} (h : c.LoopOut) (hs : Sent c handler r k c' o) : c'.LockAgrees := by
  cases hs with
  | written hf => exact h.take .loop hf rfl uses_ne_loop
  | queued => exact h.queueUp .loop rfl rfl uses_ne_loop

theorem pumpUse_of_done {c : Conn} (h : ∀ p, c.playTask = some p → p.pc = .done) :
    pumpUse c.playTask = .out := by
  cases hp : c.playTask with
  | none => rfl
  | some p =>
    obtain ⟨pc, b⟩ := p
    have hd := h _ hp
    simp only at hd
    subst hd
    rfl

theorem LoopOut.stopped {c c' : Conn} {why : Leave} {o : List Effect} (h : c.LoopOut)
    (hs : Stopped c why c' o) : c'.LockAgrees := by
  cases hs with
  | joins p hp =>
    refine Agrees.congr h fun x => ?_
    cases x with
    | loop => rfl
    | pump =>
      obtain ⟨pc, b⟩ := p
      rw [hp]
      cases pc <;> rfl
  | tornDown hd =>
    refine Agrees.congr h fun x => ?_
    cases x with
    | loop => rfl
    | pump => exact (pumpUse_of_done hd).symm
  | closes hd =>
    refine Agrees.congr h fun x => ?_
    cases x with
    | loop => rfl
    | pump => exact (pumpUse_of_done hd).symm

theorem SetupStep.loopOut {srv : Server} {c c₁ : Conn} {url : Str} {headers : Headers}
    {cseq token : Str} {out : Outcome} (h : SetupStep srv c url headers cseq token c₁ out)
    (hc : c.LoopOut) : c₁.LoopOut := by
  cases h <;> exact hc

theorem LoopOut.handlerStep {srv : Server} {c c' : Conn} {url : Str} {headers : Headers}
    {cseq token : Str} {m : Method} {o : List Effect} (h : c.LoopOut)
    (hs : HandlerStep srv c url headers cseq token m c' o) : c'.LockAgrees := by
  cases hs with
  | answers _ _ hsent | refuses _ hsent => exact h.sent hsent
  | describeCrashes _ hstop => exact h.stopped hstop
  | waits => exact h
  | setupCrashes _ hset hstop => exact (hset.loopOut h).stopped hstop
  | setupRefuses _ hset hsent | setupAnswers _ hset hsent => exact (hset.loopOut h).sent hsent
  | setupOpens _ hset => exact hset.loopOut h

theorem LockAgrees.loopStep {srv : Server} {c c' : Conn} {i : LoopInput} {o : List Effect}
    (h : c.LockAgrees) (hs : LoopStep srv c i c' o) : c'.LockAgrees := by
  cases hs with
  | badLine hp _ hsent | unauthorized hp _ _ hsent | unknown hp _ _ _ hsent
  | malformed hp _ hsent | ready hp _ hsent | notReady hp hsent =>
    exact (h.loopOut (by rw [hp]; rfl)).sent hsent
  | authCrashes hp _ _ hstop | gone hp hstop | readyCrashes hp hstop | openFails hp hstop
  | joined hp _ _ hstop => exact (h.loopOut (by rw [hp]; rfl)).stopped hstop
  | handles hp _ _ _ hstep => exact (h.loopOut (by rw [hp]; rfl)).handlerStep hstep
  | skipped => exact h
  | opened hp _ _ hsent => exact ((h.loopOut (by rw [hp]; rfl)).withEndpoint _ _).sent hsent
  | openedCrashes hp _ hstop => exact ((h.loopOut (by rw [hp]; rfl)).withEndpoint _ _).stopped hstop
  | acquired hp ht =>
    unfold LockAgrees at h
    rw [hp] at h
    exact h.turn .loop ht rfl uses_ne_loop
  | drained hp | playsOn hp => exact h.release (by rw [hp]; rfl)
  | subscribes hp hn =>
    refine Agrees.congr (h.release (by rw [hp]; rfl)) fun x => ?_
    cases x with
    | loop => rfl
    | pump =>
      change Use.out = pumpUse c.playTask
      rw [hn]
      rfl
  | playCrashes hp _ _ hstop | tearsDown hp hstop | quits hp _ hstop =>
    exact (h.release (by rw [hp]; rfl)).stopped hstop
  | timedOut hp hsent => exact (h.release (by rw [hp]; rfl)).sent hsent
  | closed hp => exact (h.loopOut (by rw [hp]; rfl))

theorem PumpOut.exited {c c' : Conn} {p : Pump} {o : List Effect} (h : c.PumpOut)
    (hs : Exited c p c' o) : c'.LockAgrees := by
  cases hs <;> exact h

theorem pumpUse_of_pc {p : Pump} : pumpUse (some p) = match p.pc with
    | .locking _ _ | .crashLocking => .waits
    | .draining => .holds
    | _ => .out := by
  obtain ⟨pc, b⟩ := p
  cases pc <;> rfl

theorem pumpUse_of_waiting {p : Pump} (h : isWaiting p.pc = true) :
    pumpUse (some p) = .waits := by
  obtain ⟨pc, b⟩ := p
  cases pc <;> first | rfl | cases h

theorem LockAgrees.pumpStep {c c' : Conn} {p : Pump} {i : PumpInput} {o : List Effect}
    (h : c.LockAgrees) (hp : c.playTask = some p) (hs : PumpStep c p i c' o) : c'.LockAgrees := by
  unfold LockAgrees at h
  rw [hp] at h
  have hout (hu : pumpUse (some p) = .out) : c.PumpOut := by
    rw [hu] at h
    exact h
  have hrel (hd : p.pc = .draining) : c.release.PumpOut := by
    rw [pumpUse_of_pc, hd] at h
    exact h.release .pump rfl rfl uses_ne_pump
  have hleave (hw : isWaiting p.pc = true) : (c.leaveQueue .pump).PumpOut := by
    rw [pumpUse_of_waiting hw] at h
    exact h.leaveQueue .pump rfl rfl uses_ne_pump
  cases hs with
  | unstarted hpc => exact hout (by rw [pumpUse_of_pc, hpc])
  | cancelledGetting hpc _ hex => exact (hout (by rw [pumpUse_of_pc, hpc])).exited hex
  | cancelledWaiting hw _ hex => exact (hleave hw).exited hex
  | cancelledDraining hpc _ hex | lost hpc _ hex | crashes hpc _ _ hex =>
    exact (hrel hpc).exited hex
  | starts hpc => exact hout (by rw [pumpUse_of_pc, hpc])
  | writes hpc _ _ hf =>
    rw [pumpUse_of_pc, hpc] at h
    exact h.take .pump hf rfl uses_ne_pump
  | queues hpc =>
    rw [pumpUse_of_pc, hpc] at h
    exact h.queueUp .pump rfl rfl uses_ne_pump
  | sends | drops =>
    unfold LockAgrees
    simp only [hp]
    exact h
  | acquired hpc _ ht =>
    exact h.turn .pump ht rfl uses_ne_pump
  | drained hpc => exact hrel hpc
  | crashWaits hpc => exact (hrel hpc).queueUp .pump rfl rfl uses_ne_pump
  | crashTurn hpc _ _ hex => exact (hleave (by rw [hpc]; rfl)).exited hex

theorem LockAgrees.step {srv : Server} {c c' : Conn} {i : ConnInput} {o : List Effect}
    (h : c.LockAgrees) (hs : c.step srv i = some (c', o)) : c'.LockAgrees := by
  rcases step_cases hs with ⟨j, rfl, hl⟩ | ⟨j, p, rfl, hp, -, hps⟩
  · exact h.loopStep hl
  · exact h.pumpStep hp hps

theorem lockAgrees_fresh (peer : Option Str) (ssrc : Nat) : (fresh peer ssrc).LockAgrees :=
  agrees_new fun x => by cases x <;> rfl

end DvrBridge.Conn
