import DvrBridge.RtspSteps

/-! A connection that `RTSPServer.stop` may close while it is served: the request loop, every
`_pump` task it has created, and the `close()` calls from outside. A `close()` that has awaited one
pump drops whatever `play_task` is there by then, so that a pump may run on without a handle. -/
namespace DvrBridge
open PyText

/-- Who takes the write lock. -/
inductive Writer where
  | loop
  | pump (n : Nat)
  deriving DecidableEq

def Writer.party : Writer → Party
  | .loop => .loop
  | .pump _ => .pump

def Party.other : Party → Party
  | .loop => .pump
  | .pump => .loop

/-- The lock as `who` sees it: everybody else is the other party. -/
def FifoLock.seenBy (l : FifoLock Writer) (who : Writer) : FifoLock Party :=
  let see := fun x => if x = who then who.party else who.party.other
  { holder := l.holder.map see, waiters := l.waiters.map see }

/-- The lock once `who` has changed what it sees to `v`. -/
def FifoLock.adopt (l : FifoLock Writer) (who : Writer) (v : FifoLock Party) : FifoLock Writer where
  holder := v.holder.bind fun x => if x = who.party then some who else l.holder
  waiters :=
    if who.party ∈ v.waiters then
      if who ∈ l.waiters then l.waiters else l.waiters ++ [who]
    else l.waiters.erase who

/-- A task that runs `_pump`; it fails at its `assert` when there is no subscriber. -/
structure PumpTask where
  pump : Pump := {}
  failed : Bool := false
  deriving DecidableEq

/-- Where a `close()` that `RTSPServer.stop` has called is suspended. -/
inductive Closer where
  /-- awaiting the cancelled `play_task` -/
  | joining (task : Nat)
  /-- in `wait_closed` -/
  | closing
  | ended
  deriving DecidableEq

structure LiveConn where
  /-- the fields of the connection, but for its lock and its `play_task` -/
  conn : Conn
  lock : FifoLock Writer := {}
  /-- in the order of their creation -/
  tasks : List PumpTask := []
  playTask : Option Nat := none
  /-- the `play_task` when the request loop was last suspended -/
  awaited : Option Nat := none
  closers : List Closer := []

inductive CloserInput where
  | joined
  | closed

inductive LiveInput where
  | loop (i : LoopInput)
  | pump (n : Nat) (i : PumpInput)
  /-- `RTSPServer.stop` calls `close()` -/
  | stop
  | closer (k : Nat) (i : CloserInput)

/-- `self.sub.queue` when the pump comes round: without a subscriber an `AttributeError`. -/
def Conn.nextFrame (c : Conn) (p : Pump) : Conn × List Effect :=
  if p.pc = .getting ∧ c.sub = none then c.pumpCrash p else (c, [])

namespace LiveConn

def pumpOf (s : LiveConn) (n : Nat) : Option Pump := s.tasks[n]?.map (·.pump)

def setPump (s : LiveConn) (n : Nat) (p : Pump) : LiveConn :=
  { s with tasks := s.tasks.modify n fun t => { t with pump := p } }

/-- The connection as `who` finds it, with `p` for its `play_task`. -/
def seenBy (s : LiveConn) (who : Writer) (p : Option Pump) : Conn :=
  { s.conn with lock := s.lock.seenBy who, playTask := p }

/-- The connection once `who` has left it as `c`. -/
def leftBy (s : LiveConn) (who : Writer) (c : Conn) : LiveConn :=
  { s with conn := c, lock := s.lock.adopt who c.lock }

/-! The request loop. -/

def atLoop (s : LiveConn) : Conn := s.seenBy .loop (s.playTask.bind s.pumpOf)

/-- The `play_task` after a step of the request loop: dropped, the same or a new one. -/
def putTask (s : LiveConn) : Option Pump → LiveConn
  | none => { s with playTask := none }
  | some p =>
    match s.playTask with
    | some n => s.setPump n p
    | none => { s with tasks := s.tasks ++ [{ pump := p }], playTask := some s.tasks.length }

theorem putTask_eq (s : LiveConn) (p : Option Pump) :
    ∃ tasks playTask, s.putTask p = { s with tasks := tasks, playTask := playTask } := by
  unfold putTask
  split
  · exact ⟨_, _, rfl⟩
  · split <;> exact ⟨_, _, rfl⟩

@[simp] theorem putTask_conn (s : LiveConn) (p : Option Pump) : (s.putTask p).conn = s.conn := by
  obtain ⟨_, _, h⟩ := s.putTask_eq p
  rw [h]

@[simp] theorem putTask_lock (s : LiveConn) (p : Option Pump) : (s.putTask p).lock = s.lock := by
  obtain ⟨_, _, h⟩ := s.putTask_eq p
  rw [h]

@[simp] theorem putTask_closers (s : LiveConn) (p : Option Pump) :
    (s.putTask p).closers = s.closers := by
  obtain ⟨_, _, h⟩ := s.putTask_eq p
  rw [h]

def afterLoop (s : LiveConn) (r : Conn × List Effect) : LiveConn × List Effect :=
  let s := (s.leftBy .loop r.1).putTask r.1.playTask
  ({ s with awaited := s.playTask }, r.2)

/-- The `AssertionError` of an awaited pump: it ends `_on_teardown`, and `close` before
`_release_transport`. -/
def joinFails (s : LiveConn) : Leave → LiveConn × List Effect
  | .teardown => s.afterLoop s.atLoop.crash
  | .close => ({ s with conn := { s.conn with pc := .ended } }, [.ended])

/-- The request loop goes on after the task it awaits; awaiting a failed task is a step too. -/
def loopJoined (s : LiveConn) (why : Leave) : Option (LiveConn × List Effect) :=
  (s.awaited.bind (s.tasks[·]?)).bind fun t =>
    if t.failed then some (s.joinFails why)
    else if t.pump.pc = .done then
      some (s.afterLoop (({ s.atLoop with playTask := none } : Conn).afterStop why))
    else none

def loopStep (srv : Server) (s : LiveConn) (i : LoopInput) : Option (LiveConn × List Effect) :=
  match s.conn.pc, i with
  | .joining why, .joined => s.loopJoined why
  | _, _ => (s.atLoop.loopStep srv i).map s.afterLoop

/-! The pumps. -/

def afterPump (s : LiveConn) (n : Nat) (p : Pump) (r : Conn × List Effect) :
    LiveConn × List Effect :=
  let p := r.1.playTask.getD p
  let (c, o) := r.1.nextFrame p
  ((s.leftBy (.pump n) c).setPump n (c.playTask.getD p), r.2 ++ o)

def pumpStep (s : LiveConn) (n : Nat) (i : PumpInput) : Option (LiveConn × List Effect) :=
  s.tasks[n]?.bind fun t =>
    if t.failed then none
    else
      match t.pump.pc, t.pump.cancelRequested, s.conn.sub, i with
      -- `assert self.sub is not None`
      | .created, false, none, .start =>
        some ({ s with tasks := s.tasks.set n { t with failed := true } }, [])
      | _, _, _, _ =>
        ((s.seenBy (.pump n) (some t.pump)).pumpStep t.pump i).map (s.afterPump n t.pump)

/-! The `close()` calls of `RTSPServer.stop`. -/

/-- `close` from the end of `_stop_play` to `wait_closed`. -/
def release (s : LiveConn) : LiveConn × List Effect :=
  let (c, o) := s.conn.releaseTransport
  ({ s with conn := c, playTask := none }, o ++ [.closeWriter])

def closes (s : LiveConn) : LiveConn × List Effect :=
  let (s, o) := s.release
  ({ s with closers := s.closers ++ [.closing] }, o)

def stop (s : LiveConn) : LiveConn × List Effect :=
  match s.playTask with
  | none => s.closes
  | some n =>
    match s.pumpOf n with
    | none => s.closes
    | some p =>
      if p.pc = .done then s.closes
      else
        let s := s.setPump n { p with cancelRequested := true }
        ({ s with closers := s.closers ++ [.joining n] }, [])

def closerStep (s : LiveConn) (k : Nat) (i : CloserInput) : Option (LiveConn × List Effect) :=
  match s.closers[k]?, i with
  | some (.joining n), .joined =>
    s.tasks[n]?.bind fun t =>
      -- the exception ends `close()`; `gather` keeps it
      if t.failed then some ({ s with closers := s.closers.set k .ended }, [])
      else if t.pump.pc = .done then
        let (s, o) := s.release
        some ({ s with closers := s.closers.set k .closing }, o)
      else none
  | some .closing, .closed => some ({ s with closers := s.closers.set k .ended }, [])
  | _, _ => none

def step (srv : Server) (s : LiveConn) : LiveInput → Option (LiveConn × List Effect)
  | .loop i => s.loopStep srv i
  | .pump n i => s.pumpStep n i
  | .stop => some s.stop
  | .closer k i => s.closerStep k i

/-- A connection that has just been accepted. -/
def fresh (peer : Option Str) (ssrc : Nat) : LiveConn := { conn := Conn.fresh peer ssrc }

end LiveConn
end DvrBridge
