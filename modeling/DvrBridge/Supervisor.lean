import DvrBridge.Machine
import DvrBridge.Stream

/-! The event loop around one stream: the supervisor tasks that run `_run`, the callers of the
subscriber API, the waiters of `wait_ready` and the calls of `stop`. A step is what one task does
between two awaits; its input names the task, what the awaited operation gave and the readings of
the monotonic clock. -/
namespace DvrBridge

def backoffStart : ℚ := 1
def backoffCap : ℚ := 15
/-- a connection alive this long resets the backoff -/
def stableReset : ℚ := 30

/-- Why `gen.aclose()` is awaited. -/
inductive Closing where
  | idle | failed | cancelled
  deriving DecidableEq

/-- Where a supervisor task is suspended. -/
inductive RunPc where
  | created
  /-- in `gen.__anext__()` -/
  | next
  | closing (why : Closing)
  /-- in `wait_for(self._wake.wait(), backoff)` -/
  | backoff
  | done
  deriving DecidableEq

/-- A driver instance and the frames it has yielded so far. -/
structure Driver where
  serial : Nat := 0
  yielded : List VideoFrame := []

structure RunTask where
  pc : RunPc := .created
  cancelRequested : Bool := false
  backoff : ℚ := backoffStart
  driver : Driver := {}
  mapper : TimestampMapper := {}
  started : ℚ := 0

/-- `if time.monotonic() - started > _STABLE_RESET` -/
def RunTask.resetBackoff (k : RunTask) (now : ℚ) : RunTask :=
  { k with backoff := if now - k.started > stableReset then backoffStart else k.backoff }

/-- `backoff = min(backoff * 2, _BACKOFF_CAP)` -/
def RunTask.doubleBackoff (k : RunTask) : RunTask :=
  { k with backoff := min (k.backoff * 2) backoffCap }

/-- A pending call of `wait_ready`; `woken` once the event it awaits was set. -/
structure Waiter where
  id : Nat
  woken : Bool := false
  deriving DecidableEq

structure World where
  stream : Stream := {}
  /-- all tasks ever created for `_run`; a task's name is its position -/
  tasks : List RunTask := []
  /-- identities of all `Subscriber` objects ever made -/
  objects : List Nat := []
  waiters : List Waiter := []
  /-- tasks awaited by calls of `stop` -/
  stoppers : List Nat := []
  drivers : Nat := 0
  clock : ℚ := 0

/-- One `_on_frame` call that relayed its frame. -/
structure Relay where
  conn : Nat
  put : Put
  deriving DecidableEq

namespace World

def taskDone (w : World) (t : Nat) : Bool :=
  match w.tasks[t]? with
  | some k => decide (k.pc = .done)
  | none => true

def setTask (w : World) (t : Nat) (k : RunTask) : World := { w with tasks := w.tasks.set t k }

def createTask (w : World) : World :=
  { w with
    tasks := w.tasks ++ [{}]
    stream := { w.stream with task := some w.tasks.length } }

def ensureRunning (w : World) : World :=
  match w.stream.task with
  | some t => if w.taskDone t then w.createTask else w
  | none => w.createTask

def touch (w : World) (now : ℚ) : World :=
  ({ w with stream := { w.stream with lastActivity := now }, clock := now } : World).ensureRunning

def subscribe (w : World) (x : Nat) (now : ℚ) : World :=
  let s := { w.stream with subs := w.stream.subs ++ [{ id := x }], wake := true }
  ({ w with stream := s, objects := x :: w.objects } : World).touch now

def unsubscribe (w : World) (x : Nat) (now : ℚ) : World :=
  { w with
    stream := { w.stream with subs := w.stream.subs.filter (·.id ≠ x), lastActivity := now }
    clock := now }

/-- The subscriber's reader takes one item off its queue. -/
def get (w : World) (x : Nat) : World :=
  { w with
    stream := { w.stream with
      subs := w.stream.subs.map fun sub =>
        if sub.id = x then { sub with queue := sub.queue.tail } else sub } }

def waitReady (w : World) (id : Nat) (now : ℚ) : World :=
  let w := w.touch now
  if w.stream.ready then w else { w with waiters := w.waiters ++ [{ id := id }] }

/-- Cancel the task and await it; a finished task is not awaited. -/
def stop (w : World) : World :=
  match w.stream.task with
  | none => w
  | some t =>
    match w.tasks[t]? with
    | none => { w with stream := { w.stream with task := none } }
    | some k =>
      if k.pc = .done then { w with stream := { w.stream with task := none } }
      else { w.setTask t { k with cancelRequested := true } with stoppers := w.stoppers ++ [t] }

/-- `self._ready.set()` makes the current waiters runnable. -/
def wakeWaiters (w : World) : World :=
  if w.stream.ready then { w with waiters := w.waiters.map fun x => { x with woken := true } }
  else w

/-- The outer `finally` and the end of the coroutine after a `return` or an exception. -/
def leave (w : World) (t : Nat) (k : RunTask) : World :=
  ({ w with stream := { w.stream with ready := false } } : World).setTask t { k with pc := .done }

/-- The end of the coroutine after the loop condition failed. -/
def leaveLoop (w : World) (t : Nat) (k : RunTask) : World :=
  let w := { w with stream := { w.stream with ready := false, task := none } }
  let w := if w.stream.subs.isEmpty then w else w.ensureRunning
  w.setTask t { k with pc := .done }

def connect (w : World) (t : Nat) (k : RunTask) (now : ℚ) : World :=
  { w.setTask t { k with
      pc := .next, driver := { serial := w.drivers }, mapper := {}, started := now } with
    drivers := w.drivers + 1 }

/-- `while not self._idle_expired()` -/
def loopHead (w : World) (t : Nat) (k : RunTask) (now₁ now₂ : ℚ) : World :=
  if w.stream.idleExpired now₁ then w.leaveLoop t k else w.connect t k now₂

/-- The stream after `_on_frame` got one frame, and what was relayed. -/
def frameResult (w : World) (k : RunTask) (f : VideoFrame) (info : StreamInfo) (now : ℚ) :
    Stream × Option Put :=
  ({ w.stream with info := info } : Stream).onFrame f.payload (k.mapper.map f.tsMs now).rtp
    f.keyframe

/-- One frame and the idle test after it. -/
def frame (w : World) (t : Nat) (k : RunTask) (f : VideoFrame) (info : StreamInfo)
    (now₁ now₂ : ℚ) : World × List Relay :=
  let r := w.frameResult k f info now₁
  let w := ({ w with stream := r.1 } : World).wakeWaiters
  (w.setTask t { k with
      pc := if r.1.idleExpired now₂ then .closing .idle else .next
      mapper := k.mapper.map f.tsMs now₁
      driver := { k.driver with yielded := k.driver.yielded ++ [f] } },
    (r.2.map fun put => ⟨k.driver.serial, put⟩).toList)

/-- After `gen.aclose()` of a driver that failed or ended. -/
def afterFailure (w : World) (t : Nat) (k : RunTask) (now₁ now₂ : ℚ) : World :=
  let k := k.resetBackoff now₁
  if w.stream.idleExpired now₂ then w.leave t k
  else
    -- a reconnected device may return a different resolution or profile
    ({ w with stream := { w.stream with
        reconnects := w.stream.reconnects + 1
        ready := false, sps := none, pps := none, wake := false } } : World).setTask t
      { k with pc := .backoff }

def closed (w : World) (t : Nat) (k : RunTask) (why : Closing) (now₁ now₂ : ℚ) : World :=
  match why with
  | .failed => w.afterFailure t k now₁ now₂
  | .idle | .cancelled => w.leave t k

/-- The end of a backoff: woken or timed out. -/
def reconnect (w : World) (t : Nat) (k : RunTask) (now₁ now₂ : ℚ) : World :=
  w.loopHead t k.doubleBackoff now₁ now₂

/-- `CancelledError` at the await where the task is suspended. -/
def cancelled (w : World) (t : Nat) (k : RunTask) : World :=
  let k := { k with cancelRequested := false }
  match k.pc with
  -- a task cancelled before its first step runs none of its body
  | .created => w.setTask t { k with pc := .done }
  | .next => w.setTask t { k with pc := .closing .cancelled }
  | .closing _ | .backoff => w.leave t k
  -- a finished task is never resumed
  | .done => w

end World

/-- What the awaited operation of a supervisor task gave. -/
inductive RunInput where
  | begin
  | frame (f : VideoFrame) (info : StreamInfo)
  /-- `DriverError`, `OSError` or the end of the generator -/
  | failed
  | closed
  | woken
  | timeout
  | cancelled

inductive Input where
  | subscribe (x : Nat) (now : ℚ)
  | unsubscribe (x : Nat) (now : ℚ)
  | touch (now : ℚ)
  | get (x : Nat)
  | waitReady (id : Nat) (now : ℚ)
  | resumed (id : Nat)
  | waitTimeout (id : Nat)
  | stop
  | stopResumed (t : Nat)
  | run (t : Nat) (now₁ now₂ : ℚ) (r : RunInput)

namespace World

def runStep (w : World) (t : Nat) (k : RunTask) (now₁ now₂ : ℚ) :
    RunInput → Option (World × List Relay)
  | .cancelled =>
    if k.cancelRequested ∧ k.pc ≠ .done then some (w.cancelled t k, []) else none
  | .begin =>
    if k.pc = .created ∧ k.cancelRequested = false then some (w.loopHead t k now₁ now₂, [])
    else none
  | .frame f info =>
    if k.pc = .next ∧ k.cancelRequested = false then some (w.frame t k f info now₁ now₂)
    else none
  | .failed =>
    if k.pc = .next ∧ k.cancelRequested = false then
      some (w.setTask t { k with pc := .closing .failed }, [])
    else none
  | .closed =>
    match k.pc with
    | .closing why =>
      if k.cancelRequested then none else some (w.closed t k why now₁ now₂, [])
    | _ => none
  | .woken =>
    if k.pc = .backoff ∧ w.stream.wake ∧ k.cancelRequested = false then
      some (w.reconnect t k now₁ now₂, [])
    else none
  | .timeout =>
    if k.pc = .backoff ∧ k.cancelRequested = false then some (w.reconnect t k now₁ now₂, [])
    else none

def step (w : World) : Input → Option (World × List Relay)
  | .subscribe x now =>
    if w.clock ≤ now ∧ x ∉ w.objects then some (w.subscribe x now, []) else none
  | .unsubscribe x now => if w.clock ≤ now then some (w.unsubscribe x now, []) else none
  | .touch now => if w.clock ≤ now then some (w.touch now, []) else none
  | .get x =>
    if w.stream.subs.any (fun s => s.id = x ∧ s.queue ≠ []) then some (w.get x, []) else none
  | .waitReady id now =>
    if w.clock ≤ now ∧ id ∉ w.waiters.map (·.id) then some (w.waitReady id now, []) else none
  | .resumed id =>
    if { id := id, woken := true } ∈ w.waiters then
      some ({ w with waiters := w.waiters.filter (·.id ≠ id) }, [])
    else none
  | .waitTimeout id =>
    if id ∈ w.waiters.map (·.id) then
      some ({ w with waiters := w.waiters.filter (·.id ≠ id) }, [])
    else none
  | .stop => some (w.stop, [])
  | .stopResumed t =>
    if t ∈ w.stoppers ∧ w.taskDone t then
      some ({ w with
        stoppers := w.stoppers.erase t
        stream := { w.stream with task := none } }, [])
    else none
  | .run t now₁ now₂ r =>
    match w.tasks[t]? with
    | some k =>
      if w.clock ≤ now₁ ∧ now₁ ≤ now₂ then
        ({ w with clock := now₂ } : World).runStep t k now₁ now₂ r
      else none
    | none => none

/-- A stream before its first use. -/
def fresh (alwaysOn : Bool) (linger : ℚ) : World :=
  { stream := { alwaysOn := alwaysOn, linger := linger } }

end World
end DvrBridge
