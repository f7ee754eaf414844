import DvrBridge.Machine
import DvrBridge.RtspSession

/-! The two tasks of a connection, step by step: a step is what the request loop or the media pump
does between two awaits that may suspend it. The hub and the network are the environment. -/
namespace DvrBridge
open PyText

/-- What the await of the request loop gave. -/
inductive LoopInput where
  /-- a complete request; `token` is used by a SETUP without a session -/
  | request (line : Bytes) (headers : Headers) (token : Str)
  /-- a blank line or interleaved data -/
  | skipped
  /-- an `RTSPError` of `_read_request` -/
  | malformed (e : RtspError)
  /-- end of stream, a timeout, a connection error or an undecodable header -/
  | gone
  | ready (sps pps : Option Bytes) (info : StreamInfo)
  | notReady
  | opened (port : Int)
  | openFailed
  | acquired
  | drained
  /-- `drain` raised something else than a `TimeoutError` -/
  | lost
  | timedOut
  | joined
  | closed

inductive PumpInput where
  | start
  | frame (item : HubFrame)
  | acquired
  | drained
  /-- `drain` raised a `ConnectionError` -/
  | lost
  /-- `drain` raised another exception -/
  | failed
  | cancelled

inductive ConnInput where
  | loop (i : LoopInput)
  | pump (i : PumpInput)

namespace Conn

def setPump (c : Conn) (p : Pump) : Conn := { c with playTask := some p }

def release (c : Conn) : Conn := { c with lock := c.lock.release }

def hold (c : Conn) (who : Party) : Conn := { c with lock := c.lock.hold who }

def queueUp (c : Conn) (who : Party) : Conn := { c with lock := c.lock.queueUp who }

def leaveQueue (c : Conn) (who : Party) : Conn := { c with lock := c.lock.leaveQueue who }

/-! The request loop. -/

/-- After `_stop_play`: the rest of `_on_teardown` or of `close`. -/
def afterStop (c : Conn) : Leave → Conn × List Effect
  | .teardown =>
    let (c, effects) := c.releaseTransport
    ({ c with stream := none, sessionId := none, pc := .reading }, effects ++ [.teardownDone])
  | .close =>
    let (c, effects) := c.releaseTransport
    ({ c with pc := .closing }, effects ++ [.closeWriter])

/-- `_stop_play` -/
def stopPlay (c : Conn) (why : Leave) : Conn × List Effect :=
  match c.playTask with
  | none => c.afterStop why
  | some p =>
    if p.pc = .done then ({ c with playTask := none } : Conn).afterStop why
    else ({ c with playTask := some { p with cancelRequested := true }, pc := .joining why }, [])

/-- The `finally` of `run`. -/
def close (c : Conn) : Conn × List Effect := c.stopPlay .close

/-- An exception that `run` only logs. -/
def crash (c : Conn) : Conn × List Effect :=
  let (c, effects) := c.close
  (c, .crashed :: effects)

/-- `writer.write` under the lock, up to `drain`. -/
def write (c : Conn) (handler : Option Str) (r : Response) (k : After) : Conn × List Effect :=
  ({ c.hold .loop with pc := .draining handler k }, [.response r])

def respond (c : Conn) (handler : Option Str) (r : Response) (k : After) : Conn × List Effect :=
  if c.lock.free then c.write handler r k
  else ({ c.queueUp .loop with pc := .locking handler r k }, [])

/-- The rest of `_on_play`. -/
def startPlay (c : Conn) : Conn × List Effect :=
  match c.playTask, c.stream with
  | some _, _ => ({ c with pc := .reading }, [])
  | none, none => c.crash
  | none, some s =>
    ({ c with
        sub := some c.made
        subs := c.subs ++ [(s, c.made)]
        made := c.made + 1
        playTask := some {}
        pc := .reading }, [.subscribe s c.made])

def resume (c : Conn) : After → Conn × List Effect
  | .next => ({ c with pc := .reading }, [])
  | .play => c.startPlay
  | .teardown => c.stopPlay .teardown
  | .close => c.close

def finish (c : Conn) (url cseq : Str) : Outcome → Conn × List Effect
  | .answer r k => c.respond (some cseq) r k
  | .raise e => c.respond none (.ofError e cseq) .next
  | .crash => c.crash
  | .waitReady s => ({ c with pc := .waitReady url s cseq }, [])
  | .openUdp port => ({ c with pc := .opening port cseq }, [])

def runHandler (srv : Server) (c : Conn) (m : Method) (url : Str) (headers : Headers)
    (cseq token : Str) : Conn × List Effect :=
  let (c, effects, out) := c.handle srv m url headers cseq token
  let (c, rest) := c.finish url cseq out
  (c, .handler m :: effects ++ rest)

/-- The methods that `_dispatch` asks credentials for. -/
def gated (method : Str) : Bool :=
  decide (method = "DESCRIBE".toList ∨ method = "SETUP".toList ∨ method = "PLAY".toList)

def gate (srv : Server) (method : Str) (headers : Headers) : Auth :=
  match srv.auth with
  | none => .pass
  | some auth => if gated method then checkAuth auth headers else .pass

def dispatch (srv : Server) (c : Conn) (line : Bytes) (headers : Headers) (token : Str) :
    Conn × List Effect :=
  match split (strip (latin1 line)) with
  | [method, url, _version] =>
    let cseq := headers.get "cseq" "0"
    match gate srv method headers with
    | .unauthorized => c.respond none (.ofError .unauthorized cseq) .next
    | .typeError => c.crash
    | .pass =>
      match handlerOf method with
      | none => c.respond none (.ofError .notImplemented cseq) .next
      | some m => runHandler srv c m url headers cseq token
  | _ => c.respond none { code := 400, reason := "Bad Request".toList } .next

/-- The rest of a UDP SETUP. -/
def udpOpened (c : Conn) (clientPort port : Int) (cseq : Str) : Conn × List Effect :=
  let e := c.opened
  match c.peer with
  | none =>
    let (c, effects) := { c with opened := e + 1 }.crash
    (c, .openUdp e :: effects)
  | some host =>
    let c := { c with opened := e + 1, udp := some (e, host, clientPort) }
    let (c, effects) := c.finish [] cseq (c.setupAnswer cseq (c.udpTransport clientPort port))
    (c, .openUdp e :: effects)

/-- A `TimeoutError` out of a handler is answered 504. -/
def gatewayTimeout (c : Conn) (cseq : Str) : Conn × List Effect :=
  c.respond none
    { code := 504, reason := "Gateway Timeout".toList, headers := [("CSeq".toList, cseq)] } .next

def loopStep (srv : Server) (c : Conn) (i : LoopInput) : Option (Conn × List Effect) :=
  match c.pc, i with
  | .reading, .request line headers token => some (c.dispatch srv line headers token)
  | .reading, .skipped => some (c, [])
  | .reading, .malformed e =>
    if e ∈ [RtspError.badRequest, .bodyTooLarge, .headersTooLarge] then
      some (c.respond none { code := e.code, reason := e.reason.toList } .close)
    else none
  | .reading, .gone => some c.close
  | .waitReady url s cseq, .ready sps pps info =>
    some (c.finish url cseq (describeAnswer url s cseq sps pps info))
  | .waitReady _ _ cseq, .notReady => some (c.gatewayTimeout cseq)
  | .opening port cseq, .opened serverPort => some (c.udpOpened port serverPort cseq)
  | .opening _ _, .openFailed => some c.crash
  | .locking handler r k, .acquired =>
    if c.lock.atTurn .loop then some ((c.leaveQueue .loop).write handler r k) else none
  | .draining _ k, .drained => some (c.release.resume k)
  | .draining _ _, .lost => some c.release.close
  | .draining (some cseq) _, .timedOut => some (c.release.gatewayTimeout cseq)
  | .draining none _, .timedOut => some c.release.close
  | .joining why, .joined =>
    match c.playTask with
    | some p =>
      if p.pc = .done then some (({ c with playTask := none } : Conn).afterStop why) else none
    | none => none
  | .closing, .closed => some ({ c with pc := .ended }, [.ended])
  | _, _ => none

/-! The media pump. -/

/-- The `finally` of `_pump` and the end of the task. -/
def pumpExit (c : Conn) (p : Pump) : Conn × List Effect :=
  match c.sub, c.stream with
  | some x, some s =>
    (({ c with sub := none, subs := c.subs.erase (s, x) } : Conn).setPump { p with pc := .done },
      [.unsubscribe s x])
  | _, _ => (c.setPump { p with pc := .done }, [])

/-- One access unit: as one write under the lock, or as datagrams. -/
def pumpFrame (c : Conn) (p : Pump) (item : HubFrame) : Conn × List Effect :=
  match c.interleaved, c.udp with
  | some (ch, _), _ =>
    let (packetizer, packets) := c.packetizer.packetize item.nals item.ts90k
    let c := { c with packetizer := packetizer }
    if c.lock.free then ((c.hold .pump).setPump { p with pc := .draining }, [.media ch packets])
    else ((c.queueUp .pump).setPump { p with pc := .locking ch packets }, [])
  | none, some (e, host, port) =>
    let (packetizer, packets) := c.packetizer.packetize item.nals item.ts90k
    ({ c with packetizer := packetizer }, packets.map (.datagram e host port))
  | none, none => (c, [])

/-- `except Exception`: close the writer under the lock. -/
def pumpCrash (c : Conn) (p : Pump) : Conn × List Effect :=
  if c.lock.free then
    let (c, effects) := c.pumpExit p
    (c, .closeWriter :: effects)
  else ((c.queueUp .pump).setPump { p with pc := .crashLocking }, [])

def pumpCancelled (c : Conn) (p : Pump) : Conn × List Effect :=
  let p := { p with cancelRequested := false }
  match p.pc with
  -- a task cancelled before its first step runs none of its body
  | .created => (c.setPump { p with pc := .done }, [])
  | .getting => c.pumpExit p
  | .locking _ _ | .crashLocking => (c.leaveQueue .pump).pumpExit p
  | .draining => c.release.pumpExit p
  | .done => (c, [])

def pumpStep (c : Conn) (p : Pump) (i : PumpInput) : Option (Conn × List Effect) :=
  match p.pc, p.cancelRequested, i with
  | .done, _, _ => none
  | _, true, .cancelled => some (c.pumpCancelled p)
  -- `assert self.sub is not None`
  | .created, false, .start =>
    if c.sub.isSome then some (c.setPump { p with pc := .getting }, []) else none
  | .getting, false, .frame item => some (c.pumpFrame p item)
  | .locking ch packets, false, .acquired =>
    if c.lock.atTurn .pump then
      some (((c.leaveQueue .pump).hold .pump).setPump { p with pc := .draining },
        [.media ch packets])
    else none
  | .draining, false, .drained => some (c.release.setPump { p with pc := .getting }, [])
  | .draining, false, .lost => some (c.release.pumpExit p)
  | .draining, false, .failed => some (c.release.pumpCrash p)
  | .crashLocking, false, .acquired =>
    if c.lock.atTurn .pump then
      let (c, effects) := (c.leaveQueue .pump).pumpExit p
      some (c, .closeWriter :: effects)
    else none
  | _, _, _ => none

def step (srv : Server) (c : Conn) : ConnInput → Option (Conn × List Effect)
  | .loop i => c.loopStep srv i
  | .pump i => c.playTask.bind fun p => c.pumpStep p i

/-- A connection as `ClientConnection` makes it. -/
def fresh (peer : Option Str) (ssrc : Nat) : Conn :=
  { peer := peer, packetizer := { ssrc := ssrc % 2 ^ 32 } }

/-- The path of a plain URL, with nothing in it to unquote or to split off. -/
def plainPath (url : Str) : Option Str :=
  some ((url.drop "rtsp://".length).dropWhile (· ≠ '/'))

/-- A request as `_read_request` hands it on. -/
def request (line : String) (headers : List (String × String)) : ConnInput :=
  .loop (.request (encode line.toList) (headers.map fun h => (h.1.toList, h.2.toList))
    "0123456789abcdef".toList)

end Conn
end DvrBridge
