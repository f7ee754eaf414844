import DvrBridge.FifoLock
import DvrBridge.RtpPacketizer
import DvrBridge.RtspMessage
import DvrBridge.Stream

/-! One client connection: its fields, the tasks that share them and the request handlers. -/
namespace DvrBridge
open PyText

structure Server where
  auth : Option (Str × Str) := none
  /-- the names in the hub -/
  hub : List Str := []
  /-- `unquote(urlparse(url).path)`; `none` is the `ValueError` of `urlparse` -/
  urlPath : Str → Option Str

inductive Party where
  | loop | pump
  deriving DecidableEq

/-- Where `_pump` is suspended. -/
inductive PumpPc where
  | created
  /-- in `self.sub.queue.get()` -/
  | getting
  /-- waiting for the lock with packets for an interleaved channel -/
  | locking (ch : Int) (packets : List Bytes)
  | draining
  /-- waiting for the lock to close the writer -/
  | crashLocking
  | done
  deriving DecidableEq

structure Pump where
  pc : PumpPc := .created
  cancelRequested : Bool := false
  deriving DecidableEq

/-- What the request loop does once a response is drained. -/
inductive After where
  | next
  /-- the rest of `_on_play` -/
  | play
  /-- the rest of `_on_teardown` -/
  | teardown
  | close
  deriving DecidableEq

/-- Who called `_stop_play`. -/
inductive Leave where
  | teardown | close
  deriving DecidableEq

/-- Where the request loop is suspended. A response sent by a handler carries its `CSeq`: a
`TimeoutError` out of it is answered 504. -/
inductive LoopPc where
  | reading
  | waitReady (url stream cseq : Str)
  /-- in `create_datagram_endpoint` -/
  | opening (port : Int) (cseq : Str)
  | locking (handler : Option Str) (r : Response) (k : After)
  | draining (handler : Option Str) (k : After)
  /-- awaiting the cancelled `play_task` -/
  | joining (why : Leave)
  /-- in `wait_closed` -/
  | closing
  | ended
  deriving DecidableEq

structure Conn where
  /-- the host of `peername`, if the socket still has one -/
  peer : Option Str := none
  sessionId : Option Str := none
  stream : Option Str := none
  sub : Option Nat := none
  packetizer : Packetizer
  interleaved : Option (Int × Int) := none
  /-- the endpoint, and the client's address and port -/
  udp : Option (Nat × Str × Int) := none
  playTask : Option Pump := none
  /-- `asyncio.Lock` -/
  lock : FifoLock Party := {}
  pc : LoopPc := .reading
  /-- subscribers and endpoints made so far -/
  made : Nat := 0
  opened : Nat := 0
  /-- the subscribers made here that are in the `_subs` of a stream -/
  subs : List (Str × Nat) := []

/-- What a connection does to the rest of the world. -/
inductive Effect where
  | handler (m : Method)
  | response (r : Response)
  | touch (stream : Str)
  | subscribe (stream : Str) (x : Nat)
  | unsubscribe (stream : Str) (x : Nat)
  | media (ch : Int) (packets : List Bytes)
  | datagram (endpoint : Nat) (host : Str) (port : Int) (packet : Bytes)
  | openUdp (endpoint : Nat)
  | closeUdp (endpoint : Nat)
  | crashed
  | closeWriter
  | teardownDone
  | ended
  deriving DecidableEq

/-- How a handler goes on, or ends. -/
inductive Outcome where
  | answer (r : Response) (k : After)
  | raise (e : RtspError)
  /-- any other exception -/
  | crash
  | waitReady (stream : Str)
  | openUdp (port : Int)

inductive Auth where
  | pass | unauthorized | typeError
  deriving DecidableEq

def startsWith (pat : String) (s : Str) : Bool := pat.toList.isPrefixOf s

/-- `base64.b64encode(f"user:password".encode())` -/
def credentials (auth : Str × Str) : Str := b64encode (encode (auth.1 ++ [':'] ++ auth.2))

/-- `_check_auth`; `compare_digest` refuses texts that are not ASCII. -/
def checkAuth (auth : Str × Str) (headers : Headers) : Auth :=
  let got := headers.get "authorization" ""
  if startsWith "Basic " got then
    if (got.drop 6).all (·.toNat < 128) then
      if got.drop 6 = credentials auth then .pass else .unauthorized
    else .typeError
  else .unauthorized

inductive Lookup where
  | found (stream : Str) | notFound | valueError
  deriving DecidableEq

def Server.streamFor (srv : Server) (url : Str) : Lookup :=
  match srv.urlPath url with
  | none => .valueError
  | some p =>
    let path := stripChar '/' p
    let track := "/track0".toList
    let path := if track.isSuffixOf path then path.take (path.length - track.length) else path
    if path ∈ srv.hub then .found path else .notFound

namespace Conn

/-- `_release_transport` -/
def releaseTransport (c : Conn) : Conn × List Effect :=
  ({ c with udp := none, interleaved := none },
    match c.udp with
    | some (e, _) => [.closeUdp e]
    | none => [])

/-- The channels after `interleaved=`. -/
def parseInterleaved (v : Str) : Option (Int × Int) :=
  let (a, b) := partition '-' v
  (int a).bind fun lo =>
    (if b = [] then some (lo + 1) else int b).bind fun hi =>
      -- interleaved channel is a single byte on the wire
      if 0 ≤ lo ∧ lo ≤ 255 ∧ 0 ≤ hi ∧ hi ≤ 255 then some (lo, hi) else none

/-- The loop over the fields of a TCP transport: the value left, and whether none was bad. -/
def interleavedFields : Int × Int → List Str → (Int × Int) × Bool
  | cur, [] => (cur, true)
  | cur, f :: fs =>
    if startsWith "interleaved=" f then
      match parseInterleaved (f.drop "interleaved=".length) with
      | some v => interleavedFields v fs
      | none => (cur, false)
    else interleavedFields cur fs

def parseClientPort (v : Str) : Option Int :=
  (int (partition '-' v).1).bind fun port => if 1 ≤ port ∧ port ≤ 65534 then some port else none

/-- The loop over the fields of a UDP transport; `none` is a bad field. -/
def clientPortFields : Option Int → List Str → Option (Option Int)
  | cur, [] => some cur
  | cur, f :: fs =>
    if startsWith "client_port=" f then
      (parseClientPort (f.drop "client_port=".length)).bind fun port =>
        clientPortFields (some port) fs
    else clientPortFields cur fs

/-- `f"{n:08X}"` -/
def hex8 (n : Nat) : Str := upper (hex (be 4 n))

def ssrcField (c : Conn) : Str := ";ssrc=".toList ++ hex8 c.packetizer.ssrc

/-- The 200 of a SETUP. -/
def setupAnswer (c : Conn) (cseq transport : Str) : Outcome :=
  .answer (.ok [("CSeq".toList, cseq), ("Transport".toList, transport),
    ("Session".toList, c.sessionId.getD [] ++ ";timeout=60".toList)]) .next

def interleavedTransport (c : Conn) (v : Int × Int) : Str :=
  "RTP/AVP/TCP;unicast;interleaved=".toList ++ decimalInt v.1 ++ ['-'] ++ decimalInt v.2 ++
    c.ssrcField

def udpTransport (c : Conn) (clientPort serverPort : Int) : Str :=
  "RTP/AVP;unicast;client_port=".toList ++ decimalInt clientPort ++ ['-'] ++
    decimalInt (clientPort + 1) ++ ";server_port=".toList ++ decimalInt serverPort ++ ['-'] ++
    decimalInt (serverPort + 1) ++ c.ssrcField

/-- The fields of the `Transport` header. -/
def transportFields (headers : Headers) : List Str :=
  ((headers.get "transport" "").splitOnP (· = ';')).map strip

def transportProto (headers : Headers) : Str := upper ((transportFields headers).headD [])

def isTcp (headers : Headers) : Bool := transportProto headers = "RTP/AVP/TCP".toList

def isUdp (headers : Headers) : Bool :=
  transportProto headers ∈ ["RTP/AVP".toList, "RTP/AVP/UDP".toList]

/-- `_on_setup` after `_stream_for`; `token` is what `secrets.token_hex` gives. -/
def setupTransport (c : Conn) (headers : Headers) (cseq token : Str) : Conn × Outcome :=
  let fields := transportFields headers
  let c := { c with sessionId := if c.sessionId.getD [] = [] then some token else c.sessionId }
  if isTcp headers then
    let (v, good) := interleavedFields (0, 1) fields
    let c := { c with interleaved := some v }
    (c, if good then c.setupAnswer cseq (c.interleavedTransport v) else .raise .badRequest)
  else if isUdp headers then
    (c, match clientPortFields none fields with
      | none => .raise .badRequest
      | some none => .raise .unsupportedTransport
      | some (some port) => .openUdp port)
  else (c, .raise .unsupportedTransport)

def onSetup (srv : Server) (c : Conn) (url : Str) (headers : Headers) (cseq token : Str) :
    Conn × List Effect × Outcome :=
  if c.playTask.isSome then (c, [], .raise .badState)
  else
    let (c, effects) := c.releaseTransport
    match srv.streamFor url with
    | .valueError => (c, effects, .crash)
    | .notFound => (c, effects, .raise .notFound)
    | .found s =>
      let (c, out) := { c with stream := some s }.setupTransport headers cseq token
      (c, effects, out)

def onDescribe (srv : Server) (url : Str) : List Effect × Outcome :=
  match srv.streamFor url with
  | .valueError => ([], .crash)
  | .notFound => ([], .raise .notFound)
  | .found s => ([.touch s], .waitReady s)

/-- `_on_describe` after `wait_ready`; `b64encode(None)` is a `TypeError`. -/
def describeAnswer (url stream cseq : Str) (sps pps : Option Bytes) (info : StreamInfo) : Outcome :=
  match sps, pps with
  | some sps, some pps =>
    .answer (.ok [("CSeq".toList, cseq), ("Content-Base".toList, rstripChar '/' url ++ ['/']),
        ("Content-Type".toList, "application/sdp".toList)]
      (encode (buildSdp stream sps pps info.width info.height))) .next
  | _, _ => .crash

def onPlay (c : Conn) (url cseq : Str) : Outcome :=
  if c.stream.isNone ∨ c.interleaved.isNone ∧ c.udp.isNone then .raise .badState
  else
    .answer (.ok [("CSeq".toList, cseq), ("Session".toList, c.sessionId.getD []),
      ("Range".toList, "npt=now-".toList),
      ("RTP-Info".toList, "url=".toList ++ rstripChar '/' url ++ "/track0;seq=".toList ++
        decimal c.packetizer.seq)]) .play

/-- `_on_pause`, `_on_get_parameter` and `_on_set_parameter` answer with the session only. -/
def sessionAnswer (c : Conn) (cseq : Str) (k : After) : Outcome :=
  .answer (.ok [("CSeq".toList, cseq), ("Session".toList, c.sessionId.getD [])]) k

/-- `await handler(url, headers, cseq)` up to its first suspension. -/
def handle (srv : Server) (c : Conn) (m : Method) (url : Str) (headers : Headers)
    (cseq token : Str) : Conn × List Effect × Outcome :=
  match m with
  | .options => (c, [], .answer (.ok [("CSeq".toList, cseq), ("Public".toList, allowed)]) .next)
  | .describe => (c, onDescribe srv url)
  | .setup => c.onSetup srv url headers cseq token
  | .play => (c, [], c.onPlay url cseq)
  | .pause | .getParameter | .setParameter => (c, [], c.sessionAnswer cseq .next)
  | .teardown => (c, [], c.sessionAnswer cseq .teardown)

end Conn
end DvrBridge
