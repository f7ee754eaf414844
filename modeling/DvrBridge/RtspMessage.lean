import DvrBridge.Sdp

/-! RTSP messages: the header map of a request, the response and its bytes, the errors. -/
namespace DvrBridge
open PyText

/-- A header map with lower-case names. -/
abbrev Headers := List (Str × Str)

def Headers.get (h : Headers) (name : String) (default : String) : Str :=
  (h.lookup name.toList).getD default.toList

def serverId : Str := "dvrbridge/0.1.0".toList

def allowed : Str :=
  "OPTIONS, DESCRIBE, SETUP, PLAY, PAUSE, TEARDOWN, GET_PARAMETER, SET_PARAMETER".toList

structure RtspError where
  code : Nat
  reason : String
  deriving DecidableEq

namespace RtspError
def badRequest : RtspError := ⟨400, "Bad Request"⟩
def unauthorized : RtspError := ⟨401, "Unauthorized"⟩
def notFound : RtspError := ⟨404, "Not Found"⟩
def bodyTooLarge : RtspError := ⟨413, "Request Entity Too Large"⟩
def headersTooLarge : RtspError := ⟨431, "Request Header Fields Too Large"⟩
def badState : RtspError := ⟨455, "Method Not Valid in This State"⟩
def unsupportedTransport : RtspError := ⟨461, "Unsupported Transport"⟩
def notImplemented : RtspError := ⟨501, "Not Implemented"⟩
end RtspError

structure Response where
  code : Nat
  reason : Str
  headers : List (Str × Str) := []
  body : Bytes := []
  deriving DecidableEq

namespace Response

def ok (headers : List (Str × Str)) (body : Bytes := []) : Response :=
  { code := 200, reason := "OK".toList, headers := headers, body := body }

/-- What `_dispatch` answers to an `RTSPError`. -/
def ofError (e : RtspError) (cseq : Str) : Response :=
  { code := e.code
    reason := e.reason.toList
    headers := ("CSeq".toList, cseq) ::
      if e.code = 401 then [("WWW-Authenticate".toList, "Basic realm=\"dvrbridge\"".toList)]
      else [] }

/-- The headers that go on the wire: `CSeq` is always there, `Content-Length` with a body. -/
def allHeaders (r : Response) : List (Str × Str) :=
  r.headers ++
    (if r.headers.any (·.1 = "CSeq".toList) then [] else [("CSeq".toList, "0".toList)]) ++
    (if r.body = [] then [] else [("Content-Length".toList, decimal r.body.length)])

def lines (r : Response) : List Str :=
  ["RTSP/1.0 ".toList ++ decimal r.code ++ [' '] ++ r.reason, "Server: ".toList ++ serverId] ++
    r.allHeaders.map fun h => h.1 ++ ": ".toList ++ h.2

/-- The payload that `_respond` writes. -/
def encode (r : Response) : Bytes :=
  PyText.encode (r.lines.flatMap (· ++ crlf) ++ crlf) ++ r.body

end Response

/-- The handlers `_on_…` of a connection. -/
inductive Method where
  | options | describe | setup | play | pause | getParameter | setParameter | teardown
  deriving DecidableEq

/-- `getattr` of `"_on_" + method.lower()` -/
def handlerOf (method : Str) : Option Method :=
  [("options".toList, Method.options), ("describe".toList, .describe), ("setup".toList, .setup),
    ("play".toList, .play), ("pause".toList, .pause), ("get_parameter".toList, .getParameter),
    ("set_parameter".toList, .setParameter), ("teardown".toList, .teardown)].lookup (lower method)

end DvrBridge
