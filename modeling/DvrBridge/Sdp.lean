import DvrBridge.PyText

/-! The SDP session description of a stream. -/
namespace DvrBridge
open PyText

/-- The base64 alphabet. -/
def base64Char (n : Nat) : Char :=
  if n < 26 then Char.ofNat (65 + n)
  else if n < 52 then Char.ofNat (97 + (n - 26))
  else if n < 62 then Char.ofNat (48 + (n - 52))
  else if n = 62 then '+' else '/'

/-- `base64.b64encode(bs).decode()` -/
def b64encode : Bytes → Str
  | a :: b :: c :: bs =>
    let n := a.toNat * 65536 + b.toNat * 256 + c.toNat
    base64Char (n / 262144) :: base64Char (n / 4096 % 64) :: base64Char (n / 64 % 64) ::
      base64Char (n % 64) :: b64encode bs
  | [a, b] =>
    let n := a.toNat * 256 + b.toNat
    [base64Char (n / 1024), base64Char (n / 16 % 64), base64Char (n * 4 % 64), '=']
  | [a] => [base64Char (a.toNat / 4), base64Char (a.toNat * 16 % 64), '=', '=']
  | [] => []

/-- `bs.hex()` -/
def hex (bs : Bytes) : Str :=
  bs.flatMap fun b => [Nat.digitChar (b.toNat / 16), Nat.digitChar (b.toNat % 16)]

/-- `sps[1:4].hex()` -/
def profileLevelId (sps : Bytes) : Str := hex ((sps.drop 1).take 3)

def crlf : Str := ['\r', '\n']

/-- Truth value of an optional number. -/
def nonzero : Option Nat → Option Nat
  | some 0 => none
  | n => n

def buildSdp (name : Str) (sps pps : Bytes) (width height : Option Nat) : Str :=
  let payloadType := "96".toList
  let sprop := b64encode sps ++ [','] ++ b64encode pps
  let dimensions := match nonzero width, nonzero height with
    | some w, some h => ["a=x-dimensions:".toList ++ decimal w ++ [','] ++ decimal h]
    | _, _ => []
  let lines :=
    ["v=0".toList,
      "o=- 0 0 IN IP4 0.0.0.0".toList,
      "s=".toList ++ name,
      "t=0 0".toList,
      "m=video 0 RTP/AVP ".toList ++ payloadType,
      "c=IN IP4 0.0.0.0".toList,
      "a=rtpmap:".toList ++ payloadType ++ " H264/90000".toList,
      "a=fmtp:".toList ++ payloadType ++ " packetization-mode=1;".toList ++
        "profile-level-id=".toList ++ profileLevelId sps ++ ";sprop-parameter-sets=".toList ++
        sprop] ++
    dimensions ++ ["a=control:track0".toList, "a=recvonly".toList]
  lines.flatMap (· ++ crlf)

end DvrBridge
