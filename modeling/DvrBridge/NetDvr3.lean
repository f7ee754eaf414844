import DvrBridge.Machine
import DvrBridge.Stream

/-! The NetDvrV3 driver: the loops of `frames` and `_resync` over one buffer. A step is one
iteration of a loop, or an awaited read. -/
namespace DvrBridge.NetDvr3
open H264 Search

/-- at header offset +4 -/
def magic : Bytes := [0x63, 0, 0x0c, 0]
def headerLen : Nat := 24
/-- 'd' -/
def frameI : UInt8 := 0x64
/-- 'f' -/
def frameP : UInt8 := 0x66
def maxPreamble : Nat := 64 * 1024
def maxFrame : Nat := 4 * 1024 * 1024

structure FrameHeader where
  seq : Nat
  tsMs : Nat
  ftype : UInt8
  /-- including the start code -/
  payloadLen : Nat
  deriving DecidableEq

/-- The little-endian field of `k` bytes at offset `i`. -/
def field (bs : Bytes) (i k : Nat) : Nat := readLe ((bs.drop i).take k)

/-- `none` is the `DriverError` for a bad magic. -/
def parseFrameHeader (hdr : Bytes) : Option FrameHeader :=
  if field hdr 4 2 ≠ 0x0063 ∨ field hdr 6 2 ≠ 0x000c then none
  else
    some
      { seq := field hdr 0 4, tsMs := field hdr 16 4, ftype := hdr.getD 20 0,
        payloadLen := field hdr 22 2 + 4 }

/-- `bytes.isalnum` of one byte. -/
def isAlnum (b : UInt8) : Bool :=
  (0x30 ≤ b && b ≤ 0x39) || (0x41 ≤ b && b ≤ 0x5a) || (0x61 ≤ b && b ≤ 0x7a)

/-- The text up to the first zero byte, with a replacement character for what is not ASCII. -/
def asciiText (bs : Bytes) : Option (List Char) :=
  match bs.takeWhile (· ≠ 0) with
  | [] => none
  | bs => some (bs.map fun b => if b < 0x80 then Char.ofNat b.toNat else Char.ofNat 0xfffd)

/-- Layout is marker-relative; nothing here can fail. -/
def parsePreamble (info : StreamInfo) (pre : Bytes) : StreamInfo :=
  let info :=
    if 0x34 ≤ pre.length ∧ isAlnum (pre.getD 0x24 0) then
      { info with deviceId := asciiText ((pre.drop 0x24).take 0x10) }
    else info
  let info :=
    if 0x5b ≤ pre.length then { info with firmware := asciiText ((pre.drop 0x54).take 0x10) }
    else info
  let info :=
    match find [0x48, 0x32, 0x36, 0x34] pre with
    | some i =>
      let w := field pre (i + 8) 2
      let h := field pre (i + 10) 2
      if i + 12 ≤ pre.length ∧ 64 ≤ w ∧ w ≤ 4096 ∧ 64 ≤ h ∧ h ≤ 4096 then
        { info with width := some w, height := some h }
      else info
    | none => info
  let nch := field pre 0x68 4
  if 0x6c ≤ pre.length ∧ 1 ≤ nch ∧ nch ≤ 64 then { info with channelCount := some nch } else info

/-- Where the loops are. -/
inductive Pc where
  /-- at the search of the first magic -/
  | preamble
  /-- at `while len(buf) < HEADER_LEN` -/
  | header
  /-- at `while len(buf) < need + 8` -/
  | body (hdr : FrameHeader)
  /-- at the search in `_resync` -/
  | resync (scanned : Nat)
  /-- at the end of an iteration of `_resync` -/
  | resyncRead (scanned : Nat)
  /-- a `DriverError` was raised -/
  | raised
  deriving DecidableEq

structure Parser where
  pc : Pc := .preamble
  buf : Bytes := []
  resyncs : Nat := 0
  info : StreamInfo := {}

/-- What the driver does next. -/
inductive Move where
  | go (p : Parser) (frame : Option VideoFrame)
  /-- `reader.read(n)` -/
  | read (n : Nat)
  /-- `reader.readexactly(n)` -/
  | readExactly (n : Nat)
  | raise

namespace Parser

/-- The call of `_resync`: get past the current header candidate. -/
def startResync (p : Parser) : Parser :=
  { p with pc := .resync 0, buf := p.buf.drop 4, resyncs := p.resyncs + 1 }

/-- An iteration of the search for the first magic that does not find it. -/
def preambleRead (p : Parser) : Move :=
  if maxPreamble < p.buf.length then .raise else .read 4096

def preambleMove (p : Parser) : Move :=
  match find magic p.buf with
  | some i =>
    if 4 ≤ i then
      .go { p with
        pc := .header, buf := p.buf.drop (i - 4), info := parsePreamble p.info (p.buf.take (i - 4)) }
        none
    else p.preambleRead
  | none => p.preambleRead

def headerMove (p : Parser) : Move :=
  if p.buf.length < headerLen then .readExactly (headerLen - p.buf.length)
  else
    match parseFrameHeader (p.buf.take headerLen) with
    | none => .go p.startResync none
    | some hdr =>
      if maxFrame < hdr.payloadLen then .go p.startResync none
      else .go { p with pc := .body hdr } none

/-- The frame whose payload is at hand. -/
def videoFrame (hdr : FrameHeader) (payload : Bytes) : VideoFrame :=
  { payload := payload
    tsMs := some hdr.tsMs
    keyframe := hdr.ftype = frameI || (iterNals payload).any (nalType · = nalIdr) }

def bodyMove (p : Parser) (hdr : FrameHeader) : Move :=
  let need := headerLen + hdr.payloadLen
  -- +8 to peek the next header's magic
  if p.buf.length < need + 8 then .readExactly (need + 8 - p.buf.length)
  else
    let payload := (p.buf.take need).drop headerLen
    let nxt := (p.buf.drop need).take 8
    if start4 <+: payload ∧ (nxt.drop 4).take 4 = magic then
      .go { p with pc := .header, buf := p.buf.drop need } (some (videoFrame hdr payload))
    -- length lied (u16 overflow) or corruption
    else .go p.startResync none

def resyncMove (p : Parser) (scanned : Nat) : Move :=
  match find magic p.buf with
  | some i =>
    if 4 ≤ i then .go { p with pc := .header, buf := p.buf.drop (i - 4) } none
    -- magic found but its header start was already discarded
    else .go { p with pc := .resyncRead scanned, buf := p.buf.drop (i + 4) } none
  | none =>
    -- keep a tail that may hold a split magic
    let drop := p.buf.length - 7
    .go { p with pc := .resyncRead (scanned + drop), buf := p.buf.drop drop } none

/-- What comes next; nothing does after a `DriverError`. -/
def move (p : Parser) : Option Move :=
  match p.pc with
  | .preamble => some p.preambleMove
  | .header => some p.headerMove
  | .body hdr => some (p.bodyMove hdr)
  | .resync scanned => some (p.resyncMove scanned)
  | .resyncRead scanned => some (if maxFrame < scanned then .raise else .readExactly 4096)
  | .raised => none

/-- `buf += chunk` -/
def receive (p : Parser) (chunk : Bytes) : Parser :=
  { p with
    buf := p.buf ++ chunk
    pc := match p.pc with
      | .resyncRead scanned => .resync scanned
      | pc => pc }

def raise (p : Parser) : Parser := { p with pc := .raised }

end Parser

inductive ParserInput where
  /-- no await -/
  | go
  | data (chunk : Bytes)
  /-- an empty chunk, or an `IncompleteReadError` -/
  | eof
  | timeout
  deriving DecidableEq

inductive ParserOutput where
  | frame (f : VideoFrame)
  /-- `DriverError` -/
  | raised
  deriving DecidableEq

def Parser.step (p : Parser) (i : ParserInput) : Option (Parser × List ParserOutput) :=
  p.move.bind fun m =>
    match m, i with
    | .go p f, .go => some (p, (f.map .frame).toList)
    | .raise, .go => some (p.raise, [.raised])
    | .read n, .data chunk =>
      if chunk ≠ [] ∧ chunk.length ≤ n then some (p.receive chunk, []) else none
    | .readExactly n, .data chunk => if chunk.length = n then some (p.receive chunk, []) else none
    | .read _, .eof | .read _, .timeout | .readExactly _, .eof | .readExactly _, .timeout =>
      some (p.raise, [.raised])
    | _, _ => none

/-! A device that sends a finite stream and closes the connection. The reads cut the stream in any
way that the chunks of the socket can. -/

structure Feed where
  parser : Parser := {}
  /-- not read yet -/
  rest : Bytes

inductive Arrival where
  | go
  | bytes (k : Nat)
  | eof
  deriving DecidableEq

namespace Feed

/-- Whether the stream is too short for the awaited read. -/
def short (f : Feed) : Bool :=
  match f.parser.move with
  | some (.read _) => decide (f.rest = [])
  | some (.readExactly n) => decide (f.rest.length < n)
  | _ => false

def step (f : Feed) : Arrival → Option (Feed × List ParserOutput)
  | .go => (f.parser.step .go).map fun r => ({ f with parser := r.1 }, r.2)
  | .bytes k =>
    if k ≤ f.rest.length then
      (f.parser.step (.data (f.rest.take k))).map fun r => (⟨r.1, f.rest.drop k⟩, r.2)
    else none
  | .eof => if f.short then (f.parser.step .eof).map fun r => ({ f with parser := r.1 }, r.2) else none

def start (stream : Bytes) : Feed := { rest := stream }

end Feed

/-- A frame of the device. -/
structure DvrFrame where
  seq : Int
  tsMs : Int
  keyframe : Bool
  au : Bytes

/-- `frame_header` of the simulator -/
def frameHeader (seq tsMs : Int) (keyframe : Bool) (payloadLen : Int) : Bytes :=
  le 4 (seq % 2 ^ 32).toNat ++ le 2 0x0063 ++ le 2 0x000c ++ le 4 0 ++
    le 4 ((seq + 0x1000) % 2 ^ 32).toNat ++ le 4 (tsMs % 2 ^ 32).toNat ++
    [if keyframe then frameI else frameP, 0] ++ le 2 ((payloadLen - 4) % 2 ^ 16).toNat

def DvrFrame.bytes (f : DvrFrame) : Bytes :=
  frameHeader f.seq f.tsMs f.keyframe f.au.length ++ f.au

def encode (fs : List DvrFrame) : Bytes := fs.flatMap DvrFrame.bytes

/-- What the driver makes of a frame. -/
def DvrFrame.video (f : DvrFrame) : VideoFrame :=
  { payload := f.au
    tsMs := some (f.tsMs % 2 ^ 32)
    keyframe := f.keyframe || (iterNals f.au).any (nalType · = nalIdr) }

end DvrBridge.NetDvr3
