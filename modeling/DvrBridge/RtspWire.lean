import DvrBridge.RtspClient
import DvrBridge.RtspConnection

/-! The bytes that a connection writes, and what a client gets out of them. -/
namespace DvrBridge
open PyText

/-- The names of the headers that the handlers give to `_respond`. -/
def headerNames : List Str :=
  ["CSeq", "Public", "Content-Base", "Content-Type", "Transport", "Session", "Range", "RTP-Info",
    "WWW-Authenticate"].map String.toList

/-- A response that takes no line break from outside. -/
structure Response.Clean (r : Response) : Prop where
  reason : '\n' ∉ r.reason
  headers : ∀ h ∈ r.headers, h.1 ∈ headerNames ∧ '\n' ∉ h.2

/-- One response, or one packet with its interleaved header. -/
inductive Message where
  | response (r : Response)
  | packet (ch : Int) (data : Bytes)

namespace Message

def bytes : Message → Bytes
  | .response r => r.encode
  | .packet ch data => 0x24 :: UInt8.ofNat ch.toNat :: (be 2 data.length ++ data)

/-- What a client makes of it. -/
def part : Message → Client.Part
  | .response r => .response (r.lines.map encode) r.body
  | .packet ch data => .packet ch.toNat data

/-- What `to_bytes` and the text of a response can hold. -/
def Clean : Message → Prop
  | .response r => r.Clean
  | .packet ch data => 0 ≤ ch ∧ ch ≤ 255 ∧ data.length < 65536

end Message

namespace Conn

/-- The messages of one write. -/
def messages : Effect → List Message
  | .response r => [.response r]
  | .media ch packets => packets.map (.packet ch)
  | _ => []

/-- Nothing is sent any more once the writer is closed. -/
def sent : List Effect → List Effect
  | [] => []
  | .closeWriter :: _ => []
  | e :: h => e :: sent h

/-- The bytes on the TCP connection. -/
def wire (h : List Effect) : Bytes := ((sent h).flatMap messages).flatMap Message.bytes

/-- The responses and packets in them. -/
def parts (h : List Effect) : List Client.Part := ((sent h).flatMap messages).map Message.part

end Conn

namespace Response
open Client

theorem encode_flatMap (ls : List Str) :
    PyText.encode (ls.flatMap (· ++ DvrBridge.crlf)) =
      (ls.map PyText.encode).flatMap (· ++ Client.crlf) := by
  induction ls with
  | nil => rfl
  | cons l ls ih =>
    rw [List.flatMap_cons, encode_append, encode_append, ih]
    rfl

theorem encode_eq (r : Response) :
    r.encode =
      (r.lines.map PyText.encode).flatMap (· ++ Client.crlf) ++ Client.crlf ++ r.body := by
  rw [encode, encode_append, encode_flatMap]
  rfl

theorem mem_allHeaders {r : Response} {h : Str × Str} (hm : h ∈ r.allHeaders) :
    h ∈ r.headers ∨ h = ("CSeq".toList, "0".toList) ∨
      h = ("Content-Length".toList, decimal r.body.length) := by
  simp only [allHeaders, List.mem_append] at hm
  rcases hm with (hm | hm) | hm
  · exact .inl hm
  · split at hm
    · cases hm
    · exact .inr (.inl (List.mem_singleton.mp hm))
  · split at hm
    · cases hm
    · exact .inr (.inr (List.mem_singleton.mp hm))

/-- The header lines of a response: a known name, or the length of the body. -/
theorem Clean.allHeaders {r : Response} (hr : r.Clean) {h : Str × Str} (hm : h ∈ r.allHeaders) :
    '\n' ∉ h.1 ∧ '\n' ∉ h.2 := by
  have hnames : ∀ k ∈ headerNames, '\n' ∉ k := by decide
  rcases mem_allHeaders hm with hm | rfl | rfl
  · obtain ⟨hk, hv⟩ := hr.headers h hm
    exact ⟨hnames h.1 hk, hv⟩
  · decide +kernel
  · have hname : '\n' ∉ "Content-Length".toList := by decide
    exact ⟨hname, newline_not_mem_decimal _⟩

/-- No line of a response has a line feed in it. -/
theorem Clean.lines {r : Response} (hr : r.Clean) : ∀ l ∈ r.lines, '\n' ∉ l := by
  have hstatus : '\n' ∉ "RTSP/1.0 ".toList := by decide
  have hserver : '\n' ∉ "Server: ".toList ++ serverId := by decide
  have hcolon : '\n' ∉ ": ".toList := by decide
  intro l hl
  simp only [Response.lines, List.cons_append, List.nil_append, List.mem_cons] at hl
  rcases hl with rfl | rfl | hl
  · simp only [List.mem_append, not_or]
    exact ⟨⟨⟨hstatus, newline_not_mem_decimal _⟩, by decide⟩, hr.reason⟩
  · exact hserver
  · obtain ⟨h, hm, rfl⟩ := List.mem_map.mp hl
    obtain ⟨hk, hv⟩ := hr.allHeaders hm
    simp only [List.mem_append, not_or]
    exact ⟨⟨hk, hcolon⟩, hv⟩

theorem ne_nil_of_mem_lines {r : Response} {l : Str} (hl : l ∈ r.lines) : l ≠ [] := by
  simp only [Response.lines, List.cons_append, List.nil_append, List.mem_cons] at hl
  rcases hl with rfl | rfl | hl
  · exact List.cons_ne_nil _ _
  · exact List.cons_ne_nil _ _
  · obtain ⟨h, -, rfl⟩ := List.mem_map.mp hl
    intro he
    have := (List.append_eq_nil_iff.mp he).1
    simp at this

theorem Clean.isLine {r : Response} (hr : r.Clean) :
    ∀ l ∈ r.lines.map PyText.encode, IsLine l := by
  intro l hl
  obtain ⟨t, ht, rfl⟩ := List.mem_map.mp hl
  exact ⟨encode_ne_nil (ne_nil_of_mem_lines ht),
    fun h => hr.lines t ht (newline_of_mem_encode h)⟩

/-- What the client looks for to learn the length of a body. -/
def lengthField : Bytes := PyText.encode "Content-Length: ".toList

/-- A text that differs from the field in its first characters. -/
theorem not_lengthField {a : Str} (v : Str)
    (h : ¬ lengthField <+: PyText.encode a ∧ ¬ PyText.encode a <+: lengthField) :
    lengthField.isPrefixOf (PyText.encode (a ++ v)) = false := by
  rw [encode_append, Bool.eq_false_iff, Ne, List.isPrefixOf_iff_prefix]
  intro hp
  rcases List.prefix_or_prefix_of_prefix hp (List.prefix_append _ _) with h' | h'
  · exact h.1 h'
  · exact h.2 h'

/-- The lines before the length of the body. -/
def firstLines (r : Response) : List Str :=
  ["RTSP/1.0 ".toList ++ decimal r.code ++ [' '] ++ r.reason, "Server: ".toList ++ serverId] ++
    (r.headers ++ (if r.headers.any (·.1 = "CSeq".toList) then []
      else [("CSeq".toList, "0".toList)])).map fun h => h.1 ++ ": ".toList ++ h.2

theorem lines_eq (r : Response) :
    r.lines = r.firstLines ++ (if r.body = [] then []
      else ["Content-Length".toList ++ ": ".toList ++ decimal r.body.length]) := by
  unfold lines allHeaders firstLines
  by_cases hb : r.body = []
  · rw [if_pos hb, if_pos hb, List.append_nil, List.append_nil]
  · rw [if_neg hb, if_neg hb, List.map_append, List.map_singleton, ← List.append_assoc]

theorem Clean.firstLines {r : Response} (hr : r.Clean) :
    (r.firstLines.map PyText.encode).find? lengthField.isPrefixOf = none := by
  have hnames : ∀ k ∈ headerNames, ¬ lengthField <+: PyText.encode (k ++ ": ".toList) ∧
      ¬ PyText.encode (k ++ ": ".toList) <+: lengthField := by decide +kernel
  have hcseq : "CSeq".toList ∈ headerNames := by decide +kernel
  rw [List.find?_eq_none]
  intro l hl
  obtain ⟨t, ht, rfl⟩ := List.mem_map.mp hl
  rw [Bool.not_eq_true]
  simp only [Response.firstLines, List.cons_append, List.nil_append, List.mem_cons] at ht
  rcases ht with rfl | rfl | ht
  · rw [List.append_assoc, List.append_assoc]
    exact not_lengthField _ (by decide +kernel)
  · exact not_lengthField _ (by decide +kernel)
  · obtain ⟨h, hm, rfl⟩ := List.mem_map.mp ht
    refine not_lengthField _ (hnames h.1 ?_)
    rcases List.mem_append.mp hm with hm | hm
    · exact (hr.headers h hm).1
    · split at hm
      · cases hm
      · cases List.mem_singleton.mp hm
        exact hcseq

/-- The client finds the length of the body, if there is one. -/
theorem Clean.contentLength {r : Response} (hr : r.Clean) :
    contentLength (r.lines.map PyText.encode) = r.body.length := by
  have hdigits : ∀ c ∈ decimal r.body.length, c.toNat < 128 := by
    intro c hc
    have hd := decimal_isDigit hc
    simp only [Char.isDigit, Bool.and_eq_true, decide_eq_true_eq] at hd
    have := UInt32.le_iff_toNat_le.mp hd.2
    have h57 : '9'.val.toNat = 57 := rfl
    change c.val.toNat < 128
    omega
  have hfield : PyText.encode ("Content-Length".toList ++ ": ".toList ++ decimal r.body.length) =
      lengthField ++ PyText.encode (decimal r.body.length) := by
    rw [encode_append]
    congr 1
  have hlen : lengthField.length = 16 := by decide +kernel
  have hprefix : lengthField.isPrefixOf
      (lengthField ++ PyText.encode (decimal r.body.length)) = true :=
    List.isPrefixOf_iff_prefix.mpr (List.prefix_append _ _)
  rw [Client.contentLength, r.lines_eq, List.map_append, List.find?_append]
  rw [show PyText.encode "Content-Length: ".toList = lengthField from rfl, hr.firstLines,
    Option.none_or]
  by_cases hb : r.body = []
  · rw [if_pos hb, hb]
    rfl
  · rw [if_neg hb, List.map_singleton, hfield, List.find?_singleton, hprefix]
    simp only [if_true]
    rw [List.drop_left' hlen, latin1_encode hdigits, ofDigitChars_decimal]

/-- The client cuts a response out of the stream. -/
theorem Clean.reads {r : Response} (hr : r.Clean) :
    Framing.Reads Client.next Response.encode
      (fun r => .response (r.lines.map PyText.encode) r.body) r := by
  have hhead (rest : Bytes) : (r.encode ++ rest).head? = some 82 := by
    rw [encode_eq, r.lines_eq]
    rfl
  refine ⟨fun he => ?_, fun rest => ?_⟩
  · have := hhead []
    rw [he] at this
    cases this
  · have hsplit : r.encode ++ rest = (r.lines.map PyText.encode).flatMap (· ++ Client.crlf) ++
        Client.crlf ++ (r.body ++ rest) := by
      rw [encode_eq, List.append_assoc]
    have hlines : readLines ((r.encode ++ rest).length + 1) (r.encode ++ rest) =
        some (r.lines.map PyText.encode, r.body ++ rest) := by
      rw [hsplit]
      refine readLines_flatMap _ hr.isLine _ _ ?_
      have hlen : (r.lines.map PyText.encode).length ≤
          ((r.lines.map PyText.encode).flatMap (· ++ Client.crlf)).length :=
        Framing.length_le_flatMap _ fun l _ => by simp [Client.crlf]
      rw [List.length_append, List.length_append]
      omega
    rw [Client.next, hhead, if_neg (by decide), nextResponse, hlines, Option.bind_some,
      hr.contentLength, takeBytes_append]
    rfl

end Response

theorem Message.Clean.reads {m : Message} (h : m.Clean) :
    Framing.Reads Client.next Message.bytes Message.part m := by
  cases m with
  | response r => exact Response.Clean.reads h
  | packet ch data =>
    obtain ⟨h0, h255, hlen⟩ := h
    refine ⟨List.cons_ne_nil _ _, fun rest => ?_⟩
    have hbe : be 2 data.length =
        [UInt8.ofNat (data.length / 256), UInt8.ofNat data.length] := rfl
    have hread : readBe [UInt8.ofNat (data.length / 256), UInt8.ofNat data.length] =
        data.length := by
      rw [← hbe, readBe_be]
      exact Nat.mod_eq_of_lt hlen
    have hch : (UInt8.ofNat ch.toNat).toNat = ch.toNat := by
      rw [UInt8.toNat_ofNat']
      omega
    rw [Client.next]
    simp only [bytes, hbe, List.cons_append, List.nil_append, List.head?_cons, if_true,
      Client.nextPacket, hread, hch, Client.takeBytes_append, Option.map_some, part]

namespace Conn

theorem sent_append (h o : List Effect) :
    sent (h ++ o) = sent h ++ if .closeWriter ∈ h then [] else sent o := by
  induction h with
  | nil => simp [sent]
  | cons e h ih =>
    cases e with
    | closeWriter => simp [sent]
    | _ => simp [sent, ih]

theorem parts_append (h o : List Effect) :
    parts (h ++ o) = parts h ++ if .closeWriter ∈ h then [] else parts o := by
  rw [parts, sent_append, List.flatMap_append, List.map_append, parts]
  split <;> rfl

theorem mem_sent {h : List Effect} {e : Effect} (he : e ∈ sent h) : e ∈ h := by
  induction h with
  | nil => cases he
  | cons x h ih =>
    cases x with
    | closeWriter => cases he
    | _ =>
      rcases List.mem_cons.mp he with rfl | he
      · exact List.mem_cons_self ..
      · exact List.mem_cons_of_mem _ (ih he)

/-- Effects without media carry no packet. -/
theorem packetsOn_parts {ch : Nat} {o : List Effect} (ho : ∀ c ps, .media c ps ∉ o) :
    Client.packetsOn ch (parts o) = [] := by
  rw [Client.packetsOn, List.filterMap_eq_nil_iff]
  intro p hp
  obtain ⟨m, hm, rfl⟩ := List.mem_map.mp hp
  obtain ⟨e, he, hme⟩ := List.mem_flatMap.mp hm
  cases e with
  | media c ps => exact absurd (mem_sent he) (ho c ps)
  | response r =>
    cases List.mem_singleton.mp hme
    rfl
  | _ => cases hme

/-- The packets of one write. -/
theorem packetsOn_media (ch : Int) (packets : List Bytes) :
    Client.packetsOn ch.toNat (parts [.media ch packets]) = packets := by
  have hparts : parts [.media ch packets] = packets.map fun p => .packet ch.toNat p := by
    simp [parts, sent, messages, Message.part, List.map_map, Function.comp_def]
  rw [hparts, Client.packetsOn, List.filterMap_map]
  simp only [Function.comp_def, if_true]
  exact List.filterMap_some

/-- What a client gets out of the bytes of a connection: the messages that were sent, in order. -/
theorem receive_wire {h : List Effect} (hc : ∀ e ∈ h, ∀ m ∈ messages e, m.Clean) :
    Client.receive (wire h) = some (parts h) := by
  refine Framing.read_flatMap _ fun m hm => ?_
  obtain ⟨e, he, hme⟩ := List.mem_flatMap.mp hm
  exact (hc e (mem_sent he) m hme).reads

end Conn
end DvrBridge
