import DvrBridge.RtspRead

/-! The framing of requests: well-formed messages that follow each other on the wire are read back
one by one. -/
namespace DvrBridge.Rtsp
open PyText Search

/-- The characters of a header name; a token has no others. -/
def isNameChar (c : Char) : Bool := decide (c.toNat < 128) && !isSpace c && decide (c ≠ ':')

structure Header where
  name : Str
  value : Str
  /-- blanks after the colon -/
  lead : Str := [' ']
  name_ne : name ≠ []
  name_ok : ∀ c ∈ name, isNameChar c = true
  value_line : '\n' ∉ value
  value_strip : strip value = value
  lead_ok : ∀ c ∈ lead, c = ' ' ∨ c = '\t'

namespace Header

def text (h : Header) : Str := h.name ++ [':'] ++ (h.lead ++ h.value ++ ['\r'])

def line (h : Header) : Bytes := encode h.text

def bytes (h : Header) : Bytes := h.line ++ [10]

/-- The entry in the header map. -/
def entry (h : Header) : Str × Str := (lower h.name, h.value)

end Header

/-- A word of the request line; the line is Latin-1. -/
def IsWord (w : Str) : Prop := w ≠ [] ∧ ∀ c ∈ w, c.toNat < 256 ∧ isSpace c = false

/-- `str.encode("latin-1")` -/
def latin1Bytes (s : Str) : Bytes := s.map fun c => UInt8.ofNat c.toNat

structure Request where
  method : Str
  url : Str
  version : Str
  headers : List Header
  body : Bytes
  words : IsWord method ∧ IsWord url ∧ IsWord version
  first : method.head? ≠ some '$'
  short : method.length + url.length + version.length + 4 < 64 * 1024
  count : headers.length ≤ 100
  size : (headers.flatMap Header.bytes).length ≤ 16 * 1024
  distinct : (headers.map fun h => lower h.name).Nodup
  body_le : body.length ≤ 64 * 1024
  announced : match (headers.map Header.entry).lookup "content-length".toList with
    | some v => int v = some (body.length : Int)
    | none => body = []

namespace Request

def lineText (r : Request) : Str :=
  r.method ++ ' ' :: (r.url ++ ' ' :: (r.version ++ ['\r', '\n']))

def line (r : Request) : Bytes := latin1Bytes r.lineText

def bytes (r : Request) : Bytes :=
  r.line ++ (r.headers.flatMap Header.bytes ++ ([13, 10] ++ r.body))

end Request

/-- What a client may send. -/
inductive Message where
  | request (r : Request)
  | interleaved (ch : UInt8) (data : Bytes) (len : data.length < 2 ^ 16)
  | blank

namespace Message

def bytes : Message → Bytes
  | request r => r.bytes
  | interleaved ch data _ => 0x24 :: ch :: be 2 data.length ++ data
  | blank => [13, 10]

def result : Message → ReadResult
  | request r => .request r.line (r.headers.map Header.entry) r.body
  | interleaved _ _ _ | blank => .skipped

end Message

/-! Header lines. -/

theorem name_space {h : Header} {c : Char} (hc : c ∈ h.name) : isSpace c = false := by
  have := h.name_ok c hc
  simp only [isNameChar, Bool.and_eq_true, Bool.not_eq_true'] at this
  exact this.1.2

theorem name_colon (h : Header) : ':' ∉ h.name := fun hc => by
  simpa [isNameChar] using h.name_ok ':' hc

theorem text_line (h : Header) : '\n' ∉ h.text := by
  simp only [Header.text, List.mem_append, List.mem_singleton, not_or]
  refine ⟨⟨fun hn => ?_, by decide⟩, ⟨fun hl => ?_, h.value_line⟩, by decide⟩
  · exact absurd (name_space hn) (by decide)
  · rcases h.lead_ok _ hl with hc | hc <;> exact absurd hc (by decide)

theorem lead_space {h : Header} {c : Char} (hc : c ∈ h.lead) : isSpace c = true := by
  rcases h.lead_ok c hc with rfl | rfl <;> decide

theorem crlf_space : ∀ c ∈ ['\r', '\n'], isSpace c = true :=
  List.forall_mem_cons.mpr ⟨rfl, List.forall_mem_singleton.mpr rfl⟩

/-- A header line adds its entry. -/
theorem addHeader_bytes (h : Header) (hs : Headers) :
    addHeader hs h.bytes = some (hs.put (lower h.name) h.value) := by
  have hsplit : h.bytes = encode h.name ++ 58 :: encode (h.lead ++ h.value ++ ['\r', '\n']) := by
    have hend : (['\r', '\n'] : Str) = ['\r'] ++ ['\n'] := rfl
    rw [Header.bytes, Header.line, Header.text, hend, ← List.append_assoc (h.lead ++ h.value),
      encode_append, encode_append, encode_append _ ['\n'], List.append_assoc, List.append_assoc]
    rfl
  have hfind : find [58] h.bytes = some (encode h.name).length := by
    rw [hsplit]
    exact find_symbol _ _ fun hm => name_colon h (mem_of_mem_encode (c := ':') (by decide) hm)
  have hname : strip h.name = h.name := strip_eq_self fun c hc => name_space hc
  have hvalue : strip (h.lead ++ h.value ++ ['\r', '\n']) = h.value :=
    strip_pad (fun c hc => lead_space hc) crlf_space h.value_strip
  have hdrop : (encode h.name ++ 58 :: encode (h.lead ++ h.value ++ ['\r', '\n'])).drop
      ((encode h.name).length + 1) = encode (h.lead ++ h.value ++ ['\r', '\n']) := by
    rw [← List.drop_drop, List.drop_left]
    rfl
  simp only [addHeader, hfind]
  rw [hsplit, List.take_left, hdrop, decode_encode, decode_encode]
  simp only [Option.bind_some, Option.map_some, hname, hvalue]

theorem headerLine (h : Header) : HeaderLine h.line := by
  have hc : (58 : UInt8) ∈ h.line := by
    have hcolon : (58 : UInt8) ∈ encode [':'] := by decide
    simp only [Header.line, Header.text, encode_append, List.mem_append]
    exact .inl (.inr hcolon)
  refine ⟨fun hm => text_line h (newline_of_mem_encode hm), List.ne_nil_of_mem hc, fun hcr => ?_⟩
  rw [hcr] at hc
  simp at hc

/-- A new name goes to the end of the map. -/
theorem put_new {hs : Headers} {k v : Str} (h : k ∉ hs.map (·.1)) :
    hs.put k v = hs ++ [(k, v)] := by
  rw [Headers.put, if_neg]
  simpa using h

/-- Distinct names give one entry each, in order. -/
theorem addHeaders_lines (l : List Header) {hs : Headers}
    (hd : (hs.map (·.1) ++ l.map fun h => lower h.name).Nodup) :
    addHeaders hs (l.map Header.line) = some (hs ++ l.map Header.entry) := by
  induction l generalizing hs with
  | nil => simp [addHeaders]
  | cons h l ih =>
    rw [List.map_cons] at hd
    have hk : lower h.name ∉ hs.map (·.1) := fun hm =>
      List.disjoint_of_nodup_append hd hm (List.mem_cons_self ..)
    have hd' : ((hs ++ [h.entry]).map (·.1) ++ l.map fun h => lower h.name).Nodup := by
      rw [List.map_append, List.append_assoc]
      exact hd
    have hrest := ih hd'
    rw [List.append_assoc] at hrest
    rw [List.map_cons, addHeaders, ← Header.bytes, addHeader_bytes, put_new hk]
    exact hrest

/-- The header lines of a request and the blank line after them. -/
theorem reads_headers {l : List Header} (hc : l.length ≤ maxHeaders)
    (hn : (l.flatMap Header.bytes).length ≤ maxHeaderBytes)
    (hd : (l.map fun h => lower h.name).Nodup) :
    Reads left (readHeaders (maxHeaderBytes + 1) 0 []) (l.flatMap Header.bytes ++ [13, 10])
      (l.map Header.entry) := by
  rintro s rest rfl
  have hbytes : l.flatMap Header.bytes = (l.map Header.line).flatMap (· ++ [10]) := by
    rw [List.flatMap_map]
    rfl
  rw [hbytes] at hn ⊢
  have hlen : (l.map Header.line).length ≤ _ := flatMap_length_ge
  refine ⟨rest, ?_, rfl⟩
  have hlines : ∀ x ∈ l.map Header.line, HeaderLine x := by
    intro x hx
    obtain ⟨h, -, rfl⟩ := List.mem_map.mp hx
    exact headerLine h
  rw [List.append_assoc, readHeaders_lines _ hlines (by omega) (by omega) (by simpa using hc),
    addHeaders_lines l (by simpa using hd)]
  rfl

/-! Requests. -/

theorem latin1_latin1Bytes {s : Str} (h : ∀ c ∈ s, c.toNat < 256) : latin1 (latin1Bytes s) = s := by
  induction s with
  | nil => rfl
  | cons c s ih =>
    have hc : c.toNat % 2 ^ 8 = c.toNat := Nat.mod_eq_of_lt (h c (List.mem_cons_self ..))
    have hs := ih fun d hd => h d (List.mem_cons_of_mem c hd)
    simp only [latin1, latin1Bytes, List.map_cons, UInt8.toNat_ofNat', hc, Char.ofNat_toNat] at hs ⊢
    rw [hs]

namespace Request
variable (r : Request)

/-- The words that `_dispatch` sees. -/
theorem split_line : split (strip (latin1 r.line)) = [r.method, r.url, r.version] := by
  obtain ⟨⟨hm, hmc⟩, ⟨hu, huc⟩, ⟨hv, hvc⟩⟩ := r.words
  have htext : latin1 r.line = r.lineText := by
    refine latin1_latin1Bytes fun c hc => ?_
    simp only [lineText, List.mem_append, List.mem_cons, List.not_mem_nil, or_false] at hc
    rcases hc with hc | rfl | hc | rfl | hc | rfl | rfl
    · exact (hmc c hc).1
    · decide
    · exact (huc c hc).1
    · decide
    · exact (hvc c hc).1
    · decide
    · decide
  have hends : strip (r.method ++ ' ' :: (r.url ++ ' ' :: r.version)) =
      r.method ++ ' ' :: (r.url ++ ' ' :: r.version) := by
    refine strip_of_ends (fun c hc => ?_) fun c hc => ?_
    · rw [List.head?_append_of_ne_nil _ hm] at hc
      exact (hmc c (List.mem_of_mem_head? hc)).2
    · have hlast : r.method ++ ' ' :: (r.url ++ ' ' :: r.version) =
          r.method ++ ' ' :: (r.url ++ [' ']) ++ r.version := by simp
      rw [hlast, List.getLast?_append_of_ne_nil _ hv] at hc
      exact (hvc c (List.mem_of_getLast? hc)).2
  have hpad : r.lineText = [] ++ (r.method ++ ' ' :: (r.url ++ ' ' :: r.version)) ++
      ['\r', '\n'] := by
    simp [lineText]
  rw [htext, hpad, strip_pad (by simp) crlf_space hends,
    split_cons hm (fun c hc => (hmc c hc).2) (by decide),
    split_cons hu (fun c hc => (huc c hc).2) (by decide),
    split_word hv fun c hc => (hvc c hc).2]

theorem reads_body :
    Reads left (readBody (r.headers.map Header.entry)) r.body r.body := by
  have ha := r.announced
  have hb := r.body_le
  unfold readBody
  split at ha
  · rename_i v hl
    rw [hl]
    simp only [ha]
    rw [if_pos ⟨by omega, by simp only [maxBody]; omega⟩, Int.toNat_natCast]
    exact reads_exactly r.body
  · rename_i hl
    rw [hl, ha]
    exact Reads.pure []

/-- A byte of a text in Latin-1 is the code of its character. -/
theorem toNat_latin1 {c : Char} (h : c.toNat < 256) : (UInt8.ofNat c.toNat).toNat = c.toNat := by
  rw [UInt8.toNat_ofNat', Nat.mod_eq_of_lt h]

theorem newline_not_mem_latin1Bytes {s : Str} (h : ∀ c ∈ s, c.toNat < 256 ∧ c ≠ '\n') :
    (10 : UInt8) ∉ latin1Bytes s := by
  intro hm
  obtain ⟨c, hc, hb⟩ := List.mem_map.mp hm
  have hn := congrArg UInt8.toNat hb
  rw [toNat_latin1 (h c hc).1] at hn
  exact (h c hc).2 (Char.toNat_inj.mp hn)

/-- The first byte of the line tells a request from interleaved data and from a blank line. -/
theorem first_byte {c : Char} (h : c.toNat < 256) (hs : isSpace c = false) (hd : c ≠ '$') :
    UInt8.ofNat c.toNat ≠ 0x24 ∧ isBlank (UInt8.ofNat c.toNat) = false := by
  refine ⟨fun hb => ?_, ?_⟩
  · have hn := congrArg UInt8.toNat hb
    rw [toNat_latin1 h] at hn
    exact hd (Char.toNat_inj.mp hn)
  · simp only [isSpace, decide_eq_false_iff_not, not_or] at hs
    simp only [isBlank, decide_eq_false_iff_not, not_or, ← UInt8.toNat_inj, UInt8.le_iff_toNat_le,
      toNat_latin1 h]
    exact ⟨fun h32 => hs.2.1 (by simp at h32; omega), fun h9 => hs.1 (by simpa using h9)⟩

theorem reads_request :
    Reads left readRequest r.bytes (.request r.line (r.headers.map Header.entry) r.body) := by
  obtain ⟨⟨hm, hmc⟩, ⟨-, huc⟩, ⟨-, hvc⟩⟩ := r.words
  have hfirst := r.first
  have hshort := r.short
  obtain ⟨c, m, hcm⟩ := List.exists_cons_of_ne_nil hm
  rw [hcm] at hmc hfirst hshort
  obtain ⟨hc, hcs⟩ := hmc c (List.mem_cons_self ..)
  obtain ⟨h24, hblank⟩ := first_byte hc hcs (by simpa using hfirst)
  -- the line after its first byte, which `readline` returns
  let t : Str := m ++ ' ' :: (r.url ++ ' ' :: (r.version ++ ['\r']))
  have hline : r.line = [UInt8.ofNat c.toNat] ++ (latin1Bytes t ++ [10]) := by
    simp only [line, lineText, hcm, latin1Bytes, t]
    simp
  have ht : ∀ d ∈ t, d.toNat < 256 ∧ d ≠ '\n' := by
    have hword {d : Char} (h : d.toNat < 256 ∧ isSpace d = false) : d.toNat < 256 ∧ d ≠ '\n' := by
      refine ⟨h.1, ?_⟩
      rintro rfl
      exact absurd h.2 (by decide)
    intro d hd
    simp only [t, List.mem_append, List.mem_cons, List.not_mem_nil, or_false] at hd
    rcases hd with hd | rfl | hd | rfl | hd | rfl
    · exact hword (hmc d (List.mem_cons_of_mem c hd))
    · decide
    · exact hword (huc d hd)
    · decide
    · exact hword (hvc d hd)
    · decide
  have hlen : (latin1Bytes t).length ≤ lineLimit := by
    simp only [latin1Bytes, List.length_map, t, List.length_append, List.length_cons,
      List.length_nil, lineLimit] at hshort ⊢
    omega
  have hheaders := reads_headers (l := r.headers) r.count r.size r.distinct
  rw [bytes, hline, List.append_assoc]
  refine (reads_exactly [UInt8.ofNat c.toNat]).bind ?_
  rw [if_neg (by simpa using h24)]
  refine (reads_line (newline_not_mem_latin1Bytes ht) hlen).bind ?_
  rw [if_neg (by simp [hblank]), ← List.append_assoc (r.headers.flatMap Header.bytes)]
  refine hheaders.bind ?_
  exact r.reads_body.map fun body =>
    ReadResult.request ([UInt8.ofNat c.toNat] ++ (latin1Bytes t ++ [10])) _ body

end Request

theorem reads_message (m : Message) : Reads left readRequest m.bytes m.result := by
  cases m with
  | request r => exact r.reads_request
  | interleaved ch data len =>
    have hlen : readBe (be 2 data.length) = data.length := by
      rw [readBe_be]
      exact Nat.mod_eq_of_lt len
    have hhdr := reads_exactly (ch :: be 2 data.length)
    rw [List.length_cons, be_length] at hhdr
    have hbytes : (Message.interleaved ch data len).bytes =
        [0x24] ++ (ch :: be 2 data.length ++ data) := rfl
    rw [hbytes]
    refine (reads_exactly [0x24]).bind ?_
    rw [if_pos rfl]
    refine hhdr.bind ?_
    rw [List.drop_one, List.tail_cons, hlen, if_neg (by simp only [maxInterleaved]; omega)]
    exact (reads_exactly data).map _
  | blank =>
    have hline : Reads left readLine [10] [10] := reads_line (l := []) (by decide) (by decide)
    have htext : Reads left (readText [13]) [10] .skipped := by
      rw [← List.append_nil ([10] : Bytes)]
      refine hline.bind ?_
      rw [if_pos (by decide)]
      exact Reads.pure _
    exact (reads_exactly [13]).bind htext

/-- Whatever follows them, the messages are read one by one, and just their bytes are consumed. -/
theorem reads_messages (ms : List Message) :
    Reads left (readRequests ms.length) (ms.flatMap Message.bytes) (ms.map Message.result) := by
  induction ms with
  | nil => exact Reads.pure []
  | cons m ms ih => exact (reads_message m).bind (ih.map _)

/-- What `_dispatch` is called with: the words of the request line, the headers and the body. -/
def ReadResult.dispatched : ReadResult → Option (List Str × Headers × Bytes)
  | .skipped => none
  | .request line headers body => some (split (strip (latin1 line)), headers, body)

/-- A request as its client wrote it, header names in lower case. -/
def Message.dispatched : Message → Option (List Str × Headers × Bytes)
  | .request r => some ([r.method, r.url, r.version], r.headers.map Header.entry, r.body)
  | .interleaved _ _ _ | .blank => none

theorem dispatched_result (m : Message) : m.result.dispatched = m.dispatched := by
  cases m with
  | request r =>
    rw [Message.result, ReadResult.dispatched, r.split_line]
    rfl
  | interleaved ch data len => rfl
  | blank => rfl

/-- Requests, interleaved data and blank lines in any order: as many calls of `_read_request` as
there are messages dispatch exactly the requests, in order, and leave what follows unread. -/
theorem requests_read_back (ms : List Message) (rest : Bytes) :
    ∃ results, readRequests ms.length (ms.flatMap Message.bytes ++ rest) = .ok (results, rest) ∧
      results.filterMap ReadResult.dispatched = ms.filterMap Message.dispatched := by
  obtain ⟨s, hs, rfl⟩ := reads_messages ms _ rest rfl
  refine ⟨_, hs, ?_⟩
  rw [List.filterMap_map]
  exact List.filterMap_congr fun m _ => dispatched_result m

end DvrBridge.Rtsp
