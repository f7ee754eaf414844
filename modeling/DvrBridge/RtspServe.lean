import DvrBridge.RtspLock
import DvrBridge.RtspRead

/-! A connection that gets the bytes of requests with well-formed framing: what it owes them. -/
namespace DvrBridge.Rtsp
open PyText Machine

/-- Three words in the line, header lines within the limits, and a body as announced; the words, the
header values and all else may be any bytes. -/
structure RawRequest where
  /-- the request line up to its line feed -/
  line : Bytes
  method : Str
  url : Str
  version : Str
  headers : List Bytes
  body : Bytes
  line_ok : (10 : UInt8) ∉ line
  words : Conn.tokens (line ++ [10]) = [method, url, version]
  first : line.head? ≠ some 0x24
  headers_ok : ∀ l ∈ headers, HeaderLine l
  count : headers.length ≤ maxHeaders
  size : (headers.flatMap (· ++ [10])).length ≤ maxHeaderBytes
  body_le : body.length ≤ maxBody
  announced : ∀ hs, addHeaders [] headers = some hs →
    match hs.lookup "content-length".toList with
    | some v => int v = some (body.length : Int)
    | none => body = []

namespace RawRequest

def bytes (r : RawRequest) : Bytes :=
  r.line ++ [10] ++ (r.headers.flatMap (· ++ [10]) ++ ([13, 10] ++ r.body))

/-- The header map; there is none if a line is not UTF-8. -/
def headerMap (r : RawRequest) : Option Headers := addHeaders [] r.headers

def cseq (r : RawRequest) : Str := (r.headerMap.map (·.get "cseq" "0")).getD "0".toList

/-- What the request loop goes on with. -/
def read (r : RawRequest) (token : Str) : LoopInput := inputOf r.bytes token

/-- `readline` returns the request line. -/
def Short (r : RawRequest) : Prop := r.line.length ≤ lineLimit + 1

instance (r : RawRequest) : Decidable r.Short := inferInstanceAs (Decidable (_ ≤ _))

end RawRequest

inductive ServeInput where
  | receive (r : RawRequest) (token : Str)
  | conn (i : ConnInput)

inductive ServeEvent where
  | received (r : RawRequest)
  | conn (e : Effect)

def serve (srv : Server) (c : Conn) : ServeInput → Option (Conn × List ServeEvent)
  | .receive r token =>
    (c.step srv (.loop (r.read token))).map fun q => (q.1, .received r :: q.2.map .conn)
  | .conn i => (c.step srv i).map fun q => (q.1, q.2.map .conn)

/-- The value of the `CSeq` header on the wire. -/
def cseqOf (r : Response) : Str := (r.allHeaders.lookup "CSeq".toList).getD []

/-- The `CSeq`s of the requests so far. -/
def asked (h : List ServeEvent) : List Str :=
  h.filterMap fun
    | .received r => some r.cseq
    | .conn _ => none

/-- The `CSeq`s of the responses so far. -/
def answered (h : List ServeEvent) : List Str :=
  h.filterMap fun
    | .conn (.response r) => some (cseqOf r)
    | _ => none

/-- The `CSeq` of the response that the request loop has still to write. -/
def owed : LoopPc → List Str
  | .waitReady _ _ cseq | .opening _ cseq => [cseq]
  | .locking _ r _ => [cseqOf r]
  | _ => []

/-- The request loop is over, or will be once it has written. -/
def leaving : LoopPc → Bool
  | .locking _ _ .close | .draining _ .close | .joining .close | .closing | .ended => true
  | _ => false

/-- Every request so far has had one response with its `CSeq`, in order, but for the one that is
still owed; and the connection stays. -/
def Answered (h : List ServeEvent) (c : Conn) : Prop :=
  leaving c.pc = false ∧ asked h = answered h ++ owed c.pc

/-- The client sends requests with well-formed framing and interleaved data, and the socket stays
writable. -/
def Writable : ServeInput → Prop
  | .receive _ _ => True
  | .conn (.loop (.request _ _ _)) | .conn (.loop (.malformed _)) | .conn (.loop .gone)
  | .conn (.loop .lost) | .conn (.loop .timedOut)
  | .conn (.pump .lost) | .conn (.pump .failed) => False
  | .conn _ => True

/-- The handlers that look up a stream. -/
def LooksUp (c : Conn) (method : Str) : Prop :=
  handlerOf method = some .describe ∨ handlerOf method = some .setup ∧ c.playTask = none

/-- Credentials that are compared are ASCII. -/
def ComparesAscii (srv : Server) (method : Str) (headers : Headers) : Prop :=
  srv.auth.isSome = true → Conn.gated method = true →
    startsWith "Basic " (headers.get "authorization" "") = true →
    ((headers.get "authorization" "").drop 6).all (·.toNat < 128) = true

/-- The request line is within the limit of `readline`, the header lines are UTF-8, credentials to
be compared are ASCII, and a URL to be looked up can be parsed; a DESCRIBE finds both parameter sets
after its wait, and a UDP endpoint opens for a peer with an address. -/
def Answerable (srv : Server) (c : Conn) : ServeInput → Prop
  | .receive r _ => r.Short ∧ ∃ hs, r.headerMap = some hs ∧
      ComparesAscii srv r.method hs ∧
      (Conn.gate srv r.method hs = .pass → LooksUp c r.method → (srv.urlPath r.url).isSome = true)
  | .conn (.loop (.ready sps pps _)) => sps.isSome = true ∧ pps.isSome = true
  | .conn (.loop (.opened _)) => c.peer.isSome = true
  | .conn (.loop .openFailed) => False
  | .conn _ => True

/-- How far the loop is from its next request. -/
def distance (c : Conn) : Nat :=
  match c.pc with
  | .waitReady _ _ _ | .opening _ _ => 7
  | .locking _ _ _ =>
    if c.lock.atTurn .loop then 4 else if c.lock.holder = some .pump then 5 else 6
  | .draining _ _ => 3
  | .joining _ =>
    match c.playTask with
    | some p => if p.pc = .done then 1 else 2
    | none => 1
  | _ => 0

/-- The loop reads its next request, or something can happen that brings it nearer to that. -/
def GoesOn (srv : Server) (c : Conn) : Prop :=
  c.pc = .reading ∨ ∃ i c' o, Writable i ∧ serve srv c i = some (c', o) ∧ distance c' < distance c

/-! The two ways to raise. -/

theorem gate_ne_typeError_iff (srv : Server) (method : Str) (headers : Headers) :
    Conn.gate srv method headers ≠ .typeError ↔ ComparesAscii srv method headers := by
  unfold Conn.gate ComparesAscii
  cases srv.auth with
  | none => simp
  | some auth =>
    simp only [Option.isSome_some, forall_const]
    by_cases hg : Conn.gated method = true
    · rw [if_pos hg]
      simp only [hg, forall_const, checkAuth]
      split_ifs <;> simp_all
    · rw [if_neg hg]
      simp [hg]

theorem streamFor_ne_valueError_iff (srv : Server) (url : Str) :
    srv.streamFor url ≠ .valueError ↔ (srv.urlPath url).isSome = true := by
  unfold Server.streamFor
  cases srv.urlPath url with
  | none => simp
  | some p =>
    simp only [Option.isSome_some, iff_true]
    split_ifs <;> simp

/-! What is read. -/

theorem isSpace_of_isBlank {b : UInt8} (h : isBlank b = true) :
    isSpace (Char.ofNat b.toNat) = true := by
  refine forall_byte (P := fun b => isBlank b = true → isSpace (Char.ofNat b.toNat) = true) ?_ b h
  decide

theorem tokens_blank {l : Bytes} (h : l.all isBlank = true) : Conn.tokens l = [] := by
  have hs : ∀ c ∈ latin1 l, isSpace c = true := by
    intro c hc
    obtain ⟨b, hb, rfl⟩ := List.mem_map.mp hc
    exact isSpace_of_isBlank (List.all_eq_true.mp h b hb)
  have hd : (latin1 l).dropWhile isSpace = [] := List.dropWhile_eq_nil_iff.mpr hs
  rw [Conn.tokens, strip, hd]
  decide

/-- The first byte of a request is not that of interleaved data. -/
theorem readRequest_cons {b : UInt8} (hb : b ≠ 0x24) (bs : Bytes) :
    readRequest (b :: bs) = readText [b] bs := by
  have hfirst : readExactly 1 (b :: bs) = .ok ([b], bs) := by
    simp [readExactly]
  simp only [readRequest, bind, StateT.bind, hfirst, Except.bind]
  rw [if_neg (by simpa using hb)]

namespace RawRequest
variable (r : RawRequest)

theorem line_blank : (r.line ++ [10]).all isBlank = false := by
  rw [Bool.eq_false_iff]
  intro h
  have := r.words
  rw [tokens_blank h] at this
  cases this

theorem exists_cons : ∃ b t, r.line = b :: t ∧ b ≠ 0x24 ∧ (10 : UInt8) ∉ t := by
  obtain ⟨b, t, hbt⟩ : ∃ b t, r.line = b :: t := by
    refine List.exists_cons_of_ne_nil fun hn => ?_
    have := r.line_blank
    rw [hn] at this
    cases this
  refine ⟨b, t, hbt, ?_, fun h => r.line_ok (hbt ▸ List.mem_cons_of_mem b h)⟩
  have := r.first
  rw [hbt] at this
  simpa using this

theorem readBody_eq {hs : Headers} (h : r.headerMap = some hs) :
    readBody hs r.body = .ok (r.body, []) := by
  have ha := r.announced hs h
  have hb := r.body_le
  unfold readBody
  split at ha
  · rename_i v hl
    rw [hl]
    simp only [ha]
    rw [if_pos ⟨by omega, by simp only [maxBody] at hb ⊢; omega⟩, Int.toNat_natCast]
    simp [readExactly]
  · rename_i hl
    rw [hl, ha]
    rfl

/-- The request arrives if its line is not too long and its headers are UTF-8. -/
theorem read_eq (token : Str) :
    r.read token =
      match r.headerMap with
      | some hs => if r.Short then .request (r.line ++ [10]) hs token else .gone
      | none => .gone := by
  obtain ⟨b, t, hbt, hb, ht⟩ := r.exists_cons
  have hblank : ([b] ++ (t ++ [10])).all isBlank = false := by
    have := r.line_blank
    rwa [hbt] at this
  let rest : Bytes := r.headers.flatMap (· ++ [10]) ++ ([13, 10] ++ r.body)
  have hline := readLine_append ht rest
  have hlines : r.headers.length ≤ _ := flatMap_length_ge
  have hsize := r.size
  have hrounds : r.headers.length < maxHeaderBytes + 1 := by omega
  have hheaders := readHeaders_lines r.headers r.headers_ok hrounds (n := 0) (by omega)
    (by simpa using r.count : ([] : Headers).length + r.headers.length ≤ maxHeaders) r.body
  have hshort : r.Short ↔ t.length ≤ lineLimit := by
    rw [Short, hbt, List.length_cons, Nat.add_le_add_iff_right]
  have hread : readRequest r.bytes = readText [b] (t ++ [10] ++ rest) := by
    rw [bytes, hbt]
    exact readRequest_cons hb _
  by_cases hs : r.Short
  · rw [if_pos (hshort.mp hs)] at hline
    have htext : readText [b] (t ++ [10] ++ rest) =
        match r.headerMap with
        | some hs => .ok (.request (r.line ++ [10]) hs r.body, [])
        | none => .error .valueError := by
      simp only [readText, bind, StateT.bind, hline, Except.bind, hblank, Bool.false_eq_true,
        if_false, rest, hheaders]
      cases hm : r.headerMap with
      | none =>
        rw [show addHeaders [] r.headers = none from hm]
      | some hs' =>
        rw [show addHeaders [] r.headers = some hs' from hm]
        simp only [r.readBody_eq hm, hbt]
        rfl
    rw [read, inputOf, hread, htext]
    cases r.headerMap with
    | none => rfl
    | some hs' => exact (if_pos hs).symm
  · rw [if_neg (fun h => hs (hshort.mpr h))] at hline
    have htext : readText [b] (t ++ [10] ++ rest) = .error .valueError := by
      simp only [readText, bind, StateT.bind, hline, Except.bind]
    rw [read, inputOf, hread, htext]
    cases r.headerMap with
    | none => rfl
    | some hs' => exact (if_neg hs).symm

end RawRequest
end DvrBridge.Rtsp
