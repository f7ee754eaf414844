import DvrBridge.Reads
import DvrBridge.RtspConnection
import DvrBridge.RtspHeaders
import DvrBridge.Search

/-! `_read_request`: how the bytes that a client sends become requests. The state is what is left
of them. -/
namespace DvrBridge.Rtsp
open PyText Search

def maxBody : Nat := 64 * 1024
def maxInterleaved : Nat := 64 * 1024
def maxHeaders : Nat := 100
def maxHeaderBytes : Nat := 16 * 1024

/-- The longest line that a stream reader returns, its line feed apart. -/
def lineLimit : Nat := 2 ^ 16

inductive ReadError where
  | rtsp (e : RtspError)
  | incompleteRead
  /-- a line beyond the limit, or a header that is not UTF-8 -/
  | valueError
  deriving DecidableEq

abbrev Read := StateT Bytes (Except ReadError)

/-- What one call of `_read_request` did. -/
inductive ReadResult where
  /-- a blank line, or interleaved data -/
  | skipped
  | request (line : Bytes) (headers : Headers) (body : Bytes)
  deriving DecidableEq

def readExactly (n : Nat) : Read Bytes := fun bs =>
  if n ≤ bs.length then .ok (bs.take n, bs.drop n) else .error .incompleteRead

/-- At the end of the stream `readline` returns what there is. -/
def readLine : Read Bytes := fun bs =>
  match find [10] bs with
  | some i => if i ≤ lineLimit then .ok (bs.take (i + 1), bs.drop (i + 1)) else .error .valueError
  | none => if bs.length ≤ lineLimit then .ok (bs, []) else .error .valueError

/-- What a line adds to the header map; `none` is a `UnicodeDecodeError`. Names that differ only in
the case of letters outside Latin-1 are one name in the source and two here; no handler looks up
such a name. -/
def addHeader (headers : Headers) (h : Bytes) : Option Headers :=
  match find [58] h with
  | none => some headers
  | some i =>
    (decode (h.take i)).bind fun k => (decode (h.drop (i + 1))).map fun v =>
      headers.put (lower (strip k)) (strip v)

/-- The loop over the header lines. Every line counts, so that `maxHeaderBytes + 1` rounds reach an
end or the bound. -/
def readHeaders : Nat → Nat → Headers → Read Headers
  | 0, _, _ => throw (.rtsp .headersTooLarge)
  | rounds + 1, headerBytes, headers => readLine >>= fun h =>
    if h ∈ [[13, 10], [10], []] then pure headers
    else if headerBytes + h.length > maxHeaderBytes ∨ headers.length ≥ maxHeaders then
      throw (.rtsp .headersTooLarge)
    else
      match addHeader headers h with
      | none => throw .valueError
      | some headers => readHeaders rounds (headerBytes + h.length) headers

def readBody (headers : Headers) : Read Bytes :=
  match headers.lookup "content-length".toList with
  | none => pure []
  | some v =>
    match int v with
    | none => throw (.rtsp .badRequest)
    | some n => if 0 ≤ n ∧ n ≤ maxBody then readExactly n.toNat else throw (.rtsp .bodyTooLarge)

/-- `b` is blank in a byte string. -/
def isBlank (b : UInt8) : Bool := decide (b = 32 ∨ 9 ≤ b ∧ b ≤ 13)

def readInterleaved : Read ReadResult := readExactly 3 >>= fun hdr =>
  if readBe (hdr.drop 1) > maxInterleaved then throw (.rtsp .badRequest)
  else readExactly (readBe (hdr.drop 1)) >>= fun _ => pure .skipped

def readText (first : Bytes) : Read ReadResult := readLine >>= fun more =>
  if (first ++ more).all isBlank then pure .skipped
  else readHeaders (maxHeaderBytes + 1) 0 [] >>= fun headers =>
    readBody headers >>= fun body => pure (.request (first ++ more) headers body)

def readRequest : Read ReadResult := readExactly 1 >>= fun first =>
  if first = [0x24] then readInterleaved else readText first

/-- Calls one after the other. -/
def readRequests : Nat → Read (List ReadResult)
  | 0 => pure []
  | n + 1 => readRequest >>= fun r => readRequests n >>= fun rs => pure (r :: rs)

/-- What the request loop goes on with; `token` is used by a SETUP without a session. -/
def ReadResult.input (token : Str) : ReadResult → LoopInput
  | .skipped => .skipped
  | .request line headers _ => .request line headers token

def ReadError.input : ReadError → LoopInput
  | .rtsp e => .malformed e
  | .incompleteRead | .valueError => .gone

/-- What the request loop goes on with when these bytes are all that it gets. -/
def inputOf (bs : Bytes) (token : Str) : LoopInput :=
  match readRequest bs with
  | .ok (res, _) => res.input token
  | .error e => e.input

/-- The bytes that are left. -/
def left (bs : Bytes) : Bytes := bs

theorem reads_exactly (bs : Bytes) : Reads left (readExactly bs.length) bs bs := by
  rintro s rest rfl
  refine ⟨rest, ?_, rfl⟩
  rw [readExactly, if_pos (by simp), List.take_left, List.drop_left]

/-- `readline` at a line within the stream. -/
theorem readLine_append {l : Bytes} (h : (10 : UInt8) ∉ l) (rest : Bytes) :
    readLine (l ++ [10] ++ rest) =
      if l.length ≤ lineLimit then .ok (l ++ [10], rest) else .error .valueError := by
  have hlen : l.length + 1 = (l ++ [10]).length := by simp
  have hf : find [10] (l ++ [10] ++ rest) = some l.length := by
    rw [List.append_assoc]
    exact find_symbol l rest h
  simp only [readLine, hf]
  rw [hlen, List.take_left, List.drop_left]

theorem reads_line {l : Bytes} (h : (10 : UInt8) ∉ l) (hl : l.length ≤ lineLimit) :
    Reads left readLine (l ++ [10]) (l ++ [10]) := by
  rintro s rest rfl
  exact ⟨rest, by rw [readLine_append h, if_pos hl], rfl⟩

/-- A header line up to its line feed; a blank line would end the headers. -/
structure HeaderLine (l : Bytes) : Prop where
  line : (10 : UInt8) ∉ l
  ne_nil : l ≠ []
  ne_cr : l ≠ [13]

/-- The header map after these lines. -/
def addHeaders : Headers → List Bytes → Option Headers
  | hs, [] => some hs
  | hs, l :: ls => (addHeader hs (l ++ [10])).bind fun hs => addHeaders hs ls

theorem put_length (hs : Headers) (k v : Str) : (hs.put k v).length ≤ hs.length + 1 := by
  unfold Headers.put
  split <;> simp

theorem addHeader_length {hs hs' : Headers} {h : Bytes} (ha : addHeader hs h = some hs') :
    hs'.length ≤ hs.length + 1 := by
  unfold addHeader at ha
  split at ha
  · cases ha
    omega
  · obtain ⟨k, -, ha⟩ := Option.bind_eq_some_iff.mp ha
    obtain ⟨v, -, rfl⟩ := Option.map_eq_some_iff.mp ha
    exact put_length _ _ _

theorem readHeaders_end {rounds n : Nat} {hs : Headers} {bs h rest : Bytes}
    (hline : readLine bs = .ok (h, rest)) (hend : h ∈ ([[13, 10], [10], []] : List Bytes)) :
    readHeaders (rounds + 1) n hs bs = .ok (hs, rest) := by
  simp only [readHeaders, bind, StateT.bind, hline, Except.bind, if_pos hend]
  rfl

theorem readHeaders_line {rounds n : Nat} {hs : Headers} {bs h rest : Bytes}
    (hline : readLine bs = .ok (h, rest)) (hend : h ∉ ([[13, 10], [10], []] : List Bytes))
    (hbound : ¬ (n + h.length > maxHeaderBytes ∨ hs.length ≥ maxHeaders)) :
    readHeaders (rounds + 1) n hs bs =
      match addHeader hs h with
      | some hs => readHeaders rounds (n + h.length) hs rest
      | none => .error .valueError := by
  simp only [readHeaders, bind, StateT.bind, hline, Except.bind, if_neg hend, if_neg hbound]
  cases addHeader hs h <;> rfl

/-- Within the limits whole header lines are all read, and each adds its entry. -/
theorem readHeaders_append (ls : List Bytes) (hl : ∀ l ∈ ls, HeaderLine l) {rounds n : Nat}
    {hs : Headers} (hn : n + (ls.flatMap (· ++ [10])).length ≤ maxHeaderBytes)
    (hc : hs.length + ls.length ≤ maxHeaders) (tail : Bytes) :
    readHeaders (rounds + ls.length) n hs (ls.flatMap (· ++ [10]) ++ tail) =
      match addHeaders hs ls with
      | some hs => readHeaders rounds (n + (ls.flatMap (· ++ [10])).length) hs tail
      | none => .error .valueError := by
  induction ls generalizing n hs with
  | nil => rfl
  | cons l ls ih =>
    obtain ⟨hlf, hne, hcr⟩ := hl l (List.mem_cons_self ..)
    rw [List.flatMap_cons, List.length_append] at hn
    rw [List.length_cons] at hc
    have hmax : maxHeaderBytes ≤ lineLimit := by decide
    have hlen : l.length ≤ lineLimit := by
      rw [List.length_append] at hn
      omega
    have hend : l ++ [10] ∉ ([[13, 10], [10], []] : List Bytes) := by
      intro hm
      simp only [List.mem_cons, List.not_mem_nil, or_false] at hm
      rcases hm with hm | hm | hm
      · exact hcr (List.append_cancel_right (hm : l ++ [10] = [13] ++ [10]))
      · exact hne (List.append_cancel_right (hm : l ++ [10] = [] ++ [10]))
      · simp at hm
    have hbound : ¬ (n + (l ++ [10]).length > maxHeaderBytes ∨ hs.length ≥ maxHeaders) := by
      omega
    have hline := readLine_append hlf (ls.flatMap (· ++ [10]) ++ tail)
    rw [if_pos hlen] at hline
    have hsum : n + (l ++ [10] ++ ls.flatMap (· ++ [10])).length =
        n + (l ++ [10]).length + (ls.flatMap (· ++ [10])).length := by
      simp only [List.length_append]
      omega
    rw [List.flatMap_cons, hsum, List.append_assoc, List.length_cons, ← Nat.add_assoc,
      readHeaders_line hline hend hbound, addHeaders]
    cases ha : addHeader hs (l ++ [10]) with
    | none => rfl
    | some hs' =>
      have := addHeader_length ha
      refine ih (fun x hx => hl x (List.mem_cons_of_mem l hx)) ?_ ?_
      · omega
      · omega

/-- The header lines up to the blank line. -/
theorem readHeaders_lines (ls : List Bytes) (hl : ∀ l ∈ ls, HeaderLine l) {rounds n : Nat}
    {hs : Headers} (hr : ls.length < rounds)
    (hn : n + (ls.flatMap (· ++ [10])).length ≤ maxHeaderBytes)
    (hc : hs.length + ls.length ≤ maxHeaders) (rest : Bytes) :
    readHeaders rounds n hs (ls.flatMap (· ++ [10]) ++ ([13, 10] ++ rest)) =
      match addHeaders hs ls with
      | some hs => .ok (hs, rest)
      | none => .error .valueError := by
  obtain ⟨k, rfl⟩ := Nat.exists_eq_add_of_lt hr
  have hrounds : ls.length + k + 1 = k + 1 + ls.length := by omega
  have hline : readLine ([13, 10] ++ rest) = .ok ([13, 10], rest) := by
    have := readLine_append (l := [13]) (by decide) rest
    rwa [if_pos (by decide)] at this
  rw [hrounds, readHeaders_append ls hl hn hc]
  cases addHeaders hs ls with
  | none => rfl
  | some hs' => exact readHeaders_end hline (by decide)

theorem flatMap_length_ge {ls : List Bytes} : ls.length ≤ (ls.flatMap (· ++ [10])).length := by
  induction ls with
  | nil => simp
  | cons l ls ih =>
    rw [List.flatMap_cons, List.length_append, List.length_cons, List.length_append,
      List.length_singleton]
    omega

/-! The header map is one that decoded lines build. -/

theorem readLine_newline {bs h rest : Bytes} (hr : readLine bs = .ok (h, rest)) :
    (10 : UInt8) ∉ h.dropLast := by
  simp only [readLine] at hr
  split at hr
  · rename_i i hi
    have hlt : i + 1 ≤ bs.length := find_lt [10] bs i hi
    have hlast : (bs.take (i + 1)).dropLast = bs.take i := by
      rw [List.dropLast_eq_take, List.take_take, List.length_take, Nat.min_eq_left hlt,
        Nat.add_sub_cancel, Nat.min_eq_left (Nat.le_succ i)]
    split at hr
    · cases hr
      rw [hlast]
      exact not_mem_take_of_find hi
    · cases hr
  · rename_i hnone
    split at hr
    · cases hr
      exact fun hm => find_symbol_none_iff.mp hnone (List.mem_of_mem_dropLast hm)
    · cases hr

theorem readLine_of_encode {s : Str} (h : (10 : UInt8) ∉ (encode s).dropLast) : ReadLine s := by
  intro hm
  have hne : s ≠ [] := by
    rintro rfl
    cases hm
  have hsplit : encode s = encode s.dropLast ++ encode [s.getLast hne] := by
    rw [← encode_append, List.dropLast_append_getLast]
  rw [hsplit, List.dropLast_append_of_ne_nil (encode_ne_nil (List.cons_ne_nil _ _))] at h
  exact h (List.mem_append_left _ (mem_encode_of_mem (c := '\n') (by decide) hm))

theorem addHeader_addLine {hs hs' : Headers} {h : Bytes} (hl : (10 : UInt8) ∉ h.dropLast)
    (ha : addHeader hs h = some hs') : ∃ line, ReadLine line ∧ hs' = hs.addLine line := by
  unfold addHeader at ha
  split at ha
  · cases ha
    exact ⟨[], by simp [ReadLine], rfl⟩
  · rename_i i hi
    obtain ⟨k, hk, ha⟩ := Option.bind_eq_some_iff.mp ha
    obtain ⟨v, hv, rfl⟩ := Option.map_eq_some_iff.mp ha
    have hkey := encode_of_decode hk
    have hcolon : ':' ∉ k := fun hm => by
      have := mem_encode_of_mem (c := ':') (by decide) hm
      rw [hkey] at this
      exact not_mem_take_of_find hi this
    have hbytes : encode (k ++ ':' :: v) = h := by
      obtain ⟨-, ⟨t, ht⟩, -⟩ := (find_eq_some_iff ..).mp hi
      have htail : h.drop (i + 1) = t := by
        rw [← List.drop_drop, ← ht]
        rfl
      have hsep : encode (':' :: v) = 58 :: encode v := rfl
      rw [encode_append, hkey, hsep, encode_of_decode hv, htail]
      calc h.take i ++ 58 :: t = h.take i ++ h.drop i := by rw [← ht]; rfl
        _ = h := List.take_append_drop i h
    refine ⟨k ++ ':' :: v, readLine_of_encode (hbytes ▸ hl), ?_⟩
    rw [Headers.addLine, if_pos (by simp), partition_cons hcolon]

/-- By induction on the rounds of the loop. -/
theorem readHeaders_addLine {rounds n : Nat} {hs hs' : Headers} {bs rest : Bytes}
    (hr : readHeaders rounds n hs bs = .ok (hs', rest)) :
    ∃ lines : List Str, (∀ l ∈ lines, ReadLine l) ∧ hs' = lines.foldl Headers.addLine hs := by
  induction rounds generalizing n hs bs with
  | zero => cases hr
  | succ rounds ih =>
    obtain ⟨h, bs', hline, hr⟩ := bind_eq_ok_iff.mp hr
    split at hr
    · obtain ⟨rfl, -⟩ := pure_eq_ok_iff.mp hr
      exact ⟨[], by simp, rfl⟩
    split at hr
    · cases hr
    cases ha : addHeader hs h with
    | none =>
      rw [ha] at hr
      cases hr
    | some hs₁ =>
      rw [ha] at hr
      obtain ⟨line, hl, rfl⟩ := addHeader_addLine (readLine_newline hline) ha
      obtain ⟨lines, hls, rfl⟩ := ih hr
      exact ⟨line :: lines, List.forall_mem_cons.mpr ⟨hl, hls⟩, rfl⟩

theorem readRequest_headers {bs rest line body : Bytes} {headers : Headers}
    (hr : readRequest bs = .ok (.request line headers body, rest)) :
    ∃ lines, (∀ l ∈ lines, ReadLine l) ∧ headers = Headers.ofLines lines := by
  obtain ⟨first, bs₁, -, hr⟩ := bind_eq_ok_iff.mp hr
  split at hr
  · -- interleaved data is no request
    obtain ⟨hdr, bs₂, -, hr⟩ := bind_eq_ok_iff.mp hr
    split at hr
    · cases hr
    · obtain ⟨_, _, -, hr⟩ := bind_eq_ok_iff.mp hr
      cases (pure_eq_ok_iff.mp hr).1
  · obtain ⟨more, bs₂, -, hr⟩ := bind_eq_ok_iff.mp hr
    split at hr
    · cases (pure_eq_ok_iff.mp hr).1
    · obtain ⟨hs, bs₃, hheaders, hr⟩ := bind_eq_ok_iff.mp hr
      obtain ⟨_, _, -, hr⟩ := bind_eq_ok_iff.mp hr
      cases (pure_eq_ok_iff.mp hr).1
      exact readHeaders_addLine hheaders

end DvrBridge.Rtsp
