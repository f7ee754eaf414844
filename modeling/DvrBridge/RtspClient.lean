import DvrBridge.Framing
import DvrBridge.RtspMessage
import DvrBridge.Search

/-! The client's side of a TCP connection: interleaved packets and responses are told apart and
cut out one after the other. -/
namespace DvrBridge.Client
open Search PyText

inductive Part where
  /-- the lines of the head, and the body -/
  | response (lines : List Bytes) (body : Bytes)
  | packet (ch : Nat) (data : Bytes)
  deriving DecidableEq

def crlf : Bytes := [13, 10]

/-- The lines up to a blank one, and what follows it. -/
def readLines : Nat → Bytes → Option (List Bytes × Bytes)
  | 0, _ => none
  | fuel + 1, bs =>
    (find crlf bs).bind fun i =>
      if i = 0 then some ([], bs.drop 2)
      else (readLines fuel (bs.drop (i + 2))).map fun r => (bs.take i :: r.1, r.2)

def contentLength (lines : List Bytes) : Nat :=
  match lines.find? (encode "Content-Length: ".toList).isPrefixOf with
  | some line => Nat.ofDigitChars 10 (latin1 (line.drop 16)) 0
  | none => 0

def takeBytes (n : Nat) (bs : Bytes) : Option (Bytes × Bytes) :=
  if n ≤ bs.length then some (bs.take n, bs.drop n) else none

/-- `$`, the channel, the length and the packet. -/
def nextPacket : Bytes → Option (Part × Bytes)
  | _ :: ch :: hi :: lo :: rest =>
    (takeBytes (readBe [hi, lo]) rest).map fun r => (.packet ch.toNat r.1, r.2)
  | _ => none

def nextResponse (bs : Bytes) : Option (Part × Bytes) :=
  (readLines (bs.length + 1) bs).bind fun r =>
    (takeBytes (contentLength r.1) r.2).map fun s => (.response r.1 s.1, s.2)

def next (bs : Bytes) : Option (Part × Bytes) :=
  if bs.head? = some 0x24 then nextPacket bs else nextResponse bs

/-- Everything a client gets out of the bytes of a connection. -/
def receive (bs : Bytes) : Option (List Part) := Framing.read next bs

/-- The packets on one channel. -/
def packetsOn (ch : Nat) (ps : List Part) : List Bytes :=
  ps.filterMap fun
    | .packet c data => if c = ch then some data else none
    | .response _ _ => none

theorem takeBytes_append (bs rest : Bytes) : takeBytes bs.length (bs ++ rest) = some (bs, rest) := by
  rw [takeBytes, if_pos (by simp), List.take_left, List.drop_left]

/-- A line of a head: not blank, and without a line feed. -/
def IsLine (l : Bytes) : Prop := l ≠ [] ∧ (10 : UInt8) ∉ l

theorem find_crlf {l : Bytes} (h : (10 : UInt8) ∉ l) (rest : Bytes) :
    find crlf (l ++ crlf ++ rest) = some l.length := by
  rw [List.append_assoc]
  exact find_pair (by decide) l rest h

theorem readLines_flatMap (ls : List Bytes) (h : ∀ l ∈ ls, IsLine l) (rest : Bytes) (fuel : Nat)
    (hf : ls.length < fuel) :
    readLines fuel (ls.flatMap (· ++ crlf) ++ crlf ++ rest) = some (ls, rest) := by
  induction ls generalizing fuel with
  | nil =>
    obtain ⟨fuel, rfl⟩ := Nat.exists_eq_succ_of_ne_zero (Nat.ne_zero_of_lt hf)
    have hfind : find crlf ([] ++ crlf ++ rest) = some 0 := find_crlf (by simp) rest
    rw [readLines, List.flatMap_nil, hfind, Option.bind_some, if_pos rfl]
    rfl
  | cons l ls ih =>
    obtain ⟨fuel, rfl⟩ := Nat.exists_eq_succ_of_ne_zero (Nat.ne_zero_of_lt hf)
    obtain ⟨hne, hlf⟩ := h l (List.mem_cons_self ..)
    have hlen := List.length_pos_iff.mpr hne
    have hrest := ih (fun x hx => h x (List.mem_cons_of_mem l hx)) fuel
      (Nat.lt_of_succ_lt_succ hf)
    have hsplit : (l :: ls).flatMap (· ++ crlf) ++ crlf ++ rest =
        l ++ crlf ++ (ls.flatMap (· ++ crlf) ++ crlf ++ rest) := by
      simp only [List.flatMap_cons, List.append_assoc]
    have hdrop : (l ++ crlf ++ (ls.flatMap (· ++ crlf) ++ crlf ++ rest)).drop (l.length + 2) =
        ls.flatMap (· ++ crlf) ++ crlf ++ rest := List.drop_left' (by simp [crlf])
    rw [hsplit, readLines, find_crlf hlf, Option.bind_some, if_neg (by omega), hdrop, hrest,
      List.append_assoc, List.take_left]
    rfl

end DvrBridge.Client
