import DvrBridge.RtspConnection
import DvrBridge.SequenceWindows
import Mathlib.Data.List.DropRight

/-! The PLAY windows of a connection: what goes over TCP, read as answers to PLAY and TEARDOWN and
as numbered RTP packets. -/
namespace DvrBridge
open PyText Mark

/-- `drain` raises only when the TCP connection is lost. -/
def ConnInput.drainFails : ConnInput → Bool
  | .loop .lost | .loop .timedOut | .pump .lost | .pump .failed => true
  | _ => false

/-- What is written to the TCP connection. -/
def Effect.onTcp : Effect → Bool
  | .response _ | .media _ _ => true
  | _ => false

/-- A connection and whether the TCP connection under it is known to be lost: what is written to a
lost one goes nowhere. -/
structure Link where
  conn : Conn
  up : Bool := true

namespace Link

def step (srv : Server) (l : Link) (i : ConnInput) : Option (Link × List Effect) :=
  (l.conn.step srv i).map fun r =>
    let up := l.up && !i.drainFails
    ({ conn := r.1, up := up }, if up then r.2 else r.2.filter (!·.onTcp))

def fresh (peer : Option Str) (ssrc : Nat) : Link := { conn := Conn.fresh peer ssrc }

theorem step_inv {srv : Server} {l l' : Link} {i : ConnInput} {o : List Effect}
    (h : l.step srv i = some (l', o)) : ∃ e, l.conn.step srv i = some (l'.conn, e) ∧
      (l'.up = true ∧ l.up = true ∧ i.drainFails = false ∧ o = e ∨
        l'.up = false ∧ o = e.filter (!·.onTcp)) := by
  obtain ⟨⟨c, e⟩, hs, he⟩ := Option.map_eq_some_iff.mp h
  obtain ⟨rfl, rfl⟩ := Prod.mk.inj he
  refine ⟨e, hs, ?_⟩
  cases hu : l.up && !i.drainFails with
  | true =>
    simp only [Bool.and_eq_true, Bool.not_eq_eq_eq_not, Bool.not_true] at hu
    exact .inl ⟨rfl, hu.1, hu.2, rfl⟩
  | false => exact .inr ⟨rfl, rfl⟩

end Link

namespace Conn

/-- The sequence number in an RTP packet. -/
def seqOf (packet : Bytes) : Nat := readBe ((packet.drop 2).take 2)

/-- The successor of a sequence number. -/
def nextSeq (n : Nat) : Nat := (n + 1) % 2 ^ 16

/-- The number that `RTP-Info` ends with. -/
def announced (r : Response) : Option Nat :=
  (r.headers.lookup "RTP-Info".toList).map fun v =>
    Nat.ofDigitChars 10 (v.rtakeWhile Char.isDigit) 0

/-- A 200 to PLAY opens a window, a 200 to TEARDOWN closes it. -/
def answerMark (last : Option Method) (r : Response) : List (Mark Nat) :=
  if r.code = 200 then
    match last with
    | some .play => [.opens (announced r)]
    | some .teardown => [.closes]
    | _ => []
  else []

def frameMarks (packets : List Bytes) : List (Mark Nat) := packets.map fun p => .item (seqOf p)

/-- The history of a connection whose last handler is `last`. A datagram takes a number that the
TCP connection does not see. -/
def marks : Option Method → List Effect → List (Mark Nat)
  | _, [] => []
  | _, .handler m :: h => marks (some m) h
  | last, .response r :: h => answerMark last r ++ marks last h
  | last, .media _ packets :: h => frameMarks packets ++ marks last h
  | last, .datagram _ _ _ _ :: h => .spent :: marks last h
  | last, _ :: h => marks last h

/-- The last handler. -/
def asked : Option Method → List Effect → Option Method
  | last, [] => last
  | _, .handler m :: h => asked (some m) h
  | last, _ :: h => asked last h

theorem marks_append (last : Option Method) (h o : List Effect) :
    marks last (h ++ o) = marks last h ++ marks (asked last h) o := by
  induction h generalizing last with
  | nil => rfl
  | cons e h ih =>
    cases e with
    | response r | media ch packets => simp only [List.cons_append, marks, asked, ih,
        List.append_assoc]
    | _ => simp only [List.cons_append, marks, asked, ih]

theorem asked_append (last : Option Method) (h o : List Effect) :
    asked last (h ++ o) = asked (asked last h) o := by
  induction h generalizing last with
  | nil => rfl
  | cons e h ih => cases e <;> exact ih _

theorem marks_datagrams (last : Option Method) (e : Nat) (host : Str) (port : Int)
    (packets : List Bytes) : marks last (packets.map (.datagram e host port)) =
      List.replicate packets.length .spent := by
  induction packets with
  | nil => rfl
  | cons p packets ih => simp only [List.map_cons, marks, ih, List.length_cons, List.replicate_succ]

theorem asked_datagrams (last : Option Method) (e : Nat) (host : Str) (port : Int)
    (packets : List Bytes) : asked last (packets.map (.datagram e host port)) = last := by
  induction packets with
  | nil => rfl
  | cons p packets ih => exact ih

/-- Without the TCP connection no mark is out of order. -/
theorem follows_offTcp {last : Option Method} {o : List Effect}
    (ho : ∀ e ∈ o, e.onTcp = false) (next : Option Nat) :
    ∃ t, Follows nextSeq next (marks last o) t := by
  induction o generalizing last next with
  | nil => exact ⟨next, .nil⟩
  | cons e o ih =>
    have hrest : ∀ e ∈ o, e.onTcp = false := fun e he => ho e (List.mem_cons_of_mem _ he)
    cases e with
    | response r | media ch packets => cases ho _ (List.mem_cons_self ..)
    | datagram e host port p =>
      obtain ⟨t, ht⟩ := ih hrest (next.map nextSeq)
      exact ⟨t, .spent ht⟩
    | _ => exact ih hrest next

theorem seqOf_header {p : Packetizer} (hp : p.seq < 2 ^ 16) (marker : Bool) (ts : Nat)
    (payload : Bytes) : seqOf (p.header marker ts ++ payload) = p.seq := by
  simp only [seqOf, Packetizer.header, List.append_assoc, List.cons_append, List.nil_append,
    List.drop_succ_cons, List.drop_zero, take_be, readBe_be]
  exact Nat.mod_eq_of_lt hp

theorem emitAll_seq_lt {p : Packetizer} (hp : p.seq < 2 ^ 16) (ts : Nat)
    (ps : List (Bytes × Bool)) : (p.emitAll ts ps).1.seq < 2 ^ 16 := by
  induction ps generalizing p with
  | nil => exact hp
  | cons pm ps ih => exact ih (Nat.mod_lt _ (by decide))

theorem emitAll_seq (p : Packetizer) (ts : Nat) (ps : List (Bytes × Bool)) :
    (p.emitAll ts ps).1.seq = nextSeq^[(p.emitAll ts ps).2.length] p.seq := by
  induction ps generalizing p with
  | nil => rfl
  | cons pm ps ih => exact ih _

theorem follows_emitAll {p : Packetizer} (hp : p.seq < 2 ^ 16) (ts : Nat)
    (ps : List (Bytes × Bool)) : Follows nextSeq (some p.seq) (frameMarks (p.emitAll ts ps).2)
      (some (p.emitAll ts ps).1.seq) := by
  induction ps generalizing p with
  | nil => exact .nil
  | cons pm ps ih =>
    have hs : seqOf (p.emit pm.1 pm.2 ts).2 = p.seq := seqOf_header hp pm.2 ts pm.1
    have hlt : (p.emit pm.1 pm.2 ts).1.seq < 2 ^ 16 := Nat.mod_lt _ (by decide)
    simp only [Packetizer.emitAll, frameMarks, List.map_cons, hs]
    exact .item (ih hlt)

/-- The packets of an access unit are numbered from the packetizer's number up to its next one. -/
theorem follows_packetize {p : Packetizer} (hp : p.seq < 2 ^ 16) (nals : List Bytes) (ts : Nat) :
    Follows nextSeq (some p.seq) (frameMarks (p.packetize nals ts).2)
      (some (p.packetize nals ts).1.seq) :=
  follows_emitAll hp ts _

theorem iterate_map_some (n k : Nat) :
    (Option.map nextSeq)^[k] (some n) = some (nextSeq^[k] n) := by
  induction k generalizing n with
  | zero => rfl
  | succ k ih => exact ih (nextSeq n)

/-- The same when they are sent as datagrams. -/
theorem follows_datagrams (p : Packetizer) (nals : List Bytes) (ts : Nat) :
    Follows nextSeq (some p.seq) (List.replicate (p.packetize nals ts).2.length .spent)
      (some (p.packetize nals ts).1.seq) := by
  have h : Follows nextSeq (some p.seq) (List.replicate _ .spent) _ :=
    follows_spent (some p.seq) (p.packetize nals ts).2.length
  have hs : (p.packetize nals ts).1.seq = nextSeq^[(p.packetize nals ts).2.length] p.seq :=
    emitAll_seq p ts _
  rwa [iterate_map_some, ← hs] at h

theorem rtakeWhile_decimal (s : Str) (n : Nat) (hs : s.getLast? = some '=') :
    (s ++ decimal n).rtakeWhile Char.isDigit = decimal n := by
  have hd : ∀ c ∈ (decimal n).reverse, c.isDigit = true :=
    fun c hc => decimal_isDigit (List.mem_reverse.mp hc)
  have hr : s.reverse.takeWhile Char.isDigit = [] := by
    cases h : s.reverse with
    | nil => rfl
    | cons c r =>
      have hc : s.getLast? = some c := by rw [← List.head?_reverse, h, List.head?_cons]
      cases Option.some.inj (hc.symm.trans hs)
      rfl
  rw [List.rtakeWhile, List.reverse_append, List.takeWhile_append_of_pos hd, hr, List.append_nil,
    List.reverse_reverse]

/-- The answer to PLAY announces the packetizer's number. -/
theorem announced_onPlay {c : Conn} {url cseq : Str} {r : Response} {k : After}
    (h : c.onPlay url cseq = .answer r k) :
    r.code = 200 ∧ k = .play ∧ announced r = some c.packetizer.seq := by
  unfold onPlay at h
  split at h
  · cases h
  · cases h
    refine ⟨rfl, rfl, ?_⟩
    have hl : ("url=".toList ++ rstripChar '/' url ++ "/track0;seq=".toList).getLast? =
        some '=' := by
      rw [List.getLast?_append]
      rfl
    have hn := rtakeWhile_decimal _ c.packetizer.seq hl
    change some (Nat.ofDigitChars 10 (List.rtakeWhile Char.isDigit _) 0) = _
    rw [hn, ofDigitChars_decimal]

end Conn
end DvrBridge
