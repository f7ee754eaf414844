import DvrBridge.NetDvr3Buffer
import DvrBridge.Window

/-! A scanner over the absolute positions of an unbounded stream, and that the driver's sliding
buffer yields the same frames. -/
namespace DvrBridge.NetDvr3
open H264 Search Machine Window
variable (s : Nat → UInt8)

def MagicAt (i : Nat) : Prop := At s magic i

instance (i : Nat) : Decidable (MagicAt s i) := inferInstanceAs (Decidable (At s magic i))

/-- The payload length that a header at position `q` announces. -/
def payloadLenAt (q : Nat) : Nat := readLe (slice s (q + 22) 2) + 4

def payloadAt (q : Nat) : Bytes := slice s (q + 24) (payloadLenAt s q)

/-- The payload begins like an access unit and another magic follows it. -/
def FrameAt (q : Nat) : Prop :=
  start4 <+: payloadAt s q ∧ MagicAt s (q + 24 + payloadLenAt s q + 4)

instance (q : Nat) : Decidable (FrameAt s q) := inferInstanceAs (Decidable (_ ∧ _))

def frameAt (q : Nat) : VideoFrame :=
  { payload := payloadAt s q
    tsMs := some (readLe (slice s (q + 16) 4))
    keyframe := s (q + 20) = frameI || (iterNals (payloadAt s q)).any (nalType · = nalIdr) }

inductive Scanner where
  /-- at a header -/
  | header (q : Nat)
  /-- behind the last skipped position -/
  | skipped (pos : Nat)

/-- A move of the scanner, and the frame it emits. -/
noncomputable def Scanner.move : Scanner → Scanner × List VideoFrame
  | .header q =>
    if FrameAt s q then (.header (q + 24 + payloadLenAt s q), [frameAt s q])
    else (.skipped (q + 8), [])
  | .skipped pos =>
    let m := next s magic pos
    if pos + 4 ≤ m then (.header (m - 4), []) else (.skipped (m + 4), [])

/-- Where `n` moves take the scanner from a header, and the frames they emit. -/
noncomputable def scan (q : Nat) : Nat → Scanner × List VideoFrame
  | 0 => (.header q, [])
  | n + 1 => (((scan q n).1.move s).1, (scan q n).2 ++ ((scan q n).1.move s).2)

/-! The device sends without end; the reads cut the stream. -/

structure Endless where
  parser : Parser := {}
  /-- how much has been read -/
  pos : Nat := 0

inductive Cut where
  | go
  | bytes (k : Nat)
  deriving DecidableEq

def Endless.step (e : Endless) : Cut → Option (Endless × List ParserOutput)
  | .go => (e.parser.step .go).map fun r => ({ e with parser := r.1 }, r.2)
  | .bytes k =>
    (e.parser.step (.data (slice s e.pos k))).map fun r => (⟨r.1, e.pos + k⟩, r.2)

theorem Endless.step_cases {e e' : Endless} {c : Cut} {o : List ParserOutput}
    (h : e.step s c = some (e', o)) :
    ∃ i, e.parser.step i = some (e'.parser, o) ∧ i.chunk = slice s e.pos i.chunk.length ∧
      e'.pos = e.pos + i.chunk.length ∧ i ≠ .eof ∧ i ≠ .timeout := by
  cases c with
  | go =>
    obtain ⟨⟨q, o'⟩, hs, he⟩ := Option.map_eq_some_iff.mp h
    cases he
    exact ⟨.go, hs, rfl, rfl, by simp, by simp⟩
  | bytes k =>
    obtain ⟨⟨q, o'⟩, hs, he⟩ := Option.map_eq_some_iff.mp h
    cases he
    refine ⟨.data (slice s e.pos k), hs, ?_, ?_, by simp, by simp⟩
    · simp [ParserInput.chunk]
    · simp [ParserInput.chunk]

theorem Endless.enabled {e : Endless} (h : e.parser.pc ≠ .raised) :
    ∃ c, (e.step s c).isSome = true := by
  rcases Parser.enabled h with ⟨r, hr⟩ | hm | ⟨n, hm⟩
  · exact ⟨.go, by simp [step, hr]⟩
  · refine ⟨.bytes 1, ?_⟩
    have hne : slice s e.pos 1 ≠ [] := by simp [slice]
    simp [step, Parser.step, hm, hne]
  · exact ⟨.bytes n, by simp [step, Parser.step, hm]⟩

/-! The buffer as a window of the stream. -/

/-- The buffer holds the stream from `base` on, up to what has been read. -/
structure Buffered (buf : Bytes) (pos base : Nat) : Prop where
  eq_slice : buf = slice s base buf.length
  pos_eq : pos = base + buf.length

namespace Buffered
variable {s} {buf : Bytes} {pos base : Nat}

theorem append (h : Buffered s buf pos base) {chunk : Bytes}
    (hc : chunk = slice s pos chunk.length) :
    Buffered s (buf ++ chunk) (pos + chunk.length) base := by
  refine ⟨?_, ?_⟩
  · rw [List.length_append, ← slice_append, ← h.eq_slice, ← h.pos_eq, ← hc]
  · rw [List.length_append, h.pos_eq, Nat.add_assoc]

theorem drop (h : Buffered s buf pos base) {k : Nat} (hk : k ≤ buf.length) :
    Buffered s (buf.drop k) pos (base + k) := by
  refine ⟨?_, ?_⟩
  · rw [List.length_drop, ← drop_slice s hk, ← h.eq_slice]
  · rw [List.length_drop, h.pos_eq]
    omega

theorem find_some (h : Buffered s buf pos base) {i : Nat} (hf : find magic buf = some i) :
    i + 4 ≤ buf.length ∧ MagicAt s (base + i) ∧ ∀ k < i, ¬ MagicAt s (base + k) := by
  rw [h.eq_slice] at hf
  exact (find_slice_eq_some_iff s magic (by decide) base buf.length i).mp hf

theorem find_none (h : Buffered s buf pos base) (hf : find magic buf = none) :
    ∀ k, k + 4 ≤ buf.length → ¬ MagicAt s (base + k) := by
  rw [h.eq_slice] at hf
  exact (find_slice_eq_none_iff s magic (by decide) base buf.length).mp hf

/-- A search from the first byte on finds the first magic as soon as it is there. -/
theorem find_first {first : Nat} (h : Buffered s buf pos 0)
    (hfirst : MagicAt s first ∧ ∀ j < first, ¬ MagicAt s j) :
    find magic buf = if first + 4 ≤ buf.length then some first else none := by
  split
  · rename_i hl
    rw [h.eq_slice]
    refine (find_slice_eq_some_iff s magic (by decide) 0 buf.length first).mpr ⟨hl, ?_, ?_⟩
    · rw [Nat.zero_add]
      exact hfirst.1
    · intro k hk
      rw [Nat.zero_add]
      exact hfirst.2 k hk
  · rename_i hl
    rw [h.eq_slice]
    refine (find_slice_eq_none_iff s magic (by decide) 0 buf.length).mpr ?_
    intro k hk
    have hk' : k + 4 ≤ buf.length := hk
    rw [Nat.zero_add]
    exact hfirst.2 k (by omega)

/-- A search that fails has not seen the whole first magic. -/
theorem length_lt_of_fails {first : Nat} (h : Buffered s buf pos 0)
    (hfirst : MagicAt s first ∧ ∀ j < first, ¬ MagicAt s j) (h4 : 4 ≤ first)
    (hn : ∀ k, find magic buf = some k → k < 4) : buf.length < first + 4 := by
  by_contra hge
  have := hn first (by rw [h.find_first hfirst, if_pos (Nat.not_lt.mp hge)])
  omega

theorem take_header (h : Buffered s buf pos base) (hl : headerLen ≤ buf.length) :
    buf.take headerLen = slice s base headerLen := by
  have ht := congrArg (List.take headerLen) h.eq_slice
  rwa [take_slice s hl] at ht

theorem payload (h : Buffered s buf pos base) {n : Nat} (hl : headerLen + n ≤ buf.length) :
    (buf.take (headerLen + n)).drop headerLen = slice s (base + headerLen) n := by
  have ht := congrArg (List.take (headerLen + n)) h.eq_slice
  rw [take_slice s hl] at ht
  rw [ht, drop_slice s (Nat.le_add_right ..), Nat.add_sub_cancel_left]

theorem peek (h : Buffered s buf pos base) {n : Nat} (hl : n + 8 ≤ buf.length) :
    (((buf.drop n).take 8).drop 4).take 4 = slice s (base + n + 4) 4 := by
  have hd := (h.drop (k := n) (by omega)).eq_slice
  rw [hd, List.length_drop, take_slice s (by omega), drop_slice s (by decide),
    take_slice s (by decide)]

end Buffered

/-! The header at a position. -/

theorem field_slice {i k n : Nat} (h : i + k ≤ n) (q : Nat) :
    field (slice s q n) i k = readLe (slice s (q + i) k) := by
  rw [field, drop_slice s (by omega), take_slice s (by omega)]

def headerAt (q : Nat) : FrameHeader :=
  { seq := readLe (slice s q 4)
    tsMs := readLe (slice s (q + 16) 4)
    ftype := s (q + 20)
    payloadLen := payloadLenAt s q }

theorem parse_headerAt {q : Nat} (h : MagicAt s (q + 4)) :
    parseFrameHeader (slice s q headerLen) = some (headerAt s q) := by
  have hm : slice s (q + 4) 4 = magic := h
  have h63 : field (slice s q headerLen) 4 2 = 0x0063 := by
    have ht : slice s (q + 4) 2 = magic.take 2 := by rw [← hm, take_slice s (by omega)]
    rw [field_slice s (by decide), ht]
    decide
  have h0c : field (slice s q headerLen) 6 2 = 0x000c := by
    have hd : slice s (q + 6) 2 = magic.drop 2 := by rw [← hm, drop_slice s (by omega)]
    rw [field_slice s (by decide), hd]
    decide
  rw [parseFrameHeader, if_neg (by simp [h63, h0c]), headerAt, Option.some.injEq,
    FrameHeader.mk.injEq]
  exact ⟨field_slice s (by decide) q, field_slice s (by decide) q,
    getD_slice s (by decide) q 0, congrArg (· + 4) (field_slice s (by decide) q)⟩

theorem payloadLenAt_le (q : Nat) : payloadLenAt s q ≤ 65539 := by
  have := readLe_lt (slice s (q + 22) 2)
  rw [length_slice] at this
  rw [payloadLenAt]
  omega

end DvrBridge.NetDvr3
