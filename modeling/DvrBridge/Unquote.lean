import DvrBridge.PyText

/-! `unquote` of `urllib.parse`: an escape becomes a byte, and a run of bytes becomes text in UTF-8, with
a replacement character for what is malformed. -/
namespace DvrBridge.Unquote

/-- A byte of an ASCII run or of an escape, or another character. -/
inductive Piece where
  | byte (b : UInt8)
  | char (c : Char)

def hexValue (c : Char) : Option Nat :=
  if '0' ≤ c ∧ c ≤ '9' then some (c.toNat - 48)
  else if 'a' ≤ c ∧ c ≤ 'f' then some (c.toNat - 87)
  else if 'A' ≤ c ∧ c ≤ 'F' then some (c.toNat - 55)
  else none

/-- The byte whose two digits follow a percent sign. -/
def escaped : Str → Option UInt8
  | a :: b :: _ =>
    (hexValue a).bind fun hi => (hexValue b).map fun lo => UInt8.ofNat (hi * 16 + lo)
  | _ => none

/-- `skip` characters belong to an escape that has been read. -/
def pieces : Nat → Str → List Piece
  | _, [] => []
  | skip + 1, _ :: s => pieces skip s
  | 0, c :: s =>
    if c = '%' then
      match escaped s with
      | some b => .byte b :: pieces 2 s
      | none => .byte 0x25 :: pieces 0 s
    else if c.toNat < 128 then .byte (UInt8.ofNat c.toNat) :: pieces 0 s
    else .char c :: pieces 0 s

/-- A character that has begun: the bytes it needs, the range of the next one, its bits so far. -/
structure Pending where
  need : Nat
  lo : UInt8 := 0x80
  hi : UInt8 := 0xbf
  bits : Nat
  /-- no ASCII byte goes on with a character -/
  high : 0x80 ≤ lo := by decide

/-- U+FFFD -/
def replacement : Char := Char.ofNat 0xfffd

/-- A byte at the beginning of a character. -/
def first (b : UInt8) : Str × Option Pending :=
  if b < 0x80 then ([Char.ofNat b.toNat], none)
  else if 0xc2 ≤ b ∧ b ≤ 0xdf then ([], some { need := 1, bits := b.toNat % 32 })
  else if b = 0xe0 then ([], some { need := 2, lo := 0xa0, bits := 0 })
  else if b = 0xed then ([], some { need := 2, hi := 0x9f, bits := 13 })
  else if 0xe1 ≤ b ∧ b ≤ 0xef then ([], some { need := 2, bits := b.toNat % 16 })
  else if b = 0xf0 then ([], some { need := 3, lo := 0x90, bits := 0 })
  else if 0xf1 ≤ b ∧ b ≤ 0xf3 then ([], some { need := 3, bits := b.toNat % 8 })
  else if b = 0xf4 then ([], some { need := 3, hi := 0x8f, bits := 4 })
  else ([replacement], none)

/-- What the end of a run leaves of a character that has begun. -/
def flush : Option Pending → Str
  | none => []
  | some _ => [replacement]

def step : Option Pending → Piece → Str × Option Pending
  | none, .byte b => first b
  | some p, .byte b =>
    if p.lo ≤ b ∧ b ≤ p.hi then
      let bits := p.bits * 64 + b.toNat % 64
      if p.need = 1 then ([Char.ofNat bits], none)
      else ([], some { need := p.need - 1, bits := bits })
    -- the byte begins a character of its own
    else (replacement :: (first b).1, (first b).2)
  | st, .char c => (flush st ++ [c], none)

def decodeFrom : Option Pending → List Piece → Str
  | st, [] => flush st
  | st, p :: ps => (step st p).1 ++ decodeFrom (step st p).2 ps

end Unquote

def unquote (s : Str) : Str := Unquote.decodeFrom none (Unquote.pieces 0 s)

namespace Unquote

example : unquote "/dvr%2fch%C3%A91%zz%ff".toList = "/dvr/ché1%zz\uFFFD".toList := by
  decide +kernel

/-- A character that is a piece of its own wherever it stands. -/
structure Separator (c : Char) : Prop where
  ascii : c.toNat < 128
  noPercent : c ≠ '%'
  noDigit : hexValue c = none

theorem separator_slash : Separator '/' := ⟨by decide, by decide, by decide⟩

theorem separator_semicolon : Separator ';' := ⟨by decide, by decide, by decide⟩

variable {c : Char}

theorem escaped_append (h : Separator c) (a b : Str) : escaped (a ++ c :: b) = escaped a := by
  match a with
  | [] => cases b <;> simp [escaped, h.noDigit]
  | [x] => simp [escaped, h.noDigit]
  | x :: y :: a => rfl

theorem length_of_escaped {s : Str} {b : UInt8} (h : escaped s = some b) : 2 ≤ s.length := by
  match s with
  | [] => cases h
  | [x] => cases h
  | x :: y :: s => simp

theorem pieces_append (h : Separator c) (a b : Str) {skip : Nat} (hs : skip ≤ a.length) :
    pieces skip (a ++ c :: b) =
      pieces skip a ++ .byte (UInt8.ofNat c.toNat) :: pieces 0 b := by
  induction a generalizing skip with
  | nil =>
    obtain rfl : skip = 0 := Nat.le_zero.mp hs
    rw [List.nil_append, pieces.eq_3, if_neg h.noPercent, if_pos h.ascii]
    rfl
  | cons x a ih =>
    cases skip with
    | succ skip => exact ih (Nat.le_of_succ_le_succ hs)
    | zero =>
      rw [List.cons_append, pieces, pieces, escaped_append h, ih (Nat.zero_le _)]
      split
      · cases he : escaped a with
        | none => rfl
        | some b => exact congrArg (Piece.byte b :: ·) (ih (length_of_escaped he))
      · split <;> rfl

theorem toNat_ascii (h : c.toNat < 128) : (UInt8.ofNat c.toNat).toNat = c.toNat :=
  UInt8.toNat_ofNat_of_lt' (Nat.lt_trans h (by decide))

theorem first_ascii (h : c.toNat < 128) : first (UInt8.ofNat c.toNat) = ([c], none) := by
  have hlt : UInt8.ofNat c.toNat < 0x80 := by
    rw [UInt8.lt_iff_toNat_lt, toNat_ascii h]
    exact h
  rw [first, if_pos hlt, toNat_ascii h, Char.ofNat_toNat]

/-- An ASCII byte ends the character before it and is one itself. -/
theorem step_ascii (st : Option Pending) (h : c.toNat < 128) :
    step st (.byte (UInt8.ofNat c.toNat)) = (flush st ++ [c], none) := by
  cases st with
  | none => exact first_ascii h
  | some p =>
    have hlo := UInt8.le_iff_toNat_le.mp p.high
    have hout : ¬ (p.lo ≤ UInt8.ofNat c.toNat ∧ UInt8.ofNat c.toNat ≤ p.hi) := by
      rintro ⟨hle, -⟩
      rw [UInt8.le_iff_toNat_le, toNat_ascii h] at hle
      exact absurd (Nat.le_trans hlo hle) (Nat.not_le_of_lt h)
    rw [step, if_neg hout, first_ascii h]
    rfl

theorem decodeFrom_append (st : Option Pending) (ps qs : List Piece) (h : c.toNat < 128) :
    decodeFrom st (ps ++ .byte (UInt8.ofNat c.toNat) :: qs) =
      decodeFrom st ps ++ c :: decodeFrom none qs := by
  induction ps generalizing st with
  | nil =>
    change (step st (.byte (UInt8.ofNat c.toNat))).1 ++
      decodeFrom (step st (.byte (UInt8.ofNat c.toNat))).2 qs = flush st ++ c :: _
    rw [step_ascii st h, List.append_assoc]
    rfl
  | cons p ps ih =>
    rw [List.cons_append, decodeFrom, ih, decodeFrom, List.append_assoc]

/-- Nothing on one side of a separator has to do with the other side. -/
theorem unquote_append (h : Separator c) (a b : Str) :
    unquote (a ++ c :: b) = unquote a ++ c :: unquote b := by
  rw [unquote, pieces_append h a b (Nat.zero_le _), decodeFrom_append none _ _ h.ascii]
  rfl

theorem unquote_replicate (h : Separator c) (a : Str) (n : Nat) :
    unquote (a ++ List.replicate n c) = unquote a ++ List.replicate n c := by
  induction n with
  | zero => simp
  | succ n ih =>
    have hc : unquote (a ++ List.replicate n c ++ [c]) = unquote (a ++ List.replicate n c) ++ [c] :=
      unquote_append h _ []
    rw [List.replicate_succ', ← List.append_assoc, hc, ih, List.append_assoc]

end Unquote
end DvrBridge
