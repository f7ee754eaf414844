import DvrBridge.Bytes
import Mathlib.Data.List.DropRight

/-! The operations on `str` that the server uses. A text is the list of its characters. -/
namespace DvrBridge

abbrev Str := List Char

namespace PyText

/-- `str.isspace` of one character -/
def isSpace (c : Char) : Bool :=
  let n := c.toNat
  decide (9 ≤ n ∧ n ≤ 13 ∨ 0x1c ≤ n ∧ n ≤ 0x20 ∨ n = 0x85 ∨ n = 0xa0 ∨ n = 0x1680 ∨
    0x2000 ≤ n ∧ n ≤ 0x200a ∨ n = 0x2028 ∨ n = 0x2029 ∨ n = 0x202f ∨ n = 0x205f ∨ n = 0x3000)

def strip (s : Str) : Str := (s.dropWhile isSpace).rdropWhile isSpace

/-- `s.strip("/")` and the like -/
def stripChar (c : Char) (s : Str) : Str := (s.dropWhile (· = c)).rdropWhile (· = c)

def rstripChar (c : Char) (s : Str) : Str := s.rdropWhile (· = c)

/-- `s.split()` -/
def split (s : Str) : List Str := (s.splitOnP isSpace).filter (· ≠ [])

/-- `a, _, b = s.partition(c)` -/
def partition (c : Char) (s : Str) : Str × Str :=
  (s.takeWhile (· ≠ c), (s.dropWhile (· ≠ c)).tail)

theorem partition_cons {c : Char} {k : Str} (h : c ∉ k) (v : Str) :
    partition c (k ++ c :: v) = (k, v) := by
  have hk : ∀ x ∈ k, decide (x ≠ c) = true := fun x hx => by
    refine decide_eq_true ?_
    rintro rfl
    exact h hx
  rw [partition, List.takeWhile_append_of_pos hk, List.dropWhile_append_of_pos hk]
  simp

/-- `s.lower()` of a text in Latin-1; other letters stay as they are. -/
def lower (s : Str) : Str :=
  s.map fun c =>
    if 'A' ≤ c ∧ c ≤ 'Z' ∨ 0xc0 ≤ c.toNat ∧ c.toNat ≤ 0xde ∧ c.toNat ≠ 0xd7 then
      Char.ofNat (c.toNat + 32)
    else c

/-- `s.upper()` in ASCII: it is compared with texts in the letters A, C, D, P, R, T, U and V, and no
other character has one of them as its upper case. -/
def upper (s : Str) : Str :=
  s.map fun c => if 'a' ≤ c ∧ c ≤ 'z' then Char.ofNat (c.toNat - 32) else c

/-- `bytes.decode("latin-1")` -/
def latin1 (bs : Bytes) : Str := bs.map fun b => Char.ofNat b.toNat

/-- `str.encode()` -/
def encode (s : Str) : Bytes := s.flatMap String.utf8EncodeChar

/-- `bytes.decode()`; `none` is a `UnicodeDecodeError`. -/
def decode (bs : Bytes) : Option Str := bs.toByteArray.utf8Decode?.map (·.toList)

/-- `str` of a natural number -/
def decimal (n : Nat) : Str := Nat.toDigits 10 n

def decimalInt : Int → Str
  | .ofNat n => decimal n
  | .negSucc n => '-' :: decimal (n + 1)

/-- The zeros of the decimal digits that `int` accepts; each is followed by the other nine. -/
def zeros : List Nat :=
  [0x30, 0x660, 0x6f0, 0x7c0, 0x966, 0x9e6, 0xa66, 0xae6, 0xb66, 0xbe6, 0xc66, 0xce6, 0xd66, 0xde6,
    0xe50, 0xed0, 0xf20, 0x1040, 0x1090, 0x17e0, 0x1810, 0x1946, 0x19d0, 0x1a80, 0x1a90, 0x1b50,
    0x1bb0, 0x1c40, 0x1c50, 0xa620, 0xa8d0, 0xa900, 0xa9d0, 0xa9f0, 0xaa50, 0xabf0, 0xff10,
    0x104a0, 0x10d30, 0x11066, 0x110f0, 0x11136, 0x111d0, 0x112f0, 0x11450, 0x114d0, 0x11650,
    0x116c0, 0x11730, 0x118e0, 0x11950, 0x11c50, 0x11d50, 0x11da0, 0x11f50, 0x16a60, 0x16ac0,
    0x16b50, 0x1d7ce, 0x1d7d8, 0x1d7e2, 0x1d7ec, 0x1d7f6, 0x1e140, 0x1e2f0, 0x1e4f0, 0x1e950,
    0x1fbf0]

/-- What `int` makes of a character before it reads the digits. -/
def toAscii (c : Char) : Char :=
  if c.toNat < 127 then c
  else if isSpace c then ' '
  else match zeros.find? fun z => z ≤ c.toNat ∧ c.toNat < z + 10 with
    | some z => Char.ofNat (0x30 + (c.toNat - z))
    | none => '?'

/-- Digits with single underscores between them, at most 4300 of them. -/
def digits (s : Str) : Option Nat :=
  let groups := s.splitOnP (· = '_')
  if groups.all (fun g => g ≠ [] && g.all Char.isDigit) && decide (groups.flatten.length ≤ 4300) then
    some (Nat.ofDigitChars 10 groups.flatten 0)
  else none

/-- `int(s)`; `none` is a `ValueError`. -/
def int (s : Str) : Option Int :=
  let blank (c : Char) : Bool := decide (c = ' ' ∨ 9 ≤ c.toNat ∧ c.toNat ≤ 13)
  match ((s.map toAscii).dropWhile blank).rdropWhile blank with
  | '-' :: ds => (digits ds).map fun n => -(n : Int)
  | '+' :: ds => (digits ds).map Int.ofNat
  | ds => (digits ds).map Int.ofNat

theorem decimal_isDigit {n : Nat} {c : Char} (h : c ∈ decimal n) : c.isDigit = true :=
  Nat.isDigit_of_mem_toDigits (by decide) (by decide) h

theorem ofDigitChars_decimal (n : Nat) : Nat.ofDigitChars 10 (decimal n) 0 = n :=
  Nat.ofDigitChars_toDigits (by decide) (by decide)

theorem decode_encode (s : Str) : decode (encode s) = some s := by
  change (List.utf8Encode s).utf8Decode?.map _ = _
  rw [List.utf8Decode?_utf8Encode]
  simp

/-- Only the encoding of a text is read as that text. -/
theorem encode_of_decode {bs : Bytes} {s : Str} (h : decode bs = some s) : encode s = bs := by
  obtain ⟨a, ha, rfl⟩ := Option.map_eq_some_iff.mp h
  have hs : bs.toByteArray.utf8Decode?.isSome = true := by
    rw [ha]
    rfl
  have hb := ByteArray.utf8Encode_get_utf8Decode? (h := hs)
  simp only [ha, Option.get_some] at hb
  change (encode a.toList).toByteArray = bs.toByteArray at hb
  simpa using congrArg (fun x => x.data.toList) hb

theorem encode_append (s t : Str) : encode (s ++ t) = encode s ++ encode t :=
  List.flatMap_append

theorem encode_ne_nil {s : Str} (h : s ≠ []) : encode s ≠ [] := by
  obtain ⟨c, t, rfl⟩ := List.exists_cons_of_ne_nil h
  intro he
  exact String.utf8EncodeChar_ne_nil (List.append_eq_nil_iff.mp he).1

/-- UTF-8 writes an ASCII byte only for its own character. -/
theorem mem_of_mem_encode {s : Str} {c : Char} (hc : c.toNat < 128)
    (h : UInt8.ofNat c.toNat ∈ encode s) : c ∈ s := by
  obtain ⟨d, hd, hb⟩ := List.mem_flatMap.mp h
  have hv : d.val.toNat = c.toNat := by
    have hbyte {n : Nat} (hn : n < 256) (hb : UInt8.ofNat c.toNat = UInt8.ofNat n) :
        n = c.toNat := by
      have := congrArg UInt8.toNat hb
      rw [UInt8.toNat_ofNat', UInt8.toNat_ofNat', Nat.mod_eq_of_lt hn,
        Nat.mod_eq_of_lt (by omega)] at this
      exact this.symm
    unfold String.utf8EncodeChar at hb
    simp only at hb
    split_ifs at hb <;> simp only [List.mem_cons, List.not_mem_nil, or_false] at hb
    · exact hbyte (by omega) hb
    · rcases hb with hb | hb <;> have := hbyte (by omega) hb <;> omega
    · rcases hb with hb | hb | hb <;> have := hbyte (by omega) hb <;> omega
    · rcases hb with hb | hb | hb | hb <;> have := hbyte (by omega) hb <;> omega
  have : d = c := Char.ext (UInt32.toNat_inj.mp hv)
  exact this ▸ hd

theorem utf8EncodeChar_ascii {c : Char} (hc : c.toNat < 128) :
    String.utf8EncodeChar c = [UInt8.ofNat c.toNat] := by
  have hle : c.val.toNat ≤ 127 := Nat.le_of_lt_succ hc
  simp only [String.utf8EncodeChar, hle, if_true]
  rfl

theorem mem_encode_of_mem {s : Str} {c : Char} (hc : c.toNat < 128) (h : c ∈ s) :
    UInt8.ofNat c.toNat ∈ encode s := by
  refine List.mem_flatMap.mpr ⟨c, h, ?_⟩
  rw [utf8EncodeChar_ascii hc]
  exact List.mem_singleton_self _

theorem newline_of_mem_encode {s : Str} (h : (10 : UInt8) ∈ encode s) : '\n' ∈ s :=
  mem_of_mem_encode (c := '\n') (by decide) h

theorem nul_of_mem_encode {s : Str} (h : (0 : UInt8) ∈ encode s) : Char.ofNat 0 ∈ s :=
  mem_of_mem_encode (c := Char.ofNat 0) (by decide) h

/-- ASCII text is its own encoding. -/
theorem latin1_encode {s : Str} (h : ∀ c ∈ s, c.toNat < 128) : latin1 (encode s) = s := by
  induction s with
  | nil => rfl
  | cons c s ih =>
    have hc := h c (List.mem_cons_self ..)
    have hs := ih fun d hd => h d (List.mem_cons_of_mem c hd)
    have he := utf8EncodeChar_ascii hc
    have hlt : c.toNat % 2 ^ 8 = c.toNat := Nat.mod_eq_of_lt (by omega)
    simp only [latin1, encode, List.flatMap_cons, he, List.map_cons, List.cons_append,
      List.nil_append, UInt8.toNat_ofNat', hlt] at hs ⊢
    rw [hs, Char.ofNat_toNat]

theorem toNat_ofNat {n : Nat} (h : n < 256) : (Char.ofNat n).toNat = n := by
  have hv : n.isValidChar := .inl (by omega)
  rw [Char.ofNat, dif_pos hv]
  rfl

/-- A character takes more than a byte unless it is ASCII. -/
theorem length_le_encode (s : Str) : s.length ≤ (encode s).length ∧
    ((encode s).length = s.length → ∀ c ∈ s, c.toNat < 128) := by
  induction s with
  | nil => exact ⟨Nat.le_refl _, by simp⟩
  | cons c s ih =>
    obtain ⟨hle, hascii⟩ := ih
    have hlen : (encode (c :: s)).length = c.utf8Size + (encode s).length := by
      simp [encode]
    have hpos := c.utf8Size_pos
    rw [hlen, List.length_cons]
    refine ⟨by omega, fun he => ?_⟩
    have hone : c.utf8Size = 1 := by omega
    have hc := Char.utf8Size_eq_one_iff.mp hone
    rw [UInt32.le_iff_toNat_le] at hc
    refine List.forall_mem_cons.mpr ⟨?_, hascii (by omega)⟩
    exact Nat.lt_succ_of_le hc

theorem length_encode_of_ascii {s : Str} (h : ∀ c ∈ s, c.toNat < 128) :
    (encode s).length = s.length := by
  have hl := congrArg List.length (latin1_encode h)
  rwa [latin1, List.length_map] at hl

theorem not_of_mem_splitOnP {s t : Str} {p : Char → Bool} (ht : t ∈ s.splitOnP p) :
    ∀ c ∈ t, p c = false := by
  induction s generalizing t with
  | nil =>
    rw [List.splitOnP_nil, List.mem_singleton] at ht
    simp [ht]
  | cons d s ih =>
    rw [List.splitOnP_cons_eq_if_modifyHead] at ht
    cases hd : p d with
    | true =>
      rw [if_pos hd, List.mem_cons] at ht
      rcases ht with rfl | ht
      · simp
      · exact ih ht
    | false =>
      rw [if_neg (by simp [hd])] at ht
      obtain ⟨u, us, hu⟩ := List.exists_cons_of_ne_nil (List.splitOnP_ne_nil p s)
      rw [hu] at ih ht
      rw [List.modifyHead_cons, List.mem_cons] at ht
      rcases ht with rfl | ht
      · intro c hc
        rcases List.mem_cons.mp hc with rfl | hc
        · exact hd
        · exact ih (List.mem_cons_self ..) c hc
      · exact ih (List.mem_cons_of_mem u ht)

/-- Text without blanks at its ends loses what blanks are put around it. -/
theorem strip_pad {a v b : Str} (ha : ∀ c ∈ a, isSpace c = true) (hb : ∀ c ∈ b, isSpace c = true)
    (hv : strip v = v) : strip (a ++ v ++ b) = v := by
  have hlen : (v.dropWhile isSpace).length = v.length := by
    refine Nat.le_antisymm (List.dropWhile_suffix isSpace).length_le ?_
    have := (List.rdropWhile_prefix isSpace (l := v.dropWhile isSpace)).length_le
    rwa [show (v.dropWhile isSpace).rdropWhile isSpace = v from hv] at this
  have hl : v.dropWhile isSpace = v := (List.dropWhile_suffix isSpace).eq_of_length hlen
  have hr : v.rdropWhile isSpace = v := by rwa [strip, hl] at hv
  have hrb : (v ++ b).rdropWhile isSpace = v := by
    induction b using List.reverseRecOn with
    | nil => rwa [List.append_nil]
    | append_singleton b c ih =>
      rw [← List.append_assoc, List.rdropWhile_concat_pos _ _ _ (hb c (by simp))]
      exact ih fun d hd => hb d (by simp [hd])
  rw [strip, List.append_assoc, List.dropWhile_append_of_pos ha]
  cases hve : v with
  | nil =>
    have hdb : b.dropWhile isSpace = [] := List.dropWhile_eq_nil_iff.mpr hb
    rw [List.nil_append, hdb]
    rfl
  | cons c w =>
    have hc : isSpace c = false := by
      rw [hve, List.dropWhile_cons] at hl
      split at hl
      · have := (List.dropWhile_suffix isSpace (l := w)).length_le
        rw [hl, List.length_cons] at this
        omega
      · simpa using ‹¬ isSpace c = true›
    rw [List.cons_append, List.dropWhile_cons_of_neg (by simp [hc]), ← List.cons_append, ← hve]
    exact hrb

/-- Text that neither starts nor ends with a blank. -/
theorem strip_of_ends {v : Str} (hh : ∀ c, v.head? = some c → isSpace c = false)
    (hl : ∀ c, v.getLast? = some c → isSpace c = false) : strip v = v := by
  have hd : v.dropWhile isSpace = v := by
    cases v with
    | nil => rfl
    | cons c v => exact List.dropWhile_cons_of_neg (by simp [hh c rfl])
  rw [strip, hd, List.rdropWhile_eq_self_iff]
  intro hne
  simp [hl _ (List.getLast?_eq_some_getLast hne)]

theorem strip_eq_self {v : Str} (h : ∀ c ∈ v, isSpace c = false) : strip v = v :=
  strip_of_ends (fun c hc => h c (List.mem_of_mem_head? hc))
    fun c hc => h c (List.mem_of_getLast? hc)

/-- A word and the rest of a text. -/
theorem split_cons {w s : Str} (hne : w ≠ []) (hw : ∀ c ∈ w, isSpace c = false) {c : Char}
    (hc : isSpace c = true) : split (w ++ c :: s) = w :: split s := by
  rw [split, List.splitOnP_append_cons_of_forall_mem hw c hc, List.filter_cons_of_pos (by simp [hne])]
  rfl

theorem split_word {w : Str} (hne : w ≠ []) (hw : ∀ c ∈ w, isSpace c = false) :
    split w = [w] := by
  rw [split, List.splitOnP_eq_singleton hw, List.filter_cons_of_pos (by simp [hne])]
  rfl

/-- The words of a text have no line feed. -/
theorem newline_not_mem_split {s t : Str} (ht : t ∈ split s) : '\n' ∉ t := fun hm => by
  have := not_of_mem_splitOnP (List.mem_filter.mp ht).1 _ hm
  cases this

theorem newline_not_mem_rstripChar {c : Char} {s : Str} (h : '\n' ∉ s) : '\n' ∉ rstripChar c s :=
  fun hm => h ((List.rdropWhile_prefix _ s).subset hm)

theorem newline_not_mem_decimal (n : Nat) : '\n' ∉ decimal n := fun h => by
  have := decimal_isDigit h
  cases this

theorem newline_not_mem_decimalInt (n : Int) : '\n' ∉ decimalInt n := by
  cases n with
  | ofNat n => exact newline_not_mem_decimal n
  | negSucc n => simp [decimalInt, newline_not_mem_decimal]

end PyText
end DvrBridge
