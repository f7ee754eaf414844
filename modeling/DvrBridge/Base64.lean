import DvrBridge.Sdp

/-! Base64 read back: the decoder of a client, and its inverse. -/
namespace DvrBridge
open PyText

/-- The place of a character in the alphabet. -/
def base64Value (c : Char) : Option Nat :=
  if 'A' ≤ c ∧ c ≤ 'Z' then some (c.toNat - 65)
  else if 'a' ≤ c ∧ c ≤ 'z' then some (c.toNat - 97 + 26)
  else if '0' ≤ c ∧ c ≤ '9' then some (c.toNat - 48 + 52)
  else if c = '+' then some 62
  else if c = '/' then some 63
  else none

/-- The number that some characters write. -/
def base64Number (s : Str) : Option Nat :=
  s.foldlM (fun n c => (base64Value c).map (n * 64 + ·)) 0

/-- The bytes of the last four characters: one pad or two leave fewer bytes. -/
def base64Tail (a b c d : Char) : Option Bytes :=
  if d = '=' then
    if c = '=' then (base64Number [a, b]).map fun n => be 1 (n / 16)
    else (base64Number [a, b, c]).map fun n => be 2 (n / 4)
  else (base64Number [a, b, c, d]).map fun n => be 3 n

def b64decode : Str → Option Bytes
  | [] => some []
  | [a, b, c, d] => base64Tail a b c d
  | a :: b :: c :: d :: s =>
    (base64Number [a, b, c, d]).bind fun n => (b64decode s).map (be 3 n ++ ·)
  | _ => none

theorem base64Value_char {n : Nat} (h : n < 64) : base64Value (base64Char n) = some n := by
  have hall : ∀ n < 64, base64Value (base64Char n) = some n := by decide
  exact hall n h

/-- No character of the alphabet is a pad or a separator. -/
theorem base64Char_ne {n : Nat} (h : n < 64) :
    base64Char n ∉ ['=', ',', ';', ':', ' ', '\r', '\n'] := by
  have hall : ∀ n < 64, base64Char n ∉ ['=', ',', ';', ':', ' ', '\r', '\n'] := by decide
  exact hall n h

section
variable {i j k l : Nat} (hi : i < 64) (hj : j < 64) (hk : k < 64) (hl : l < 64)
include hi hj

theorem base64Number_two :
    base64Number [base64Char i, base64Char j] = some (i * 64 + j) := by
  simp [base64Number, base64Value_char hi, base64Value_char hj]

include hk in
theorem base64Number_three :
    base64Number [base64Char i, base64Char j, base64Char k] = some ((i * 64 + j) * 64 + k) := by
  simp [base64Number, base64Value_char hi, base64Value_char hj, base64Value_char hk]

include hk hl in
theorem base64Number_four :
    base64Number [base64Char i, base64Char j, base64Char k, base64Char l] =
      some (((i * 64 + j) * 64 + k) * 64 + l) := by
  simp [base64Number, base64Value_char hi, base64Value_char hj, base64Value_char hk,
    base64Value_char hl]

end

/-- A whole group of four in front. -/
theorem b64decode_group {a b c d : Char} {n : Nat} (hn : base64Number [a, b, c, d] = some n)
    (hd : d ≠ '=') (s : Str) :
    b64decode (a :: b :: c :: d :: s) = (b64decode s).map (be 3 n ++ ·) := by
  cases s with
  | nil => simp [b64decode, base64Tail, hd, hn]
  | cons e s => rw [b64decode, hn, Option.bind_some]; simp

/-- What is encoded is read back. -/
theorem b64decode_encode (bs : Bytes) : b64decode (b64encode bs) = some bs := by
  induction bs using b64encode.induct with
  | case1 a b c bs ih =>
    have ha := a.toNat_lt
    have hb := b.toNat_lt
    have hc := c.toNat_lt
    have hpad {n : Nat} (hn : n < 64) : base64Char n ≠ '=' := fun he => by
      have := base64Char_ne hn
      simp [he] at this
    have hnum : readBe [a, b, c] = a.toNat * 65536 + b.toNat * 256 + c.toNat := by
      simp only [readBe, List.reverse_cons, List.reverse_nil, List.nil_append, List.cons_append,
        readLe]
      omega
    simp only [b64encode]
    rw [b64decode_group (base64Number_four (by omega) (by omega) (by omega) (by omega))
      (hpad (by omega)), ih, Option.map_some]
    refine congrArg some ?_
    change _ ++ bs = [a, b, c] ++ bs
    refine congrArg (· ++ bs) (Eq.trans (congrArg (be 3) ?_) (be_readBe [a, b, c]))
    rw [hnum]
    omega
  | case2 a b =>
    have ha := a.toNat_lt
    have hb := b.toNat_lt
    have hnum : readBe [a, b] = a.toNat * 256 + b.toNat := by
      simp only [readBe, List.reverse_cons, List.reverse_nil, List.nil_append, List.cons_append,
        readLe]
      omega
    have hpad : base64Char ((a.toNat * 256 + b.toNat) * 4 % 64) ≠ '=' := fun he => by
      have := base64Char_ne (n := (a.toNat * 256 + b.toNat) * 4 % 64) (by omega)
      simp [he] at this
    simp only [b64encode, b64decode, base64Tail, if_true, if_neg hpad]
    rw [base64Number_three (by omega) (by omega) (by omega), Option.map_some]
    refine congrArg some (Eq.trans (congrArg (be 2) ?_) (be_readBe [a, b]))
    rw [hnum]
    omega
  | case3 a =>
    have ha := a.toNat_lt
    have hnum : readBe [a] = a.toNat := by simp [readBe, readLe]
    simp only [b64encode, b64decode, base64Tail, if_true]
    rw [base64Number_two (by omega) (by omega), Option.map_some]
    refine congrArg some (Eq.trans (congrArg (be 1) ?_) (be_readBe [a]))
    rw [hnum]
    omega
  | case4 => rfl

theorem b64encode_injective : Function.Injective b64encode := by
  intro a b h
  have := b64decode_encode a
  rw [h, b64decode_encode b, Option.some.injEq] at this
  exact this.symm

/-- The characters of a code: the alphabet and the pad. -/
theorem forall_mem_b64encode {P : Char → Prop} (halpha : ∀ n < 64, P (base64Char n)) (hpad : P '=')
    (bs : Bytes) : ∀ c ∈ b64encode bs, P c := by
  induction bs using b64encode.induct with
  | case1 a b d bs ih =>
    have ha := a.toNat_lt
    have hb := b.toNat_lt
    have hd := d.toNat_lt
    simp only [b64encode, List.forall_mem_cons]
    exact ⟨halpha _ (by omega), halpha _ (by omega), halpha _ (by omega), halpha _ (by omega), ih⟩
  | case2 a b =>
    have ha := a.toNat_lt
    have hb := b.toNat_lt
    simp only [b64encode, List.forall_mem_cons]
    exact ⟨halpha _ (by omega), halpha _ (by omega), halpha _ (by omega), hpad, by simp⟩
  | case3 a =>
    have ha := a.toNat_lt
    simp only [b64encode, List.forall_mem_cons]
    exact ⟨halpha _ (by omega), halpha _ (by omega), hpad, hpad, by simp⟩
  | case4 => simp [b64encode]

/-- The separators do not occur. -/
theorem not_mem_b64encode {c : Char} (hc : c ∈ [',', ';', ':', ' ', '\r', '\n']) (bs : Bytes) :
    c ∉ b64encode bs := by
  have hne : ∀ d ∈ b64encode bs, d ≠ c := by
    refine forall_mem_b64encode (fun n hn => ?_) ?_ bs
    · rintro rfl
      exact base64Char_ne hn (List.mem_cons_of_mem _ hc)
    · rintro rfl
      simp at hc
  exact fun hm => hne c hm rfl

theorem ascii_b64encode (bs : Bytes) : ∀ c ∈ b64encode bs, c.toNat < 128 :=
  forall_mem_b64encode (by decide) (by decide) bs

end DvrBridge
