import DvrBridge.Bytes
import Mathlib.Algebra.Order.Group.Nat
import Mathlib.Data.Nat.Log

/-! Bit strings, most significant bit first: fixed-width numbers, bytes, Exp-Golomb codes. -/
namespace DvrBridge

/-- The `n` low bits of `v`. -/
def binary : Nat → Nat → List Bool
  | 0, _ => []
  | n + 1, v => v.testBit n :: binary n v

/-- The bits of a byte string. -/
def bitsOf (bs : Bytes) : List Bool := bs.flatMap fun b => binary 8 b.toNat

/-- The unsigned Exp-Golomb code: as many zeros as the number after the first one has digits. -/
def ueCode (v : Nat) : List Bool :=
  let k := (v + 1).log2
  List.replicate k false ++ [true] ++ binary k (v + 1 - 2 ^ k)

/-- The code number of a signed value: positive values are odd. -/
def seNumber (x : Int) : Nat := if 0 < x then (2 * x - 1).toNat else (-(2 * x)).toNat

def seCode (x : Int) : List Bool := ueCode (seNumber x)

@[simp] theorem binary_length (n v : Nat) : (binary n v).length = n := by
  induction n with
  | zero => rfl
  | succ n ih => simp [binary, ih]

@[simp] theorem bitsOf_nil : bitsOf [] = [] := rfl

theorem bitsOf_cons (b : UInt8) (bs : Bytes) : bitsOf (b :: bs) = binary 8 b.toNat ++ bitsOf bs :=
  rfl

theorem binary_getElem? {n i : Nat} (v : Nat) (h : i < n) :
    (binary n v)[i]? = some (v.testBit (n - 1 - i)) := by
  induction n generalizing i with
  | zero => omega
  | succ n ih =>
    cases i with
    | zero => simp [binary]
    | succ i =>
      rw [binary, List.getElem?_cons_succ, ih (by omega)]
      congr 2
      omega

/-- A leading bit, and the number that the others are. -/
theorem binary_cons {n x : Nat} (b : Bool) (h : x < 2 ^ n) :
    binary (n + 1) (2 ^ n * b.toNat + x) = b :: binary n x := by
  have hb : (2 ^ n * b.toNat + x).testBit n = b := by
    rw [Nat.testBit_two_pow_mul_add _ h, if_neg (Nat.lt_irrefl n), Nat.sub_self]
    cases b <;> rfl
  have hlow : binary n (2 ^ n * b.toNat + x) = binary n x := by
    refine List.ext_getElem (by simp) fun i hi _ => ?_
    rw [binary_length] at hi
    refine Option.some.inj ?_
    rw [← List.getElem?_eq_getElem, ← List.getElem?_eq_getElem, binary_getElem? _ hi,
      binary_getElem? _ hi, Nat.testBit_two_pow_mul_add _ h, if_pos (by omega)]
  rw [binary, hb, hlow]

/-- The bit at a position is in the byte at an eighth of it. -/
theorem bitsOf_getElem? (bs : Bytes) (p : Nat) :
    (bitsOf bs)[p]? = (bs[p / 8]?).map fun b => b.toNat.testBit (7 - p % 8) := by
  induction bs generalizing p with
  | nil => simp
  | cons b bs ih =>
    rw [bitsOf_cons]
    by_cases hp : p < 8
    · rw [List.getElem?_append_left (by simpa using hp), binary_getElem? _ hp,
        Nat.div_eq_of_lt hp, Nat.mod_eq_of_lt hp]
      rfl
    · have hq : p / 8 = (p - 8) / 8 + 1 := by omega
      have hm : p % 8 = (p - 8) % 8 := by omega
      rw [List.getElem?_append_right (by simpa using hp), binary_length, ih, hq, hm,
        List.getElem?_cons_succ]

/-- The digits of the number that a code's zeros announce. -/
theorem ue_bounds (v : Nat) : 2 ^ (v + 1).log2 ≤ v + 1 ∧ v + 1 < 2 ^ ((v + 1).log2 + 1) :=
  ⟨Nat.log2_self_le (by omega), Nat.lt_log2_self⟩

theorem ue_log_lt {v n : Nat} (h : v + 1 < 2 ^ n) : (v + 1).log2 < n :=
  (Nat.log2_lt (by omega)).mpr h

/-- The value that is coded by `k` zeros, a one and the `k` digits of `x`. -/
theorem ueCode_of_lt {k x : Nat} (h : x < 2 ^ k) :
    ueCode (2 ^ k - 1 + x) = List.replicate k false ++ [true] ++ binary k x := by
  have hpos := Nat.two_pow_pos k
  have hsum : 2 ^ k - 1 + x + 1 = 2 ^ k + x := by omega
  have hlog : (2 ^ k + x).log2 = k := by
    refine (Nat.log2_eq_iff (by omega)).mpr ⟨by omega, ?_⟩
    rw [Nat.pow_succ]
    omega
  rw [ueCode, hsum, hlog, Nat.add_sub_cancel_left]

/-- The value of a code number, as the reader computes it. -/
theorem seNumber_value (x : Int) :
    (if seNumber x % 2 ≠ 0 then ((seNumber x + 1) / 2 : Int) else -(seNumber x / 2)) = x := by
  unfold seNumber
  split <;> split <;> omega

theorem seNumber_le {x : Int} {n : Nat} (h : -n ≤ x ∧ x ≤ n) : seNumber x ≤ 2 * n := by
  unfold seNumber
  split <;> omega

/-- The reader's value is the one that the number codes. -/
theorem seNumber_of_number (k : Nat) :
    seNumber (if k % 2 ≠ 0 then ((k + 1) / 2 : Int) else -(k / 2)) = k := by
  unfold seNumber
  split <;> split <;> omega

end DvrBridge
