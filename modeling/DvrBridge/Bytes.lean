import Mathlib.Algebra.Group.Nat.Defs
import Mathlib.Tactic.Common

/-! Byte strings and fixed-width integers in both byte orders. -/
namespace DvrBridge

abbrev Bytes := List UInt8

/-- Little endian, truncated to `k` bytes. -/
def le : Nat → Nat → Bytes
  | 0, _ => []
  | k + 1, n => UInt8.ofNat n :: le k (n / 256)

def readLe : Bytes → Nat
  | [] => 0
  | b :: bs => b.toNat + 256 * readLe bs

def be (k n : Nat) : Bytes := (le k n).reverse

def readBe (bs : Bytes) : Nat := readLe bs.reverse

@[simp] theorem le_length (k n : Nat) : (le k n).length = k := by
  induction k generalizing n with
  | zero => rfl
  | succ k ih => simp [le, ih]

@[simp] theorem be_length (k n : Nat) : (be k n).length = k := by
  simp [be]

theorem readLe_le (k n : Nat) : readLe (le k n) = n % 256 ^ k := by
  induction k generalizing n with
  | zero => simp [le, readLe, Nat.mod_one]
  | succ k ih =>
    have h := Nat.mod_mul (x := n) (a := 256) (b := 256 ^ k)
    simp only [le, readLe, ih, UInt8.toNat_ofNat', Nat.pow_succ, Nat.mul_comm (256 ^ k) 256, h]

theorem readLe_lt (bs : Bytes) : readLe bs < 256 ^ bs.length := by
  induction bs with
  | nil => simp [readLe]
  | cons b bs ih =>
    have := b.toNat_lt
    rw [readLe, List.length_cons, Nat.pow_succ]
    omega

theorem readBe_be (k n : Nat) : readBe (be k n) = n % 256 ^ k := by
  simp [readBe, be, readLe_le]

theorem le_readLe (bs : Bytes) : le bs.length (readLe bs) = bs := by
  induction bs with
  | nil => rfl
  | cons b bs ih =>
    have hb := b.toNat_lt
    have hdiv : readLe (b :: bs) / 256 = readLe bs := by
      rw [readLe]
      omega
    have hmod : UInt8.ofNat (readLe (b :: bs)) = b := by
      refine UInt8.toNat_inj.mp ?_
      rw [UInt8.toNat_ofNat', readLe]
      omega
    rw [List.length_cons, le, hdiv, hmod, ih]

theorem be_readBe (bs : Bytes) : be bs.length (readBe bs) = bs := by
  rw [be, readBe, ← List.length_reverse, le_readLe, List.reverse_reverse]

theorem take_be (k n : Nat) (rest : Bytes) : (be k n ++ rest).take k = be k n :=
  List.take_left' (be_length k n)

theorem drop_be (k n : Nat) (rest : Bytes) : (be k n ++ rest).drop k = rest :=
  List.drop_left' (be_length k n)

/-- A property of bytes is checked on their bit patterns. -/
theorem forall_byte {P : UInt8 → Prop} (h : ∀ v : BitVec 8, P (.ofBitVec v)) (b : UInt8) : P b :=
  h b.toBitVec

end DvrBridge
