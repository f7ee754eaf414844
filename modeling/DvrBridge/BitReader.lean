import DvrBridge.ExpGolomb
import DvrBridge.Reads
import Mathlib.Tactic.Ring

/-! The bit reader of the SPS parser. -/
namespace DvrBridge.H264

inductive ReadError where
  /-- beyond the last byte -/
  | indexError
  | valueError (text : String)
  deriving DecidableEq

structure BitReader where
  data : Bytes
  pos : Nat := 0

abbrev Read := StateT BitReader (Except ReadError)

namespace BitReader

def bit : Read Nat := fun r =>
  match r.data[r.pos >>> 3]? with
  | none => .error .indexError
  | some byte =>
    .ok ((byte.toNat >>> (7 - (r.pos &&& 7))) &&& 1, { r with pos := r.pos + 1 })

/-- The loop of `bits`, with `v` read so far. -/
def bitsFrom : Nat → Nat → Read Nat
  | v, 0 => pure v
  | v, n + 1 => do
    let b ← bit
    bitsFrom ((v <<< 1) ||| b) n

def bits (n : Nat) : Read Nat := bitsFrom 0 n

/-- The loop of `ue` over the zeros; `allowed` more may come. -/
def zerosFrom : Nat → Nat → Read Nat
  | 0, _ => throw (.valueError "invalid exp-golomb")
  | allowed + 1, zeros => do
    if (← bit) = 0 then zerosFrom allowed (zeros + 1) else pure zeros

def ue : Read Nat := do
  let zeros ← zerosFrom 32 0
  let rest ← if zeros ≠ 0 then bits zeros else pure 0
  pure ((1 <<< zeros) - 1 + rest)

def se : Read Int := do
  let k ← ue
  pure (if k % 2 ≠ 0 then (k + 1) / 2 else -(k / 2))

/-- The bits that are left. -/
def left (r : BitReader) : List Bool := (bitsOf r.data).drop r.pos

theorem reads_bit (b : Bool) : Reads left bit [b] b.toNat := by
  intro r rest h
  have hbit : (bitsOf r.data)[r.pos]? = some b := by
    have h0 := congrArg (·[0]?) h
    simpa [left, List.getElem?_drop] using h0
  obtain ⟨byte, hbyte, hb⟩ :=
    Option.map_eq_some_iff.mp ((bitsOf_getElem? r.data r.pos).symm.trans hbit)
  refine ⟨{ r with pos := r.pos + 1 }, ?_, ?_⟩
  · have h3 : r.pos >>> 3 = r.pos / 8 := Nat.shiftRight_eq_div_pow r.pos 3
    have h7 : r.pos &&& 7 = r.pos % 8 := Nat.and_two_pow_sub_one_eq_mod r.pos 3
    simp only [bit, h3, h7, hbyte, Except.ok.injEq, Prod.mk.injEq, and_true]
    rw [← hb, Nat.testBit, Nat.and_comm]
    have hlt : 1 &&& byte.toNat >>> (7 - r.pos % 8) < 2 := by
      rw [Nat.one_and_eq_mod_two]
      omega
    rcases (by omega : 1 &&& byte.toNat >>> (7 - r.pos % 8) = 0 ∨
      1 &&& byte.toNat >>> (7 - r.pos % 8) = 1) with h01 | h01
    · rw [h01]
      rfl
    · rw [h01]
      rfl
  · have htail := congrArg List.tail h
    simpa [left] using htail

theorem reads_bitsFrom (v n x : Nat) :
    Reads left (bitsFrom v n) (binary n x) (v * 2 ^ n + x % 2 ^ n) := by
  induction n generalizing v with
  | zero =>
    have h : Reads left (bitsFrom v 0) [] v := Reads.pure v
    simpa [binary, Nat.mod_one] using h
  | succ n ih =>
    have hacc : (v <<< 1) ||| (x.testBit n).toNat = 2 * v + (x.testBit n).toNat := by
      rw [← Nat.shiftLeft_add_eq_or_of_lt (Bool.toNat_lt _), Nat.shiftLeft_eq]
      omega
    have h := (reads_bit (x.testBit n)).bind (f := fun b => bitsFrom ((v <<< 1) ||| b) n)
      (ih ((v <<< 1) ||| (x.testBit n).toNat))
    have hval : (2 * v + (x.testBit n).toNat) * 2 ^ n + x % 2 ^ n =
        v * 2 ^ (n + 1) + x % 2 ^ (n + 1) := by
      rw [Nat.pow_succ, Nat.mod_mul, Nat.toNat_testBit]
      ring
    rw [hacc, hval] at h
    exact h

theorem reads_bits {n x : Nat} (h : x < 2 ^ n) : Reads left (bits n) (binary n x) x := by
  have h' := reads_bitsFrom 0 n x
  rwa [Nat.zero_mul, Nat.zero_add, Nat.mod_eq_of_lt h] at h'

/-- The zeros of a code are counted up to the one that ends them. -/
theorem reads_zerosFrom {allowed k : Nat} (zeros : Nat) (h : k < allowed) :
    Reads left (zerosFrom allowed zeros) (List.replicate k false ++ [true]) (zeros + k) := by
  induction k generalizing allowed zeros with
  | zero =>
    obtain ⟨allowed, rfl⟩ : ∃ m, allowed = m + 1 := ⟨allowed - 1, by omega⟩
    exact (reads_bit true).bind
      (f := fun b => if b = 0 then zerosFrom allowed (zeros + 1) else pure zeros) (Reads.pure zeros)
  | succ k ih =>
    obtain ⟨allowed, rfl⟩ : ∃ m, allowed = m + 1 := ⟨allowed - 1, by omega⟩
    have hrest := ih (zeros + 1) (Nat.lt_of_succ_lt_succ h)
    rw [Nat.add_right_comm] at hrest
    exact (reads_bit false).bind
      (f := fun b => if b = 0 then zerosFrom allowed (zeros + 1) else pure zeros) hrest

/-- `ue` inverts the Exp-Golomb code of every value up to 2³² - 2. -/
theorem reads_ue {v : Nat} (h : v ≤ 2 ^ 32 - 2) : Reads left ue (ueCode v) v := by
  have hlog : (v + 1).log2 < 32 := ue_log_lt (by omega)
  obtain ⟨hlo, hhi⟩ := ue_bounds v
  rw [Nat.pow_succ] at hhi
  have hz := reads_zerosFrom 0 hlog
  rw [Nat.zero_add] at hz
  refine hz.bind ?_
  have hval : 1 <<< (v + 1).log2 - 1 + (v + 1 - 2 ^ (v + 1).log2) = v := by
    rw [Nat.one_shiftLeft]
    omega
  by_cases h0 : (v + 1).log2 = 0
  · have hv : v = 0 := by
      rw [h0] at hhi
      omega
    subst hv
    exact Reads.pure 0
  · have hb := (reads_bits (x := v + 1 - 2 ^ (v + 1).log2) (n := (v + 1).log2) (by omega)).map
      fun rest => 1 <<< (v + 1).log2 - 1 + rest
    rw [hval] at hb
    simpa [h0] using hb

theorem reads_se {x : Int} (h : -(2 ^ 31 - 1) ≤ x ∧ x ≤ 2 ^ 31 - 1) :
    Reads left se (seCode x) x := by
  have hle : seNumber x ≤ 2 ^ 32 - 2 := seNumber_le (n := 2 ^ 31 - 1) h
  have hr := (reads_ue hle).map fun k : Nat =>
    (if k % 2 ≠ 0 then ((k + 1) / 2 : Int) else -(k / 2))
  rwa [seNumber_value] at hr

/-! What a successful reader has consumed. -/

theorem parses_bit : Parses left bit (fun b : Bool => [b]) Bool.toNat := by
  intro r a r' h
  cases hbyte : r.data[r.pos >>> 3]? with
  | none => simp [bit, hbyte] at h
  | some byte =>
    have h3 : r.pos >>> 3 = r.pos / 8 := Nat.shiftRight_eq_div_pow r.pos 3
    rw [h3] at hbyte
    have hbit : (bitsOf r.data)[r.pos]? = some (byte.toNat.testBit (7 - r.pos % 8)) := by
      rw [bitsOf_getElem?, hbyte]
      rfl
    have hleft : left r = [byte.toNat.testBit (7 - r.pos % 8)] ++
        (bitsOf r.data).drop (r.pos + 1) := by
      obtain ⟨hlt, hget⟩ := List.getElem?_eq_some_iff.mp hbit
      rw [left, List.drop_eq_getElem_cons hlt, hget, List.singleton_append]
    obtain ⟨t, ht, htl⟩ := reads_bit _ r _ hleft
    rw [ht] at h
    cases h
    exact ⟨_, rfl, by rw [hleft, htl]⟩

theorem parses_bitsFrom (v n : Nat) :
    Parses left (bitsFrom v n) (fun x : Fin (2 ^ n) => binary n x) fun x => v * 2 ^ n + x := by
  induction n generalizing v with
  | zero =>
    refine (Parses.pure v).reindex fun _ => ⟨0, ?_, rfl⟩
    exact Nat.mul_one v
  | succ n ih =>
    refine (parses_bit.bind fun b => ih ((v <<< 1) ||| b.toNat)).reindex ?_
    rintro ⟨b, x⟩
    have hb : b.toNat ≤ 1 := Bool.toNat_le b
    have hlt : 2 ^ n * b.toNat + x < 2 ^ (n + 1) := by
      have hx := x.isLt
      have hmul := Nat.mul_le_mul_left (2 ^ n) hb
      rw [Nat.pow_succ]
      omega
    refine ⟨⟨2 ^ n * b.toNat + x, hlt⟩, ?_, binary_cons b x.isLt⟩
    change v * 2 ^ (n + 1) + (2 ^ n * b.toNat + x) = (v <<< 1 ||| b.toNat) * 2 ^ n + x
    rw [← Nat.shiftLeft_add_eq_or_of_lt (Bool.toNat_lt _), Nat.shiftLeft_eq]
    ring

theorem parses_bits (n : Nat) :
    Parses left (bits n) (fun x : Fin (2 ^ n) => binary n x) fun x => x.val :=
  (parses_bitsFrom 0 n).reindex fun x => ⟨x, by rw [Nat.zero_mul, Nat.zero_add], rfl⟩

theorem parses_zerosFrom (allowed zeros : Nat) :
    Parses left (zerosFrom allowed zeros) (fun k : Fin allowed => List.replicate k false ++ [true])
      fun k => zeros + k := by
  induction allowed generalizing zeros with
  | zero => exact fun _ _ _ h => nomatch h
  | succ allowed ih =>
    intro r a r' h
    rw [zerosFrom] at h
    obtain ⟨b, t, hb, hrest⟩ := bind_eq_ok_iff.mp h
    obtain ⟨b, rfl, hleft⟩ := parses_bit r b t hb
    cases b with
    | true =>
      obtain ⟨ha, ht⟩ := pure_eq_ok_iff.mp hrest
      exact ⟨0, ha, by rw [hleft, ht]; rfl⟩
    | false =>
      obtain ⟨k, ha, ht⟩ := ih (zeros + 1) t a r' hrest
      refine ⟨k.succ, ?_, ?_⟩
      · rw [← ha]
        exact (Nat.add_right_comm zeros 1 k).symm
      · rw [hleft, ht]
        rfl

end BitReader
end DvrBridge.H264
