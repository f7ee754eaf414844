import Mathlib.Data.Rat.Floor
import Mathlib.Tactic.Linarith
import Mathlib.Tactic.NormNum

/-! The map from device milliseconds to the 90 kHz timeline of one driver connection.
Float arithmetic is taken as exact rational arithmetic. -/
namespace DvrBridge

theorem typical_initial : (1 : ℚ) ≤ 100 ∧ (100 : ℚ) ≤ 5000 := by norm_num

/-- The running average stays a plausible frame distance and the timeline a 32-bit counter. -/
structure TimestampMapper where
  lastMs : Option Int := none
  lastWall : Option ℚ := none
  typicalMs : ℚ := 100
  rtp : Nat := 0
  typical_range : 1 ≤ typicalMs ∧ typicalMs ≤ 5000 := by exact typical_initial
  rtp_lt : rtp < 2 ^ 32 := by exact Nat.two_pow_pos 32

namespace TimestampMapper

/-- Milliseconds of the fallback clock since the last call. -/
def wallDelta (m : TimestampMapper) (now : ℚ) : ℚ :=
  match m.lastWall with
  | none => 0
  | some wall => min (max ((now - wall) * 1000) 1) 5000

/-- `float((ts_ms - self._last_ms) & 0xFFFFFFFF)` -/
def deviceDelta (ts last : Int) : ℚ := ((ts - last) % 2 ^ 32 : Int)

def deltaMs (m : TimestampMapper) (tsMs : Option Int) (now : ℚ) : ℚ :=
  match tsMs, m.lastMs with
  | some ts, some last =>
    let d := deviceDelta ts last
    -- reconnect jump or backwards glitch
    if ¬ (0 ≤ d ∧ d ≤ 5000) then m.typicalMs else d
  | _, _ => m.wallDelta now

def nextTypical (m : TimestampMapper) (tsMs : Option Int) : ℚ :=
  match tsMs, m.lastMs with
  | some ts, some last =>
    let d := deviceDelta ts last
    -- 0 is the same capture instant: keep
    if 0 ≤ d ∧ d ≤ 5000 ∧ 0 < d then 9 / 10 * m.typicalMs + 1 / 10 * d else m.typicalMs
  | _, _ => m.typicalMs

/-- `int(delta_ms * 90)` -/
def advance (m : TimestampMapper) (tsMs : Option Int) (now : ℚ) : Nat :=
  ⌊m.deltaMs tsMs now * 90⌋.toNat

theorem wallDelta_range (m : TimestampMapper) (now : ℚ) :
    0 ≤ m.wallDelta now ∧ m.wallDelta now ≤ 5000 := by
  unfold wallDelta
  split
  · norm_num
  · rename_i wall _
    have h1 : (1 : ℚ) ≤ max ((now - wall) * 1000) 1 := le_max_right _ _
    exact ⟨le_min (by linarith) (by norm_num), min_le_right _ _⟩

theorem deltaMs_range (m : TimestampMapper) (tsMs : Option Int) (now : ℚ) :
    0 ≤ m.deltaMs tsMs now ∧ m.deltaMs tsMs now ≤ 5000 := by
  unfold deltaMs
  split
  · rename_i ts last _
    by_cases h : 0 ≤ deviceDelta ts last ∧ deviceDelta ts last ≤ 5000
    · simp only [h, not_true_eq_false, if_false, and_self]
    · simp only [h, not_false_eq_true, if_true]
      exact ⟨by linarith [m.typical_range.1], m.typical_range.2⟩
  · exact m.wallDelta_range now

theorem deviceDelta_pos_ge_one (ts last : Int) (h : 0 < deviceDelta ts last) :
    1 ≤ deviceDelta ts last := by
  unfold deviceDelta at *
  exact_mod_cast h

theorem nextTypical_range (m : TimestampMapper) (tsMs : Option Int) :
    1 ≤ m.nextTypical tsMs ∧ m.nextTypical tsMs ≤ 5000 := by
  have ht := m.typical_range
  unfold nextTypical
  split
  · rename_i ts last _
    by_cases h : 0 ≤ deviceDelta ts last ∧ deviceDelta ts last ≤ 5000 ∧ 0 < deviceDelta ts last
    · have h1 := deviceDelta_pos_ge_one ts last h.2.2
      simp only [h, and_self, if_true]
      constructor <;> linarith [h.2.1, ht.1, ht.2]
    · simp only [h, if_false]
      exact ht
  · exact ht

/-- `map`: the mapper afterwards; its `rtp` is the value returned. -/
def map (m : TimestampMapper) (tsMs : Option Int) (now : ℚ) : TimestampMapper where
  lastMs := tsMs
  lastWall := some now
  typicalMs := m.nextTypical tsMs
  rtp := (m.rtp + m.advance tsMs now) % 2 ^ 32
  typical_range := m.nextTypical_range tsMs
  rtp_lt := Nat.mod_lt _ (by norm_num)

theorem map_rtp (m : TimestampMapper) (tsMs : Option Int) (now : ℚ) :
    (m.map tsMs now).rtp = (m.rtp + m.advance tsMs now) % 2 ^ 32 := rfl

/-- No single call moves the timeline by more than 5 s. -/
theorem advance_le (m : TimestampMapper) (tsMs : Option Int) (now : ℚ) :
    m.advance tsMs now ≤ 450000 := by
  unfold advance
  have h := (m.deltaMs_range tsMs now).2
  have hf : ⌊m.deltaMs tsMs now * 90⌋ ≤ 450000 := by
    have : m.deltaMs tsMs now * 90 ≤ 450000 := by linarith
    exact_mod_cast Int.floor_le_floor this |>.trans (by norm_num)
  omega

/-- How far `b` is ahead of `a` on the 32-bit timeline. -/
def ahead (a b : Nat) : Nat := (b + 2 ^ 32 - a) % 2 ^ 32

theorem ahead_add (a n : Nat) (ha : a < 2 ^ 32) : ahead a ((a + n) % 2 ^ 32) = n % 2 ^ 32 := by
  unfold ahead
  omega

theorem ahead_add_right (a b n : Nat) (ha : a < 2 ^ 32) :
    ahead a ((b + n) % 2 ^ 32) = (ahead a b + n) % 2 ^ 32 := by
  unfold ahead
  omega

/-- A call puts the timeline ahead of where it stood by the clamped step. -/
theorem ahead_map (m : TimestampMapper) (tsMs : Option Int) (now : ℚ) :
    ahead m.rtp (m.map tsMs now).rtp ≤ 450000 := by
  have h := m.advance_le tsMs now
  rw [map_rtp, ahead_add _ _ m.rtp_lt, Nat.mod_eq_of_lt (by omega)]
  exact h

end TimestampMapper
end DvrBridge
