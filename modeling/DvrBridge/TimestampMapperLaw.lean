import DvrBridge.TimestampMapper

/-! Runs of `map` calls on one mapper: how far each result is ahead of the one before. -/
namespace DvrBridge.TimestampMapper

/-- The time stamps of a run of calls, at the times `now` of the clock, each with its result. -/
def mapAll (m : TimestampMapper) : List (Option Int × ℚ) → List (Option Int × Nat)
  | [] => []
  | (tsMs, now) :: calls => (tsMs, (m.map tsMs now).rtp) :: (m.map tsMs now).mapAll calls

/-- Both stamps are there, and the device's 32-bit clock shows the same at both. -/
def SameInstant : Option Int → Option Int → Prop
  | some last, some ts => ts % 2 ^ 32 = last % 2 ^ 32
  | _, _ => False

/-- From one call to the next. -/
structure Advances (a b : Option Int × Nat) : Prop where
  le : ahead a.2 b.2 ≤ 450000
  same : ahead a.2 b.2 = 0 → SameInstant a.1 b.1
  ge : ¬ SameInstant a.1 b.1 → 90 ≤ ahead a.2 b.2
  device : ∀ last ts, a.1 = some last → b.1 = some ts → (ts - last) % 2 ^ 32 ≤ 5000 →
    (ahead a.2 b.2 : Int) = 90 * ((ts - last) % 2 ^ 32)

theorem sameInstant_iff (last ts : Int) :
    SameInstant (some last) (some ts) ↔ (ts - last) % 2 ^ 32 = 0 :=
  Int.emod_eq_emod_iff_emod_sub_eq_zero

theorem deviceDelta_nonneg (ts last : Int) : 0 ≤ deviceDelta ts last := by
  unfold deviceDelta
  exact_mod_cast Int.emod_nonneg _ (by decide)

theorem ahead_map_eq (m : TimestampMapper) (tsMs : Option Int) (now : ℚ) :
    ahead m.rtp (m.map tsMs now).rtp = m.advance tsMs now := by
  have h := m.advance_le tsMs now
  rw [map_rtp, ahead_add _ _ m.rtp_lt, Nat.mod_eq_of_lt (by omega)]

theorem one_le_wallDelta {m : TimestampMapper} (now : ℚ) (hw : m.lastWall ≠ none) :
    1 ≤ m.wallDelta now := by
  unfold wallDelta
  split
  · contradiction
  · exact le_min (le_max_right _ _) (by norm_num)

/-- Only a repeated stamp stands still. -/
theorem one_le_deltaMs {m : TimestampMapper} {tsMs : Option Int} (now : ℚ)
    (hw : m.lastWall ≠ none) (hs : ¬ SameInstant m.lastMs tsMs) : 1 ≤ m.deltaMs tsMs now := by
  unfold deltaMs
  split
  · rename_i ts last hlast
    rw [hlast, sameInstant_iff] at hs
    by_cases hd : 0 ≤ deviceDelta ts last ∧ deviceDelta ts last ≤ 5000
    · have hpos : 0 < deviceDelta ts last := by
        apply lt_of_le_of_ne hd.1
        intro h0
        unfold deviceDelta at h0
        exact hs (by exact_mod_cast h0.symm)
      simp only [hd, and_self, not_true_eq_false, if_false]
      exact deviceDelta_pos_ge_one ts last hpos
    · simp only [hd, not_false_eq_true, if_true]
      exact m.typical_range.1
  · exact one_le_wallDelta now hw

theorem ge_advance {m : TimestampMapper} {tsMs : Option Int} (now : ℚ)
    (hw : m.lastWall ≠ none) (hs : ¬ SameInstant m.lastMs tsMs) : 90 ≤ m.advance tsMs now := by
  have h := one_le_deltaMs now hw hs
  have hf : (90 : Int) ≤ ⌊m.deltaMs tsMs now * 90⌋ := by
    apply Int.le_floor.mpr
    push_cast
    linarith
  unfold advance
  omega

/-- A plausible distance of the device's clock is taken over as it is. -/
theorem advance_device {m : TimestampMapper} {ts last : Int} (now : ℚ)
    (hl : m.lastMs = some last) (hd : (ts - last) % 2 ^ 32 ≤ 5000) :
    (m.advance (some ts) now : Int) = 90 * ((ts - last) % 2 ^ 32) := by
  have hnonneg : 0 ≤ (ts - last) % 2 ^ 32 := Int.emod_nonneg _ (by decide)
  have hle : deviceDelta ts last ≤ 5000 := by
    unfold deviceDelta
    exact_mod_cast hd
  have hdelta : m.deltaMs (some ts) now = (((ts - last) % 2 ^ 32 : Int) : ℚ) := by
    simp only [deltaMs, hl, deviceDelta_nonneg, hle, and_self, not_true_eq_false, if_false]
    rfl
  rw [advance, hdelta]
  generalize (ts - last) % 2 ^ 32 = d at hnonneg
  have hfloor : ⌊(d : ℚ) * 90⌋ = d * 90 := by
    rw [← Int.floor_intCast (R := ℚ) (d * 90)]
    push_cast
    rfl
  rw [hfloor, Int.toNat_of_nonneg (by omega), Int.mul_comm]

theorem advances_map {m : TimestampMapper} (tsMs : Option Int) (now : ℚ)
    (hw : m.lastWall ≠ none) : Advances (m.lastMs, m.rtp) (tsMs, (m.map tsMs now).rtp) where
  le := m.ahead_map tsMs now
  same h := by
    by_contra hs
    have hge := ge_advance now hw hs
    rw [← m.ahead_map_eq tsMs now, h] at hge
    contradiction
  ge hs := by
    rw [ahead_map_eq]
    exact ge_advance now hw hs
  device last ts hl ht hd := by
    cases ht
    rw [ahead_map_eq]
    exact advance_device now hl hd

/-- A mapper that has been called goes on from its last stamp and result. -/
theorem isChain_mapAll_cons {m : TimestampMapper} (calls : List (Option Int × ℚ))
    (hw : m.lastWall ≠ none) : ((m.lastMs, m.rtp) :: m.mapAll calls).IsChain Advances := by
  induction calls generalizing m with
  | nil => exact .singleton _
  | cons call calls ih =>
    apply List.IsChain.cons_cons
    · exact advances_map call.1 call.2 hw
    · exact ih (m := m.map call.1 call.2) (by simp [map])

/-- On one mapper every result is ahead of the one before by at most 5 s; by nothing only for one
instant of the device's clock, else by at least 1 ms; and exactly by the device's distance when
that is plausible. -/
theorem isChain_mapAll (calls : List (Option Int × ℚ)) :
    (({} : TimestampMapper).mapAll calls).IsChain Advances := by
  cases calls with
  | nil => exact .nil
  | cons call calls =>
    exact isChain_mapAll_cons (m := ({} : TimestampMapper).map call.1 call.2) calls (by simp [map])

end DvrBridge.TimestampMapper
