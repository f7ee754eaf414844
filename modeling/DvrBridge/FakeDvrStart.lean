import DvrBridge.FakeDvr

/-! Which start packets of the driver the simulated device answers. -/
namespace DvrBridge.NetDvr3
open PyText

/-- A text that a device reads back from a field of `n` bytes. -/
def ReadsBack (n : Nat) (s : Str) : Prop :=
  latin1 (((PyText.encode s).take n).takeWhile (· ≠ 0)) = s

/-- ASCII without NUL that leaves room in the field, or fills it. -/
def Plain (n : Nat) (s : Str) : Prop := s.length ≤ n ∧ ∀ c ∈ s, 0 < c.toNat ∧ c.toNat < 128

instance (n : Nat) (s : Str) : Decidable (Plain n s) :=
  decidable_of_iff (s.length ≤ n ∧ s.all (fun c => decide (0 < c.toNat ∧ c.toNat < 128)) = true)
    (by simp [Plain])

/-- Plain texts are read back; others never are, unless they have as many characters as their field
has bytes. -/
theorem readsBack_plain (n : Nat) (s : Str) :
    (Plain n s → ReadsBack n s) ∧ (ReadsBack n s → Plain n s ∨ s.length = n) := by
  constructor
  · rintro ⟨hl, hc⟩
    have hascii : ∀ c ∈ s, c.toNat < 128 := fun c hm => (hc c hm).2
    have hnul : ∀ b ∈ PyText.encode s, decide (b ≠ 0) = true := by
      intro b hb
      refine decide_eq_true fun h0 => ?_
      have := (hc _ (nul_of_mem_encode (h0 ▸ hb))).1
      cases this
    rw [ReadsBack, List.take_of_length_le (by rw [length_encode_of_ascii hascii]; exact hl),
      List.takeWhile_eq_self_iff.mpr hnul, latin1_encode hascii]
  · intro h
    by_cases hn : s.length = n
    · exact .inr hn
    refine .inl ?_
    have hlen := congrArg List.length h
    rw [latin1, List.length_map] at hlen
    have hle : (((PyText.encode s).take n).takeWhile (· ≠ 0)).length ≤
        ((PyText.encode s).take n).length := (List.takeWhile_prefix _).length_le
    rw [List.length_take] at hle
    -- no character that is read is NUL
    have hnul : ∀ c ∈ s, 0 < c.toNat := by
      intro c hc
      rw [← h, latin1, List.mem_map] at hc
      obtain ⟨b, hb, rfl⟩ := hc
      have hb0 : b ≠ 0 := by simpa using List.mem_takeWhile_imp hb
      have hne : b.toNat ≠ 0 := fun h0 => hb0 (UInt8.toNat_inj.mp h0)
      rw [toNat_ofNat (by have := b.toNat_lt; omega)]
      omega
    have hall : ((PyText.encode s).take n).takeWhile (· ≠ 0) = (PyText.encode s).take n := by
      refine List.takeWhile_eq_self_iff.mpr fun b hb => decide_eq_true fun h0 => ?_
      have := hnul _ (nul_of_mem_encode (h0 ▸ List.mem_of_mem_take hb))
      cases this
    rw [hall, List.length_take] at hlen
    obtain ⟨hs, hascii⟩ := length_le_encode s
    have heq : (PyText.encode s).length = s.length := by omega
    exact ⟨by omega, fun c hc => ⟨hnul c hc, hascii heq c hc⟩⟩

theorem takeWhile_take_nulPad (bs : Bytes) (n k : Nat) :
    ((nulPad n bs).take k).takeWhile (· ≠ 0) = (bs.take k).takeWhile (· ≠ 0) := by
  have hz : ((List.replicate (n - bs.length) (0 : UInt8)).take (k - bs.length)).takeWhile
      (· ≠ 0) = [] := by
    rw [List.take_replicate]
    cases min (k - bs.length) (n - bs.length) <;> simp [List.replicate_succ]
  rw [nulPad, List.take_append, List.takeWhile_append, hz, List.append_nil]
  split
  · rename_i hl
    exact ((List.takeWhile_prefix _).eq_of_length hl).symm
  · rfl

/-- What a device reads of the driver's packet, whatever the credentials are. -/
theorem start_fields {user password : Str} {channel : Int} {substream : Bool} {pkt : Bytes}
    (h : buildStartStream user password channel substream = some pkt) :
    pkt.length = 76 ∧ pkt.take 4 = be 4 0x48 ∧ ((pkt.getD 73 0).toNat : Int) = channel - 1 ∧
      sessionUser pkt = latin1 (((PyText.encode user).take 31).takeWhile (· ≠ 0)) ∧
      sessionPassword pkt = latin1 (((PyText.encode password).take 20).takeWhile (· ≠ 0)) := by
  have hc : 1 ≤ channel ∧ channel ≤ 256 := by
    by_contra hc
    rw [buildStartStream, if_neg hc] at h
    cases h
  have hu : ((PyText.encode user).take 31).length ≤ 32 := by
    have := List.length_take_le 31 (PyText.encode user)
    omega
  have hul := length_nulPad hu
  rw [buildStartStream_eq user password hc substream, Option.some.injEq] at h
  have hdrop : pkt.drop 52 = startTail password channel substream := by
    rw [← h, ← List.append_assoc]
    exact List.drop_left' (by rw [List.length_append, hul]; rfl)
  refine ⟨?_, ?_, ?_, ?_, ?_⟩
  · rw [← h, List.length_append, List.length_append, hul, length_startTail]
    rfl
  · rw [← h, List.take_append_of_le_length (by decide)]
    rfl
  · have hget : pkt.getD 73 0 = (pkt.drop 52).getD 21 0 := by
      simp [List.getD_eq_getElem?_getD]
    rw [hget, hdrop, startTail_channel, UInt8.toNat_ofNat']
    omega
  · rw [sessionUser, sessionField, ← h, List.drop_left' (by rfl), List.take_left' hul]
    have := takeWhile_take_nulPad ((PyText.encode user).take 31) 32 32
    rw [List.take_of_length_le (Nat.le_of_eq hul)] at this
    rw [this, List.take_take]
    rfl
  · rw [sessionPassword, sessionField, hdrop, startTail_password, takeWhile_take_nulPad,
      List.take_take]
    rfl

end DvrBridge.NetDvr3

namespace DvrBridge.FakeDvr
open NetDvr3 PyText

theorem answers_iff (d : FakeDvr) {user password : Str} {channel : Int} {substream : Bool}
    {pkt : Bytes} (h : buildStartStream user password channel substream = some pkt) :
    d.answers pkt = true ↔ channel ≤ d.channels ∧ (d.rejectCredentials = true →
      latin1 (((PyText.encode user).take 31).takeWhile (· ≠ 0)) = d.username ∧
      latin1 (((PyText.encode password).take 20).takeWhile (· ≠ 0)) = d.password) := by
  obtain ⟨-, hmagic, hchannel, huser, hpass⟩ := start_fields h
  rw [← huser, ← hpass, answers, hmagic, hchannel, badCredentials]
  simp only [Bool.and_eq_true, decide_eq_true_eq, true_and, Bool.not_eq_true', Bool.and_eq_false_iff,
    Bool.or_eq_false_iff, decide_eq_false_iff_not, not_not]
  constructor
  · rintro ⟨hcred, hc⟩
    refine ⟨by omega, fun hr => hcred.resolve_left (by simp [hr])⟩
  · rintro ⟨hc, hcred⟩
    refine ⟨?_, by omega⟩
    cases hr : d.rejectCredentials with
    | false => exact .inl rfl
    | true => exact .inr (hcred hr)

/-- A device that knows the driver's own credentials answers it, on the channels that it has, if
they are plain, and only then unless one of them has exactly as many characters as its field has
bytes. -/
theorem answers_own_credentials (d : FakeDvr) (hrej : d.rejectCredentials = true) (channel : Int)
    (substream : Bool) (pkt : Bytes)
    (h : buildStartStream d.username d.password channel substream = some pkt) :
    (channel ≤ d.channels ∧ Plain 31 d.username ∧ Plain 20 d.password →
      d.answers pkt = true) ∧
    (d.answers pkt = true → channel ≤ d.channels ∧
      (Plain 31 d.username ∨ d.username.length = 31) ∧
      (Plain 20 d.password ∨ d.password.length = 20)) := by
  rw [d.answers_iff h]
  constructor
  · rintro ⟨hc, hu, hp⟩
    exact ⟨hc, fun _ => ⟨(readsBack_plain _ _).1 hu, (readsBack_plain _ _).1 hp⟩⟩
  · rintro ⟨hc, hcred⟩
    obtain ⟨hu, hp⟩ := hcred hrej
    exact ⟨hc, (readsBack_plain _ _).2 hu, (readsBack_plain _ _).2 hp⟩

/-- The device goes on to its preamble and the first frame. -/
theorem answers_own_credentials_admin :
    ∃ pkt, buildStartStream "admin".toList "secret".toList 4 false = some pkt ∧
      twoUnits.answers pkt = true ∧
      ∃ s o, twoUnits.step pkt {} .start = some (s, twoUnits.preamble ++ o) ∧ s.sent = 1 := by
  have hchannel : 1 ≤ (4 : Int) ∧ (4 : Int) ≤ 256 := by decide
  have hbuild := buildStartStream_eq "admin".toList "secret".toList hchannel false
  have ha := (answers_own_credentials twoUnits rfl 4 false _ hbuild).1
    ⟨by decide, by decide +kernel, by decide +kernel⟩
  refine ⟨_, hbuild, ha, (twoUnits.goOn {} twoUnits.aus).1, (twoUnits.goOn {} twoUnits.aus).2, ?_,
    by decide +kernel⟩
  rw [step, if_pos ⟨rfl, (start_fields hbuild).1⟩, receive_eq, if_pos ha]

end DvrBridge.FakeDvr
