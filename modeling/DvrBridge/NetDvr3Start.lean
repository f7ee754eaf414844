import DvrBridge.PyText
import Mathlib.Data.List.GetD

/-! The start-stream packet, and what a device reads of it. -/
namespace DvrBridge.NetDvr3
open PyText

/-- `buf[i : i + len(bs)] = bs` -/
def put (buf : Bytes) (i : Nat) (bs : Bytes) : Bytes :=
  buf.take i ++ bs ++ buf.drop (i + bs.length)

/-- 76-byte start-stream packet; `channel` is 1-based here, 0-indexed on the wire. `none` is the
`ValueError` of a channel out of range. -/
def buildStartStream (user password : Str) (channel : Int) (substream : Bool) : Option Bytes :=
  if 1 ≤ channel ∧ channel ≤ 256 then
    let buf := put (List.replicate 76 0) 0 (be 4 0x48)
    let buf := put buf 8 [0x28, 0, 4, 0, 5, 0, 0, 0, 0x29, 0, 0x38, 0]
    let buf := put buf 20 ((encode user).take 31)
    let buf := put buf 52 ((encode password).take 23)
    let buf := if substream then put buf 72 [0x01] else buf
    some (put buf 73 [UInt8.ofNat ((channel - 1) % 256).toNat])
  else none

/-- What the simulated device makes of a NUL-padded field of the packet. -/
def sessionField (start : Bytes) (i n : Nat) : Str :=
  latin1 (((start.drop i).take n).takeWhile (· ≠ 0))

def sessionUser (start : Bytes) : Str := sessionField start 20 32

def sessionPassword (start : Bytes) : Str := sessionField start 52 20

/-! The fields of the packet. -/

theorem put_append_right (a b bs : Bytes) {i k : Nat} (h : a.length + i = k) :
    put (a ++ b) k bs = a ++ put b i bs := by
  subst h
  rw [put, put, List.take_length_add_append, Nat.add_assoc, List.drop_length_add_append]
  simp only [List.append_assoc]

theorem put_append_left (a b bs : Bytes) {i : Nat} (h : i + bs.length ≤ a.length) :
    put (a ++ b) i bs = put a i bs ++ b := by
  rw [put, put, List.take_append_of_le_length (by omega), List.drop_append_of_le_length h]
  simp only [List.append_assoc]

theorem length_put (buf bs : Bytes) {i : Nat} (h : i + bs.length ≤ buf.length) :
    (put buf i bs).length = buf.length := by
  simp only [put, List.length_append, List.length_take, List.length_drop]
  omega

theorem take_put (buf bs : Bytes) {i n : Nat} (hn : n ≤ i) (hi : i ≤ buf.length) :
    (put buf i bs).take n = buf.take n := by
  have hl : n ≤ (buf.take i).length := by
    rw [List.length_take]
    omega
  rw [put, List.append_assoc, List.take_append_of_le_length hl, List.take_take,
    Nat.min_eq_left hn]

theorem getD_put_self (buf : Bytes) {i : Nat} (b : UInt8) (h : i ≤ buf.length) :
    (put buf i [b]).getD i 0 = b := by
  have hl : (buf.take i).length = i := by
    rw [List.length_take, Nat.min_eq_left h]
  rw [put, List.append_assoc, List.getD_append_right _ _ _ _ (Nat.le_of_eq hl), hl, Nat.sub_self]
  rfl

theorem getD_put_of_lt (buf bs : Bytes) {i j : Nat} (hj : j < i) (hi : i ≤ buf.length) :
    (put buf i bs).getD j 0 = buf.getD j 0 := by
  have hl : j < (buf.take i).length := by
    rw [List.length_take]
    omega
  rw [put, List.append_assoc, List.getD_append _ _ _ _ hl]
  simp [List.getD_eq_getElem?_getD, hj]

/-- A text in a field of `n` bytes. -/
def nulPad (n : Nat) (bs : Bytes) : Bytes := bs ++ List.replicate (n - bs.length) 0

theorem put_zeros (n : Nat) (bs : Bytes) : put (List.replicate n 0) 0 bs = nulPad n bs := by
  simp [put, nulPad]

theorem length_nulPad {n : Nat} {bs : Bytes} (h : bs.length ≤ n) : (nulPad n bs).length = n := by
  rw [nulPad, List.length_append, List.length_replicate]
  omega

theorem takeWhile_nulPad {bs : Bytes} (h : 0 ∉ bs) (n k : Nat) :
    ((nulPad n bs).take k).takeWhile (· ≠ 0) = bs.take k := by
  have hne : ∀ b ∈ bs.take k, decide (b ≠ 0) = true := by
    intro b hb
    refine decide_eq_true fun h0 => ?_
    rw [h0] at hb
    exact h (List.mem_of_mem_take hb)
  have hz : ((List.replicate (n - bs.length) (0 : UInt8)).take (k - bs.length)).takeWhile
      (· ≠ 0) = [] := by
    rw [List.take_replicate]
    cases min (k - bs.length) (n - bs.length) <;> simp [List.replicate_succ]
  rw [nulPad, List.take_append, List.takeWhile_append_of_pos hne, hz, List.append_nil]

/-- The bytes before the credentials. -/
def startHeader : Bytes :=
  [0, 0, 0, 0x48, 0, 0, 0, 0, 0x28, 0, 4, 0, 5, 0, 0, 0, 0x29, 0, 0x38, 0]

/-- The password's field and the two bytes that are written after it. -/
def startTail (password : Str) (channel : Int) (substream : Bool) : Bytes :=
  let field := nulPad 24 ((encode password).take 23)
  put (if substream then put field 20 [0x01] else field) 21
    [UInt8.ofNat ((channel - 1) % 256).toNat]

theorem buildStartStream_eq (user password : Str) {channel : Int}
    (h : 1 ≤ channel ∧ channel ≤ 256) (substream : Bool) :
    buildStartStream user password channel substream =
      some (startHeader ++
        (nulPad 32 ((encode user).take 31) ++ startTail password channel substream)) := by
  have hu : ((encode user).take 31).length ≤ 31 := List.length_take_le ..
  have hp : ((encode password).take 23).length ≤ 23 := List.length_take_le ..
  have hul : (nulPad 32 ((encode user).take 31)).length = 32 := length_nulPad (by omega)
  have hzeros : List.replicate 76 (0 : UInt8) =
      List.replicate 20 0 ++ (List.replicate 32 0 ++ List.replicate 24 0) := by
    simp only [List.replicate_append_replicate]
  have hhead : put (put (List.replicate 76 0) 0 (be 4 0x48)) 8
      [0x28, 0, 4, 0, 5, 0, 0, 0, 0x29, 0, 0x38, 0] =
      startHeader ++ (List.replicate 32 0 ++ List.replicate 24 0) := by
    rw [hzeros, put_append_left _ _ _ (by simp), put_append_left _ _ _ (by
      rw [length_put _ _ (by simp)]
      simp)]
    rfl
  have huser : put (startHeader ++ (List.replicate 32 0 ++ List.replicate 24 0)) 20
      ((encode user).take 31) =
      startHeader ++ (nulPad 32 ((encode user).take 31) ++ List.replicate 24 0) := by
    have hfits : 0 + ((encode user).take 31).length ≤ (List.replicate 32 (0 : UInt8)).length := by
      rw [List.length_replicate]
      omega
    rw [put_append_right (i := 0) (k := 20) _ _ _ rfl, put_append_left _ _ _ hfits, put_zeros]
  -- the writes after the user's field stay behind it
  have hbehind : ∀ (tail bs : Bytes) (i k : Nat), 52 + i = k →
      put (startHeader ++ (nulPad 32 ((encode user).take 31) ++ tail)) k bs =
        startHeader ++ (nulPad 32 ((encode user).take 31) ++ put tail i bs) := by
    intro tail bs i k hk
    rw [put_append_right (i := 32 + i) (k := k) _ _ _ (by simp [startHeader]; omega),
      put_append_right (i := i) (k := 32 + i) _ _ _ (by rw [hul])]
  have hpass := hbehind (List.replicate 24 0) ((encode password).take 23) 0 52 rfl
  rw [put_zeros] at hpass
  rw [buildStartStream, if_pos h]
  simp only [hhead, huser, hpass, startTail]
  cases substream with
  | true => simp only [hbehind _ _ 20 72 rfl, hbehind _ _ 21 73 rfl, if_true]
  | false => simp only [hbehind _ _ 21 73 rfl, if_false, Bool.false_eq_true]

section Read
variable (user password : Str) {channel : Int} (substream : Bool)

theorem length_field : (nulPad 24 ((encode password).take 23)).length = 24 := by
  have : ((encode password).take 23).length ≤ 23 := List.length_take_le ..
  exact length_nulPad (by omega)

theorem length_flagged :
    (if substream then put (nulPad 24 ((encode password).take 23)) 20 [0x01]
      else nulPad 24 ((encode password).take 23)).length = 24 := by
  have hf := length_field password
  cases substream with
  | true => exact (length_put _ _ (by rw [hf]; decide)).trans hf
  | false => exact hf

theorem length_startTail : (startTail password channel substream).length = 24 := by
  have hl := length_flagged password substream
  exact (length_put _ _ (by rw [hl, List.length_singleton]; decide)).trans hl

theorem startTail_channel :
    (startTail password channel substream).getD 21 0 =
      UInt8.ofNat ((channel - 1) % 256).toNat :=
  getD_put_self _ _ (by rw [length_flagged]; decide)

/-- The flag's byte holds the 21st byte of the password when the flag is not written. -/
theorem startTail_flag :
    (startTail password channel substream).getD 20 0 =
      if substream then 1 else (encode password).getD 20 0 := by
  rw [startTail, getD_put_of_lt _ _ (by decide) (by rw [length_flagged]; decide)]
  cases substream with
  | true => exact getD_put_self _ _ (by rw [length_field]; decide)
  | false =>
    simp only [Bool.false_eq_true, if_false, nulPad]
    rcases Nat.lt_or_ge 20 (encode password).length with hl | hl
    · rw [List.getD_append _ _ _ _ (by rw [List.length_take]; omega)]
      simp [List.getD_eq_getElem?_getD]
    · rw [List.getD_append_right _ _ _ _ (by rw [List.length_take]; omega)]
      simp only [List.getD_eq_getElem?_getD, List.getElem?_replicate, List.getElem?_eq_none hl]
      split <;> rfl

theorem startTail_password : (startTail password channel substream).take 20 =
    (nulPad 24 ((encode password).take 23)).take 20 := by
  rw [startTail, take_put _ _ (by decide) (by rw [length_flagged]; decide)]
  cases substream with
  | true => exact take_put _ _ (by decide) (by rw [length_field]; decide)
  | false => rfl

end Read

/-- The packet holds channel and substream flag, and a device reads the credentials back from it
as far as their fields reach. -/
def Delivers (user password : Str) (channel : Int) (substream : Bool) : Prop :=
  ∃ pkt, buildStartStream user password channel substream = some pkt ∧
    pkt.length = 76 ∧
    ((pkt.getD 73 0).toNat : Int) = channel - 1 ∧
    pkt.getD 72 0 = (if substream then 1 else 0) ∧
    sessionUser pkt = latin1 ((encode user).take 31) ∧
    sessionPassword pkt <+: latin1 (encode password) ∧
    ((encode password).length ≤ 20 → sessionPassword pkt = latin1 (encode password))

/-- A password of more than 20 bytes runs into the flag's byte, which only the substream flag
overwrites. -/
theorem delivers_iff (user password : Str) (hu : Char.ofNat 0 ∉ user)
    (hp : Char.ofNat 0 ∉ password) (channel : Int) (hc : 1 ≤ channel ∧ channel ≤ 256)
    (substream : Bool) :
    Delivers user password channel substream ↔
      substream = true ∨ (encode password).length ≤ 20 := by
  have hub : (0 : UInt8) ∉ (encode user).take 31 :=
    fun h => hu (nul_of_mem_encode (List.mem_of_mem_take h))
  have hpb : (0 : UInt8) ∉ (encode password).take 23 :=
    fun h => hp (nul_of_mem_encode (List.mem_of_mem_take h))
  have hul : (nulPad 32 ((encode user).take 31)).length = 32 := by
    have : ((encode user).take 31).length ≤ 31 := List.length_take_le ..
    exact length_nulPad (by omega)
  have hbuild := buildStartStream_eq user password hc substream
  generalize hpkt : startHeader ++
    (nulPad 32 ((encode user).take 31) ++ startTail password channel substream) = pkt at hbuild
  have hdrop : pkt.drop 52 = startTail password channel substream := by
    rw [← hpkt, ← List.append_assoc]
    exact List.drop_left' (by rw [List.length_append, hul]; rfl)
  have hget : ∀ j, pkt.getD (52 + j) 0 = (startTail password channel substream).getD j 0 := by
    intro j
    rw [← hdrop]
    simp [List.getD_eq_getElem?_getD]
  have hlen : pkt.length = 76 := by
    rw [← hpkt, List.length_append, List.length_append, hul, length_startTail]
    rfl
  have hchannel : ((pkt.getD 73 0).toNat : Int) = channel - 1 := by
    rw [hget 21, startTail_channel, UInt8.toNat_ofNat']
    omega
  have hflag : pkt.getD 72 0 = if substream then 1 else (encode password).getD 20 0 :=
    (hget 20).trans (startTail_flag ..)
  have huser : sessionUser pkt = latin1 ((encode user).take 31) := by
    rw [sessionUser, sessionField, ← hpkt, List.drop_left' (by rfl), List.take_left' hul]
    have := takeWhile_nulPad hub 32 32
    rw [List.take_of_length_le (Nat.le_of_eq hul)] at this
    rw [this, List.take_take]
    rfl
  have hpass : sessionPassword pkt = latin1 ((encode password).take 20) := by
    rw [sessionPassword, sessionField, hdrop, startTail_password, takeWhile_nulPad hpb,
      List.take_take]
    rfl
  constructor
  · rintro ⟨pkt', hb, -, -, h72, -⟩
    rw [hbuild, Option.some.injEq] at hb
    subst hb
    cases substream with
    | true => exact .inl rfl
    | false =>
      refine .inr (Nat.not_lt.mp fun hl => ?_)
      simp only [Bool.false_eq_true, if_false] at h72 hflag
      rw [h72, List.getD_eq_getElem _ _ hl] at hflag
      exact hp (nul_of_mem_encode (hflag ▸ List.getElem_mem hl))
  · intro h
    refine ⟨pkt, hbuild, hlen, hchannel, ?_, huser, ?_, ?_⟩
    · rw [hflag]
      rcases h with rfl | hl
      · rfl
      · rw [List.getD_eq_default _ _ hl]
    · rw [hpass]
      exact (List.take_prefix 20 _).map _
    · intro hl
      rw [hpass, List.take_of_length_le hl]

/-- 21 characters without the substream flag. -/
theorem long_password_sets_flag :
    ¬ Delivers "admin".toList "123456789012345678901".toList 1 false := by
  rintro ⟨pkt, hb, -, -, h72, -⟩
  have hflag : (buildStartStream "admin".toList "123456789012345678901".toList 1 false).map
      (·.getD 72 0) = some 0x31 := by decide +kernel
  rw [hb, Option.map_some, h72] at hflag
  revert hflag
  decide

theorem delivers_iff_long :
    Delivers "admin".toList "123456789012345678901".toList 4 true ∧
      (encode "123456789012345678901".toList).length = 21 :=
  ⟨(delivers_iff "admin".toList "123456789012345678901".toList (by decide) (by decide) 4 (by decide)
    true).mpr (.inl rfl), by decide +kernel⟩

end DvrBridge.NetDvr3
