import DvrBridge.FakeDvrPlay
import DvrBridge.FakeDvrStart

/-! The preamble that the simulated device makes up, and what the driver reads of it. -/
namespace DvrBridge.FakeDvr
open H264 NetDvr3 Machine Search

/-- The codec that marks where the size of the picture stands. -/
def h264 : Bytes := [0x48, 0x32, 0x36, 0x34]

/-- Build a preamble with the fields the driver knows how to read. `none` is the `struct.error` of
a size that is no 16-bit number. -/
def synthPreamble (deviceId firmware : Str) (width height : Int) : Option Bytes :=
  if 0 ≤ width ∧ width < 65536 ∧ 0 ≤ height ∧ height < 65536 then
    let pre := put (List.replicate 184 0) 0 (be 4 0x14)
    let pre := put pre 8 [0x28, 0, 4, 0, 3, 0, 7, 0, 0x2a, 0, 4, 0]
    let pre := put pre 0x24 ((PyText.encode deviceId).take 16)
    let pre := put pre 0x54 ((PyText.encode firmware).take 8)
    let pre := put pre 0x7c h264
    some (put pre 0x84 (le 2 width.toNat ++ le 2 height.toNat))
  else none

def zeros (n : Nat) : Bytes := List.replicate n 0

/-- The bytes in front of the device's name. -/
def preambleHead : Bytes :=
  [0, 0, 0, 0x14, 0, 0, 0, 0, 0x28, 0, 4, 0, 3, 0, 7, 0, 0x2a, 0, 4, 0] ++ zeros 16

/-- The marker and the size. -/
def preambleTail (width height : Nat) : Bytes :=
  h264 ++ zeros 4 ++ le 2 width ++ le 2 height ++ zeros 48

theorem synthPreamble_eq {deviceId firmware : Str} {width height : Int} {pre : Bytes}
    (h : synthPreamble deviceId firmware width height = some pre) :
    pre = preambleHead ++ (nulPad 16 ((PyText.encode deviceId).take 16) ++ (zeros 32 ++
      (nulPad 8 ((PyText.encode firmware).take 8) ++ (zeros 32 ++
        preambleTail width.toNat height.toNat)))) := by
  obtain ⟨-, h⟩ := Option.ite_none_right_eq_some.mp h
  rw [Option.some.injEq] at h
  have hhead : put (put (List.replicate 184 0) 0 (be 4 0x14)) 8
      [0x28, 0, 4, 0, 3, 0, 7, 0, 0x2a, 0, 4, 0] =
      preambleHead ++ (zeros 16 ++ (zeros 32 ++ (zeros 8 ++ (zeros 32 ++ zeros 60)))) := by
    decide +kernel
  generalize hid : (PyText.encode deviceId).take 16 = id at h ⊢
  generalize hfw : (PyText.encode firmware).take 8 = fw at h ⊢
  have hidl : id.length ≤ 16 := hid ▸ List.length_take_le ..
  have hfwl : fw.length ≤ 8 := hfw ▸ List.length_take_le ..
  have hz (n : Nat) : (zeros n).length = n := List.length_replicate
  -- a field is written where its zeros are
  have hfield (a rest bs : Bytes) (n k : Nat) (ha : a.length = k) (hl : bs.length ≤ n) :
      put (a ++ (zeros n ++ rest)) k bs = a ++ (nulPad n bs ++ rest) := by
    rw [put_append_right (i := 0) _ _ _ ha, put_append_left _ _ _ (by rw [hz]; omega), zeros,
      put_zeros]
  have hput₁ := hfield preambleHead (zeros 32 ++ (zeros 8 ++ (zeros 32 ++ zeros 60))) id 16 0x24
    (by decide) hidl
  have hput₂ := hfield (preambleHead ++ (nulPad 16 id ++ zeros 32)) (zeros 32 ++ zeros 60) fw 8 0x54
    (by rw [List.length_append, List.length_append, length_nulPad hidl, hz]; rfl) hfwl
  have hlen : (preambleHead ++ (nulPad 16 id ++ (zeros 32 ++ (nulPad 8 fw ++ zeros 32)))).length =
      0x7c := by
    simp only [List.length_append, length_nulPad hidl, length_nulPad hfwl, hz]
    rfl
  have hput₃ (w : Bytes) (hw : w.length = 4) : put (put
      ((preambleHead ++ (nulPad 16 id ++ (zeros 32 ++ (nulPad 8 fw ++ zeros 32)))) ++ zeros 60)
        0x7c h264) 0x84 w =
      (preambleHead ++ (nulPad 16 id ++ (zeros 32 ++ (nulPad 8 fw ++ zeros 32)))) ++
        (h264 ++ zeros 4 ++ w ++ zeros 48) := by
    rw [put_append_right (i := 0) _ _ _ hlen, put_append_right (i := 8) _ _ _ (by rw [hlen])]
    have hmark : put (zeros 60) 0 h264 = (h264 ++ zeros 4) ++ (zeros 4 ++ zeros 48) := by
      decide +kernel
    have hnul : nulPad 4 w = w := by simp [nulPad, hw]
    rw [hmark, hfield _ _ _ _ _ (by decide) (Nat.le_of_eq hw), hnul]
    simp only [List.append_assoc]
  have hsize := hput₃ (le 2 width.toNat ++ le 2 height.toNat) (by simp)
  rw [← h]
  simp only [hhead, hput₁]
  simp only [List.append_assoc] at hput₂ hsize ⊢
  rw [hput₂, hsize, preambleTail]
  simp only [List.append_assoc]

theorem asciiText_plain {n : Nat} {s : Str} (hs : Plain n s) (hne : s ≠ []) {bs : Bytes}
    (hb : bs.takeWhile (· ≠ 0) = PyText.encode s) : asciiText bs = some s := by
  have hascii : ∀ c ∈ s, c.toNat < 128 := fun c hc => (hs.2 c hc).2
  have hback := PyText.latin1_encode hascii
  have hmap : (PyText.encode s).map (fun b => if b < 0x80 then Char.ofNat b.toNat
      else Char.ofNat 0xfffd) = s := by
    conv_rhs => rw [← hback, PyText.latin1]
    refine List.map_congr_left fun b hm => if_pos ?_
    have hlt := hascii (Char.ofNat b.toNat) (hback ▸ List.mem_map_of_mem hm)
    rw [PyText.toNat_ofNat b.toNat_lt] at hlt
    exact UInt8.lt_iff_toNat_lt.mpr hlt
  rw [asciiText, hb]
  split
  · rename_i he
    exact absurd he (PyText.encode_ne_nil hne)
  · rw [hmap]

/-- The fields of a preamble, and what stands where the driver looks for the number of channels. -/
theorem preamble_fields {id fw : Bytes} (hid : id.length ≤ 16) (hfw : fw.length ≤ 8)
    (width height : Nat) {pre : Bytes}
    (h : pre = preambleHead ++ (nulPad 16 id ++ (zeros 32 ++ (nulPad 8 fw ++ (zeros 32 ++
      preambleTail width height))))) :
    pre.length = 184 ∧ pre.getD 0x24 0 = id.getD 0 0 ∧ (pre.drop 0x24).take 0x10 = nulPad 16 id ∧
      (pre.drop 0x54).take 0x10 = nulPad 8 fw ++ zeros 8 ∧ field pre 0x68 4 = 0 ∧
      field pre 0x84 2 = width % 2 ^ 16 ∧ field pre 0x86 2 = height % 2 ^ 16 := by
  have hidl := length_nulPad hid
  have hfwl := length_nulPad hfw
  have hz (n : Nat) : (zeros n).length = n := List.length_replicate
  have hhead : preambleHead.length = 0x24 := by decide
  have hdrop₁ : pre.drop 0x24 = nulPad 16 id ++ (zeros 32 ++ (nulPad 8 fw ++ (zeros 32 ++
      preambleTail width height))) := by
    rw [h, List.drop_left' hhead]
  have hdrop₂ : pre.drop 0x54 = nulPad 8 fw ++ (zeros 32 ++ preambleTail width height) := by
    rw [show 0x54 = 0x24 + 0x30 from rfl, ← List.drop_drop, hdrop₁, ← List.append_assoc,
      List.drop_left' (by rw [List.length_append, hidl, hz])]
  have hdrop₃ : pre.drop 0x5c = zeros 32 ++ preambleTail width height := by
    rw [show 0x5c = 0x54 + 8 from rfl, ← List.drop_drop, hdrop₂, List.drop_left' hfwl]
  have hsize (i k n : Nat) (a b : Bytes)
      (ht : zeros 32 ++ preambleTail width height = a ++ le k n ++ b) (ha : 0x5c + a.length = i) :
      field pre i k = n % 256 ^ k := by
    have hoff : field pre i k = field (zeros 32 ++ preambleTail width height) a.length k := by
      rw [field, field, ← ha, ← List.drop_drop, hdrop₃]
    rw [hoff, ht, field_le _ _ _ _ _ rfl]
  refine ⟨?_, ?_, ?_, ?_, ?_, ?_, ?_⟩
  · rw [h]
    simp only [List.length_append, hidl, hfwl, hz, hhead, preambleTail, le_length]
    rfl
  · have hget : pre.getD 0x24 0 = (pre.drop 0x24).getD 0 0 := by
      simp [List.getD_eq_getElem?_getD]
    rw [hget, hdrop₁]
    cases id with
    | nil => rfl
    | cons b id => rfl
  · rw [hdrop₁, List.take_left' hidl]
  · rw [hdrop₂, List.take_append, hfwl, List.take_of_length_le (by omega)]
    congr 1
  · exact hsize 0x68 4 0 (zeros 12) (zeros 16 ++ preambleTail width height)
      (by rw [show zeros 32 = zeros 12 ++ le 4 0 ++ zeros 16 by decide]; simp) (by rw [hz])
  · exact hsize 0x84 2 width (zeros 32 ++ (h264 ++ zeros 4)) (le 2 height ++ zeros 48)
      (by simp [preambleTail]) (by rw [List.length_append, List.length_append, hz, hz]; rfl)
  · exact hsize 0x86 2 height (zeros 32 ++ (h264 ++ zeros 4 ++ le 2 width)) (zeros 48)
      (by simp [preambleTail])
      (by simp only [List.length_append, hz, le_length]; rfl)

/-- The codec comes first where it marks the size, if neither name holds it. -/
theorem find_h264 {id fw : Bytes} (hid : id.length ≤ 16) (hfw : fw.length ≤ 8)
    (hnid : ¬ h264 <:+: id) (hnfw : ¬ h264 <:+: fw) (width height : Nat) :
    find h264 (preambleHead ++ (nulPad 16 id ++ (zeros 32 ++ (nulPad 8 fw ++ (zeros 32 ++
      preambleTail width height))))) = some 0x7c := by
  have hz0 : (0 : UInt8) ∉ h264 := by decide
  have hnil : ¬ h264 <:+: [] := by decide
  have hzeros (n : Nat) : ¬ h264 <:+: zeros n := by
    have := not_infix_replicate hz0 hnil n
    rwa [List.append_nil] at this
  have hgap (m n : Nat) (hn : 0 < n) : zeros m ++ zeros n = 0 :: zeros (m + n - 1) := by
    rw [zeros, zeros, List.replicate_append_replicate, zeros, ← List.replicate_succ]
    congr 1
    omega
  have hfwz : ¬ h264 <:+: nulPad 8 fw ++ zeros 32 := by
    rw [nulPad, List.append_assoc, ← zeros, hgap _ _ (by decide)]
    exact not_infix_join hz0 hnfw (hzeros _)
  have hall : ¬ h264 <:+:
      preambleHead ++ (nulPad 16 id ++ (zeros 32 ++ (nulPad 8 fw ++ zeros 32))) := by
    have hhead : preambleHead = [0, 0, 0, 0x14, 0, 0, 0, 0, 0x28, 0, 4, 0, 3, 0, 7, 0, 0x2a, 0, 4] ++
        0 :: zeros 16 := by decide
    have hid' : ¬ h264 <:+: nulPad 16 id ++ (zeros 32 ++ (nulPad 8 fw ++ zeros 32)) := by
      rw [nulPad, List.append_assoc, ← zeros, ← List.append_assoc (zeros _), hgap _ _ (by decide),
        List.cons_append]
      exact not_infix_join hz0 hnid (not_infix_replicate hz0 hfwz _)
    have hfront : ¬ h264 <:+: [0, 0, 0, 0x14, 0, 0, 0, 0, 0x28, 0, 4, 0, 3, 0, 7, 0, 0x2a, 0, 4] := by
      decide
    rw [hhead, List.append_assoc, List.cons_append]
    exact not_infix_join hz0 hfront (not_infix_replicate hz0 hid' _)
  have hlen : (preambleHead ++ (nulPad 16 id ++ (zeros 32 ++ (nulPad 8 fw ++ zeros 32)))).length =
      0x7c := by
    simp only [List.length_append, length_nulPad hid, length_nulPad hfw, zeros,
      List.length_replicate]
    rfl
  have hub : Unbordered h264 := by decide
  have hfind := hub.find_append ((find_eq_none_iff_absent ..).mpr hall)
    (zeros 4 ++ le 2 width ++ le 2 height ++ zeros 48)
  rw [hlen] at hfind
  simpa [preambleTail] using hfind

/-- The driver reads the made-up fields back: names that fit, and a size that it believes. -/
theorem parsePreamble_synthPreamble {info : StreamInfo} {deviceId firmware : Str}
    {width height : Int} {pre : Bytes}
    (hpre : synthPreamble deviceId firmware width height = some pre)
    (hid : Plain 16 deviceId) (hfw : Plain 8 firmware) (hne : firmware ≠ [])
    (halnum : isAlnum ((PyText.encode deviceId).getD 0 0) = true)
    (hmark : ¬ h264 <:+: PyText.encode deviceId ∧ ¬ h264 <:+: PyText.encode firmware) :
    parsePreamble info pre =
      if 64 ≤ width ∧ width ≤ 4096 ∧ 64 ≤ height ∧ height ≤ 4096 then
        { info with
          deviceId := some deviceId, firmware := some firmware, width := some width.toNat,
          height := some height.toNat }
      else { info with deviceId := some deviceId, firmware := some firmware } := by
  have hlen {n : Nat} {t : Str} (ht : Plain n t) : (PyText.encode t).length ≤ n := by
    rw [PyText.length_encode_of_ascii fun c hc => (ht.2 c hc).2]
    exact ht.1
  have hnul {n : Nat} {t : Str} (ht : Plain n t) : ∀ b ∈ PyText.encode t, decide (b ≠ 0) = true := by
    intro b hb
    refine decide_eq_true fun h0 => ?_
    have := (ht.2 _ (PyText.nul_of_mem_encode (h0 ▸ hb))).1
    cases this
  have hzeros (n : Nat) : (zeros n).takeWhile (· ≠ 0) = [] := by
    cases n <;> simp [zeros, List.replicate_succ]
  have hdid : deviceId ≠ [] := by
    rintro rfl
    revert halnum
    decide
  have heq := synthPreamble_eq hpre
  rw [List.take_of_length_le (hlen hid), List.take_of_length_le (hlen hfw)] at heq
  obtain ⟨hl, hfirst, hdev, hfirm, hnch, hw, hh⟩ := preamble_fields (hlen hid) (hlen hfw) _ _ heq
  have hfind : find [0x48, 0x32, 0x36, 0x34] pre = some 0x7c :=
    heq ▸ find_h264 (hlen hid) (hlen hfw) hmark.1 hmark.2 width.toNat height.toNat
  have hread {n m : Nat} {t : Str} (ht : Plain n t) (htne : t ≠ []) :
      asciiText (nulPad n (PyText.encode t) ++ zeros m) = some t := by
    refine asciiText_plain ht htne ?_
    rw [nulPad, ← zeros, List.append_assoc, List.takeWhile_append_of_pos (hnul ht),
      List.takeWhile_append, hzeros, hzeros]
    split
    · rename_i h
      rw [List.eq_nil_of_length_eq_zero h.symm]
      simp
    · simp
  have hreadId : asciiText (nulPad 16 (PyText.encode deviceId)) = some deviceId := by
    have := hread (m := 0) hid hdid
    rwa [zeros, List.replicate_zero, List.append_nil] at this
  obtain ⟨hrange, -⟩ := Option.ite_none_right_eq_some.mp hpre
  have hwidth : width.toNat % 2 ^ 16 = width.toNat := Nat.mod_eq_of_lt (by omega)
  have hheight : height.toNat % 2 ^ 16 = height.toNat := Nat.mod_eq_of_lt (by omega)
  rw [hwidth] at hw
  rw [hheight] at hh
  have hbounds : (64 ≤ width.toNat ∧ width.toNat ≤ 4096 ∧ 64 ≤ height.toNat ∧ height.toNat ≤ 4096) ↔
      64 ≤ width ∧ width ≤ 4096 ∧ 64 ≤ height ∧ height ≤ 4096 := by omega
  simp only [parsePreamble, hl, hfirst, halnum, hdev, hreadId, hfirm, hread hfw hne, hfind, hw, hh,
    hnch, hbounds, Nat.reduceAdd, Nat.reduceLeDiff, true_and, and_true, if_true, if_false]

/-! What the driver knows of the device while it reads. -/

/-- The driver has read the preamble once it is past it. -/
structure Informed (pre : Bytes) (p : Parser) (h : List ParserOutput) : Prop where
  start : p.pc = .preamble → p.info = {} ∧ h = []
  past : p.pc ≠ .preamble → p.pc ≠ .raised → p.info = parsePreamble {} pre
  shown : ∀ f, .frame f ∈ h → p.info = parsePreamble {} pre

theorem Informed.step {pre : Bytes} {p q : Parser} {i : ParserInput} {h o : List ParserOutput}
    (hp : Informed pre p h) (hs : p.step i = some (q, o))
    (hfound : p.pc = .preamble → ∀ k, find magic p.buf = some k → 4 ≤ k → p.buf.take (k - 4) = pre) :
    Informed pre q (h ++ o) := by
  have hst := Parser.stepped hs
  -- past the preamble nothing changes the metadata
  have hpast (hpc : p.pc ≠ .preamble) (hpr : p.pc ≠ .raised) (hq : q.pc ≠ .preamble)
      (hinfo : q.info = p.info) : Informed pre q (h ++ o) := by
    have hk := hinfo.trans (hp.past hpc hpr)
    exact ⟨fun h => absurd h hq, fun _ _ => hk, fun _ _ => hk⟩
  generalize hpc : p.pc = pc at hst
  cases hst with
  | found k hk h4 =>
    obtain ⟨hinfo, rfl⟩ := hp.start hpc
    have htake : parsePreamble p.info (p.buf.take (k - 4)) = parsePreamble {} pre := by
      rw [hinfo, hfound hpc k hk h4]
    exact ⟨by simp, fun _ _ => htake, by simp⟩
  | preambleRead chunk =>
    obtain ⟨hinfo, rfl⟩ := hp.start hpc
    exact ⟨fun _ => ⟨hinfo, rfl⟩, fun hne => absurd rfl hne, by simp⟩
  | notFound | preambleFails =>
    obtain ⟨-, rfl⟩ := hp.start hpc
    exact ⟨by simp, fun _ hne => absurd rfl hne, by simp⟩
  | headerRead | headerFails | badHeader | parsed | bodyRead | bodyFails | framed | lied | scanFound
  | scanSkip | scanNone | scanRead | scanFails | scanEnd =>
    exact hpast (by simp [hpc]) (by simp [hpc]) (by simp) rfl

/-- Where the first magic is found the preamble stands in front of its header. -/
theorem preamble_of_plays (d : FakeDvr) {pkt : Bytes} {s : Dialogue} {h : List ParserOutput}
    (hp : d.Plays pkt s h) (hf : d.Framed) (hpc : s.feed.parser.pc = .preamble) {k : Nat}
    (hk : find magic s.feed.parser.buf = some k) : s.feed.parser.buf.take (k - 4) = d.preamble := by
  cases hp with
  | before _ _ _ hbuf =>
    rw [hbuf] at hk
    cases hk
  | during _ _ hr =>
    cases hr with
    | preamble _ hb _ =>
      have hstart : find magic (d.preamble ++ (d.script.written 0).bytes.take 8) =
          some (d.preamble.length + 4) := by
        rw [d.take_first]
        exact hf.start
      rw [Reached.find_buf (Nat.zero_le _) hstart hb] at hk
      obtain ⟨hl, hk⟩ := Option.ite_none_right_eq_some.mp hk
      cases hk
      have ht := congrArg (List.take d.preamble.length) hb
      rw [List.take_append_of_le_length (by omega)] at ht
      rw [Nat.add_sub_cancel, ht]
      exact List.take_left
    | header _ _ h | body _ _ h | raised _ _ h => simp [h] at hpc
    | skip _ _ _ h => simp [h] at hpc
    | scan _ _ _ _ _ h => rcases h with h | h <;> simp [h] at hpc

theorem run_informed (d : FakeDvr) (hf : d.Framed) {pkt : Bytes} {is : List DialogueInput}
    {s : Dialogue} {out : List ParserOutput} (hr : run (d.dialogue pkt) {} is = some (s, out))
    (hg : d.script.Readable s.sim.sent) : Informed d.preamble s.feed.parser out := by
  refine run_invariant (Q := fun c h _ _ _ => d.script.Readable c.sim.sent → d.Plays pkt c h)
    (fun s h => d.script.Readable s.sim.sent → Informed d.preamble s.feed.parser h) ?_ ?_
    (fun p i q _ c h c' o hp _ hg => (d.run_plays hp hg).1) hr hg
  · exact fun _ => ⟨fun _ => ⟨rfl, rfl⟩, fun h => absurd rfl h, by simp⟩
  · rintro c h i c' o hc hs hplays hg
    cases i with
    | sim i =>
      obtain ⟨r, hi, he⟩ := Option.map_eq_some_iff.mp hs
      cases he
      rw [List.append_nil]
      exact hc (hg.mono (d.sent_mono hi))
    | feed a =>
      obtain ⟨-, hs⟩ := Option.ite_none_left_eq_some.mp hs
      obtain ⟨r, hf', he⟩ := Option.map_eq_some_iff.mp hs
      cases he
      exact (hc hg).step (Feed.step_input hf').1 fun hpc k hk _ =>
        d.preamble_of_plays (hplays hg) hf hpc hk
    | timeout =>
      obtain ⟨r, hq, he⟩ := Option.map_eq_some_iff.mp hs
      cases he
      exact (hc hg).step hq fun hpc k hk _ => d.preamble_of_plays (hplays hg) hf hpc hk

/-- Whoever sees a frame of the simulated device knows the device: the metadata are those that its
preamble was made of. -/
theorem dialogue_info (d : FakeDvr) (hf : d.Framed) (hclear : ∀ k, d.junk k = [])
    (deviceId firmware : Str) (width height : Int)
    (hpre : synthPreamble deviceId firmware width height = some d.preamble)
    (hid : Plain 16 deviceId) (hfw : Plain 8 firmware) (hne : firmware ≠ [])
    (halnum : isAlnum ((PyText.encode deviceId).getD 0 0) = true)
    (hmark : ¬ h264 <:+: PyText.encode deviceId ∧ ¬ h264 <:+: PyText.encode firmware)
    (pkt : Bytes) (is : List DialogueInput) (s : Dialogue) (out : List ParserOutput)
    (hr : run (d.dialogue pkt) {} is = some (s, out)) (f : VideoFrame) (hm : .frame f ∈ out) :
    s.feed.parser.info =
      if 64 ≤ width ∧ width ≤ 4096 ∧ 64 ≤ height ∧ height ≤ 4096 then
        { deviceId := some deviceId, firmware := some firmware, width := some width.toNat,
          height := some height.toNat }
      else { deviceId := some deviceId, firmware := some firmware } := by
  rw [(d.run_informed hf hr (d.readable_of_clear hf hclear _)).shown f hm]
  exact parsePreamble_synthPreamble hpre hid hfw hne halnum hmark

/-- The recording of two units behind the default preamble. -/
def defaultPreamble : Bytes :=
  (synthPreamble "FAKEDVR000000001".toList "V000000".toList 352 288).getD []

def named : FakeDvr := { twoUnits with preamble := defaultPreamble }

def namedRun : List DialogueInput :=
  [.sim .start, .feed (.bytes 220), .feed .go, .feed .go, .sim .next, .feed (.bytes 8), .feed .go]

theorem named_framed : named.Framed := ⟨by decide +kernel, by decide +kernel, by decide +kernel⟩

theorem named_run : ((run (named.dialogue twoUnitsStart) {} namedRun).map (·.2)) =
    some [.frame (named.video 0)] := by
  decide +kernel

theorem dialogue_info_named : ∃ s,
    run (named.dialogue twoUnitsStart) {} namedRun = some (s, [.frame (named.video 0)]) ∧
      s.feed.parser.info =
        { deviceId := some "FAKEDVR000000001".toList, firmware := some "V000000".toList,
          width := some 352, height := some 288 } := by
  obtain ⟨⟨s, out⟩, hr, ho⟩ := Option.map_eq_some_iff.mp named_run
  have hpre : synthPreamble "FAKEDVR000000001".toList "V000000".toList 352 288 =
      some named.preamble := by decide +kernel
  have hinfo := dialogue_info named named_framed (fun _ => rfl) "FAKEDVR000000001".toList
    "V000000".toList 352 288 hpre (by decide +kernel) (by decide +kernel) (by decide)
    (by decide +kernel)
    ⟨by decide +kernel, by decide +kernel⟩ twoUnitsStart namedRun s out hr
    (named.video 0) (by rw [show out = [.frame (named.video 0)] from ho]; simp)
  refine ⟨s, by rw [hr, show out = [.frame (named.video 0)] from ho], hinfo.trans ?_⟩
  rw [if_pos (by decide)]
  rfl

end DvrBridge.FakeDvr
