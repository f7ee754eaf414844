import DvrBridge.H264
import DvrBridge.RtpPacketizer

/-! The receiver of RTP packets: single NAL units and FU-A fragments back to access units. -/
namespace DvrBridge

structure RtpPacket where
  marker : Bool
  pt : UInt8
  seq : Nat
  ts : Nat
  ssrc : Nat
  payload : Bytes

/-- `parse_rtp`, which does not look at the extension bit. -/
def readRtp : Bytes → Option RtpPacket
  | b1 :: b2 :: rest =>
    if 10 ≤ rest.length ∧ b1 >>> 6 = 2 ∧ b1 &&& 0x20 = 0 ∧ b1 &&& 0x0F = 0 then
      some
        { marker := decide (b2 &&& 0x80 ≠ 0)
          pt := b2 &&& 0x7F
          seq := readBe (rest.take 2)
          ts := readBe ((rest.drop 2).take 4)
          ssrc := readBe ((rest.drop 6).take 4)
          payload := rest.drop 10 }
    else none
  | _ => none

/-- The fragments of an open NAL, the NALs of the open access unit and the finished units. -/
structure Depacketizer where
  fu : Option Bytes := none
  nals : List Bytes := []
  units : List (List Bytes) := []
  deriving DecidableEq

namespace Depacketizer

def feedPayload (d : Depacketizer) : Bytes → Option Depacketizer
  | [] => none
  | indicator :: rest =>
    if indicator &&& 0x1F = fuA then
      match rest with
      | [] => none
      | fuHdr :: data =>
        let fu := if fuHdr &&& 0x80 ≠ 0 then some [indicator &&& 0xE0 ||| (fuHdr &&& 0x1F)] else d.fu
        fu.map fun fu =>
          if fuHdr &&& 0x40 ≠ 0 then { d with fu := none, nals := d.nals ++ [fu ++ data] }
          else { d with fu := some (fu ++ data) }
    else some { d with nals := d.nals ++ [indicator :: rest] }

/-- The marker ends an access unit. -/
def close (d : Depacketizer) (marker : Bool) : Depacketizer :=
  if marker then { d with nals := [], units := d.units ++ [d.nals] } else d

def feed (d : Depacketizer) (packet : Bytes) : Option Depacketizer :=
  (readRtp packet).bind fun p => (d.feedPayload p.payload).map (·.close p.marker)

def feedAll : Depacketizer → List Bytes → Option Depacketizer
  | d, [] => some d
  | d, packet :: packets => (d.feed packet).bind (·.feedAll packets)

/-- The same on payloads with their markers. -/
def feedPayloads : Depacketizer → List (Bytes × Bool) → Option Depacketizer
  | d, [] => some d
  | d, (payload, marker) :: rest =>
    ((d.feedPayload payload).map (·.close marker)).bind (·.feedPayloads rest)

theorem feedAll_append (d : Depacketizer) (ps qs : List Bytes) :
    d.feedAll (ps ++ qs) = (d.feedAll ps).bind (·.feedAll qs) := by
  induction ps generalizing d with
  | nil => rfl
  | cons p ps ih =>
    simp only [List.cons_append, feedAll, ih, Option.bind_assoc]

theorem feedPayloads_append (d : Depacketizer) (ps qs : List (Bytes × Bool)) :
    d.feedPayloads (ps ++ qs) = (d.feedPayloads ps).bind (·.feedPayloads qs) := by
  induction ps generalizing d with
  | nil => rfl
  | cons p ps ih =>
    obtain ⟨payload, marker⟩ := p
    simp only [List.cons_append, feedPayloads, ih, Option.bind_assoc]

end Depacketizer

namespace Packetizer
open Depacketizer

/-- What the last ten bytes of a header are read as. -/
theorem header_fields (seq ts ssrc : Nat) (payload : Bytes) :
    10 ≤ (be 2 seq ++ (be 4 ts ++ (be 4 ssrc ++ payload))).length ∧
      readBe ((be 2 seq ++ (be 4 ts ++ (be 4 ssrc ++ payload))).take 2) = seq % 2 ^ 16 ∧
      readBe (((be 2 seq ++ (be 4 ts ++ (be 4 ssrc ++ payload))).drop 2).take 4) = ts % 2 ^ 32 ∧
      readBe (((be 2 seq ++ (be 4 ts ++ (be 4 ssrc ++ payload))).drop 6).take 4) =
        ssrc % 2 ^ 32 ∧
      (be 2 seq ++ (be 4 ts ++ (be 4 ssrc ++ payload))).drop 10 = payload := by
  have h6 (l : Bytes) : l.drop 6 = (l.drop 2).drop 4 := by rw [List.drop_drop]
  have h10 (l : Bytes) : l.drop 10 = ((l.drop 2).drop 4).drop 4 := by
    rw [List.drop_drop, List.drop_drop]
  refine ⟨?_, ?_, ?_, ?_, ?_⟩
  · simp only [List.length_append, be_length]
    omega
  · rw [take_be, readBe_be]
    rfl
  · rw [drop_be, take_be, readBe_be]
    rfl
  · rw [h6, drop_be, drop_be, take_be, readBe_be]
    rfl
  · rw [h10, drop_be, drop_be, drop_be]

/-- A receiver reads the header that `_header` writes. -/
theorem readRtp_header (p : Packetizer) (marker : Bool) (ts : Nat) (payload : Bytes) :
    readRtp (p.header marker ts ++ payload) =
      some ⟨decide (((if marker then 0x80 else 0) ||| p.pt) &&& 0x80 ≠ 0),
        ((if marker then 0x80 else 0) ||| p.pt) &&& 0x7F, p.seq % 2 ^ 16, ts % 2 ^ 32,
        p.ssrc % 2 ^ 32, payload⟩ := by
  have hver : UInt8.ofNat (rtpVersion <<< 6) = 0x80 := by decide
  have hbits : (0x80 : UInt8) >>> 6 = 2 ∧ (0x80 : UInt8) &&& 0x20 = 0 ∧
      (0x80 : UInt8) &&& 0x0F = 0 := by decide
  obtain ⟨hlen, hseq, hts, hssrc, hrest⟩ := header_fields p.seq ts p.ssrc payload
  simp only [header, List.append_assoc, List.cons_append, List.nil_append, readRtp, hver,
    if_pos (And.intro hlen hbits), hseq, hts, hssrc, hrest]

/-- A payload type has seven bits, so it leaves the marker as it is. -/
theorem marker_bit (marker : Bool) {pt : UInt8} (hpt : pt &&& 0x80 = 0) :
    decide (((if marker then 0x80 else 0) ||| pt) &&& 0x80 ≠ 0) = marker := by
  have hbyte : ∀ b : UInt8, b &&& 0x80 = 0 →
      decide (((if marker then 0x80 else 0) ||| b) &&& 0x80 ≠ 0) = marker := by
    cases marker <;> exact forall_byte (by decide +kernel)
  exact hbyte pt hpt

@[simp] theorem emit_pt (p : Packetizer) (payload : Bytes) (marker : Bool) (ts : Nat) :
    (p.emit payload marker ts).1.pt = p.pt := rfl

theorem feedAll_emitAll (p : Packetizer) (d : Depacketizer) (ts : Nat) (ps : List (Bytes × Bool))
    (hpt : p.pt &&& 0x80 = 0) : d.feedAll (p.emitAll ts ps).2 = d.feedPayloads ps := by
  induction ps generalizing p d with
  | nil => rfl
  | cons pm ps ih =>
    obtain ⟨payload, marker⟩ := pm
    have hfeed : d.feed (p.emit payload marker ts).2 =
        (d.feedPayload payload).map (·.close marker) := by
      simp only [feed, emit, readRtp_header, Option.bind_some, marker_bit marker hpt]
    simp only [emitAll, feedAll, feedPayloads, hfeed]
    congr 1
    funext d'
    exact ih _ d' hpt

/-- The bytes of a fragment give the NAL header back and say where the fragment lies. -/
theorem fu_bytes (start fin : Bool) : ∀ b : UInt8,
    (b &&& 0xE0 ||| fuA) &&& 0x1F = fuA ∧
    (b &&& 0xE0 ||| fuA) &&& 0xE0 ||| (((if start then 0x80 else 0) ||| (if fin then 0x40 else 0) |||
      (b &&& 0x1F)) &&& 0x1F) = b ∧
    (((if start then 0x80 else 0) ||| (if fin then 0x40 else 0) ||| (b &&& 0x1F)) &&& 0x80 ≠ 0 ↔
      start = true) ∧
    (((if start then 0x80 else 0) ||| (if fin then 0x40 else 0) ||| (b &&& 0x1F)) &&& 0x40 ≠ 0 ↔
      fin = true) := by
  cases start <;> cases fin <;> exact forall_byte (by decide +kernel)

theorem feedPayload_fragment (d : Depacketizer) (b : UInt8) (start fin : Bool) (data : Bytes) :
    d.feedPayload ([b &&& 0xE0 ||| fuA,
        (if start then 0x80 else 0) ||| (if fin then 0x40 else 0) ||| (b &&& 0x1F)] ++ data) =
      (if start then some [b] else d.fu).map fun fu =>
        if fin then { d with fu := none, nals := d.nals ++ [fu ++ data] }
        else { d with fu := some (fu ++ data) } := by
  obtain ⟨hty, hb, hs, hf⟩ := fu_bytes start fin b
  simp only [feedPayload, List.cons_append, List.nil_append, if_pos hty, hb, hs, hf]

/-- The receiver in the middle of a NAL, after `k` of its fragments. -/
def opened (d : Depacketizer) (b : UInt8) (body : Bytes) (chunk k : Nat) : Depacketizer :=
  { d with fu := if k = 0 then none else some (b :: body.take (k * chunk)) }

/-- The number of fragments. -/
theorem fragment_count {len chunk k : Nat} (hc : 0 < chunk) :
    (len + chunk - 1) / chunk ≤ k + 1 ↔ len ≤ k * chunk + chunk := by
  have h := Nat.div_lt_iff_lt_mul (x := len + chunk - 1) (y := k + 2) hc
  have hm : (k + 2) * chunk = k * chunk + chunk + chunk := by
    rw [Nat.succ_mul, Nat.succ_mul]
  omega

section fragments
variable {mtu : Nat} (lastNal : Bool) (b : UInt8) (body : Bytes) {d : Depacketizer}

/-- One more fragment, the last one or not. -/
theorem feedPayload_opened (hm : 3 ≤ mtu) (k : Nat) :
    (opened d b body (mtu - 2) k).feedPayload (fragment mtu lastNal b body (k * (mtu - 2))).1 =
      some (if body.length ≤ k * (mtu - 2) + (mtu - 2) then
          { d with fu := none, nals := d.nals ++ [b :: body] }
        else opened d b body (mtu - 2) (k + 1)) := by
  have hstart : decide (k * (mtu - 2) = 0) = decide (k = 0) := by
    simp only [Nat.mul_eq_zero, decide_eq_decide]
    omega
  have hfu : (if decide (k = 0) = true then some [b] else (opened d b body (mtu - 2) k).fu) =
      some (b :: body.take (k * (mtu - 2))) := by
    cases k with
    | zero => simp
    | succ k => simp [opened]
  have htake : b :: body.take (k * (mtu - 2)) ++ (body.drop (k * (mtu - 2))).take (mtu - 2) =
      b :: body.take (k * (mtu - 2) + (mtu - 2)) := by
    rw [List.take_add, List.cons_append]
  rw [fragment, feedPayload_fragment, hstart, hfu, Option.map_some, htake]
  congr 1
  by_cases hl : body.length ≤ k * (mtu - 2) + (mtu - 2)
  · simp only [hl, decide_true, if_true, List.take_of_length_le hl]
    rfl
  · rw [if_neg hl, if_neg (by simp [hl]), opened, opened, if_neg (Nat.succ_ne_zero k), Nat.succ_mul]

/-- All but the last fragment. -/
theorem feedPayloads_opened (hm : 3 ≤ mtu) (hd : d.fu = none) (k : Nat)
    (hk : k < (body.length + (mtu - 2) - 1) / (mtu - 2)) :
    d.feedPayloads ((List.range k).map fun i => fragment mtu lastNal b body (i * (mtu - 2))) =
      some (opened d b body (mtu - 2) k) := by
  induction k with
  | zero =>
    rw [opened, if_pos rfl, ← hd]
    rfl
  | succ k ih =>
    have hmore : ¬ body.length ≤ k * (mtu - 2) + (mtu - 2) := by
      rw [← fragment_count (by omega)]
      omega
    rw [List.range_succ, List.map_append, feedPayloads_append, ih (by omega), Option.bind_some]
    simp only [List.map_cons, List.map_nil, feedPayloads, feedPayload_opened lastNal b body hm,
      if_neg hmore]
    simp only [fragment, hmore, decide_false, Bool.and_false, Option.map_some, Option.bind_some]
    rfl

/-- The fragments of a NAL give it back. -/
theorem feedPayloads_fragments (hm : 3 ≤ mtu) (hb : body ≠ []) (hd : d.fu = none) :
    d.feedPayloads (fragments mtu lastNal (b :: body)) =
      some (({ d with nals := d.nals ++ [b :: body] } : Depacketizer).close lastNal) := by
  have hlen := List.length_pos_iff.mpr hb
  have hpos : 0 < (body.length + (mtu - 2) - 1) / (mtu - 2) := Nat.div_pos (by omega) (by omega)
  obtain ⟨k, hk⟩ := Nat.exists_eq_succ_of_ne_zero (Nat.ne_of_gt hpos)
  have hlast : body.length ≤ k * (mtu - 2) + (mtu - 2) :=
    (fragment_count (by omega)).mp (Nat.le_of_eq hk)
  have hopen := feedPayloads_opened lastNal b body hm hd k (by omega)
  rw [fragments, offsets, List.map_map, hk, List.range_succ, List.map_append, feedPayloads_append]
  simp only [Function.comp_def]
  rw [hopen, Option.bind_some]
  simp only [List.map_cons, List.map_nil, feedPayloads, feedPayload_opened lastNal b body hm,
    if_pos hlast, Option.map_some, Option.bind_some]
  simp only [fragment, hlast, decide_true, Bool.and_true]
  rw [← hd]

end fragments

/-- A NAL that a receiver can tell from a fragment. -/
def Sendable (nal : Bytes) : Prop := nal ≠ [] ∧ H264.nalType nal ≠ 28

theorem feedPayloads_nalPayloads {mtu : Nat} {d : Depacketizer} {nal : Bytes} (hm : 3 ≤ mtu)
    (lastNal : Bool) (hn : Sendable nal) (hd : d.fu = none) :
    d.feedPayloads (nalPayloads mtu lastNal nal) =
      some (({ d with nals := d.nals ++ [nal] } : Depacketizer).close lastNal) := by
  obtain ⟨hne, ht⟩ := hn
  cases nal with
  | nil => exact absurd rfl hne
  | cons b body =>
    rw [nalPayloads, if_neg hne]
    split
    · have hsingle : ¬ b &&& 0x1F = fuA := by
        intro hb
        rw [H264.nalType, hb] at ht
        exact ht rfl
      simp only [feedPayloads, feedPayload, if_neg hsingle, Option.map_some, Option.bind_some]
    · rename_i hlen
      have hbody : body ≠ [] := by
        rintro rfl
        simp only [List.length_singleton] at hlen
        omega
      exact feedPayloads_fragments lastNal b body hm hbody hd

/-- An access unit comes back whole, ended by its marker. -/
theorem feedPayloads_payloads {mtu : Nat} {d : Depacketizer} {nals : List Bytes} (hm : 3 ≤ mtu)
    (hn : ∀ n ∈ nals, Sendable n) (hne : nals ≠ []) (hd : d.fu = none) :
    d.feedPayloads (payloads mtu nals) =
      some { d with nals := [], units := d.units ++ [d.nals ++ nals] } := by
  induction nals generalizing d with
  | nil => exact absurd rfl hne
  | cons nal nals ih =>
    have hfirst := feedPayloads_nalPayloads hm (decide (nals = [])) (hn nal (List.mem_cons_self ..)) hd
    rw [payloads, feedPayloads_append, hfirst, Option.bind_some]
    by_cases hr : nals = []
    · subst hr
      rfl
    · have hrest := fun n h => hn n (List.mem_cons_of_mem nal h)
      simp only [hr, decide_false, close, Bool.false_eq_true, if_false]
      rw [ih (d := { d with nals := d.nals ++ [nal] }) hrest hr hd, List.append_assoc,
        List.singleton_append]

/-- Packetizing an access unit and receiving its packets gives it back. -/
theorem feedAll_packetize {p : Packetizer} {d : Depacketizer} {nals : List Bytes} (ts90k : Nat)
    (hm : 3 ≤ p.mtu) (hpt : p.pt &&& 0x80 = 0) (hn : ∀ n ∈ nals, Sendable n) (hne : nals ≠ [])
    (hd : d.fu = none) :
    d.feedAll (p.packetize nals ts90k).2 =
      some { d with nals := [], units := d.units ++ [d.nals ++ nals] } := by
  rw [packetize, feedAll_emitAll p d ts90k _ hpt, feedPayloads_payloads hm hn hne hd]

end Packetizer
end DvrBridge
