import DvrBridge.RtpDepacketizer
import Mathlib.Algebra.Ring.Int.Defs
import Mathlib.Data.List.Forall2

/-! Runs of `packetize` calls: what the receiver of the tests reads, and what it puts together. -/
namespace DvrBridge

/-- The loop of `depacketize`. -/
def depacketizeFrom (d : Depacketizer) : List Bytes → Option Depacketizer
  | [] => some d
  | pkt :: packets =>
    (readRtp pkt).bind fun p => (d.feedPayload p.payload).bind (depacketizeFrom · packets)

/-- `none` where an assertion of `depacketize` fails. -/
def depacketize (packets : List Bytes) : Option (List Bytes) :=
  (depacketizeFrom {} packets).bind fun d => if d.fu = none then some d.nals else none

/-- The start and end bits of a FU-A payload. -/
def fuBits : Bytes → Option (Bool × Bool)
  | indicator :: fuHdr :: _ =>
    if indicator &&& 0x1F = fuA then
      some (decide (fuHdr &&& 0x80 ≠ 0), decide (fuHdr &&& 0x40 ≠ 0))
    else none
  | _ => none

/-- The payloads of one NAL: itself, or fragments of which the first alone has the start bit and
the last, another one, alone has the end bit. -/
inductive CarriedBy (mtu : Nat) (nal : Bytes) : List Bytes → Prop
  | single : nal.length ≤ mtu → CarriedBy mtu nal [nal]
  | fragmented {first last : Bytes} {middle : List Bytes} : mtu < nal.length →
      fuBits first = some (true, false) → (∀ f ∈ middle, fuBits f = some (false, false)) →
      fuBits last = some (false, true) → CarriedBy mtu nal (first :: (middle ++ [last]))

namespace Packetizer

/-- `ts90k & 0xFFFFFFFF` -/
def mask32 (ts90k : Int) : Nat := (ts90k % 2 ^ 32).toNat

/-- The packets of each call of a run. -/
def packetizeAll (p : Packetizer) : List (List Bytes × Int) → List (List Bytes)
  | [] => []
  | (nals, ts90k) :: calls =>
    let r := p.packetize nals (mask32 ts90k)
    r.2 :: r.1.packetizeAll calls

/-- What is read of the packets that carry `ps`. -/
def reads (p : Packetizer) (ts : Nat) : List (Bytes × Bool) → List RtpPacket
  | [] => []
  | (payload, marker) :: rest =>
    ⟨decide (((if marker then 0x80 else 0) ||| p.pt) &&& 0x80 ≠ 0),
      ((if marker then 0x80 else 0) ||| p.pt) &&& 0x7F, p.seq % 2 ^ 16, ts % 2 ^ 32,
      p.ssrc % 2 ^ 32, payload⟩ :: (p.emit payload marker ts).1.reads ts rest

theorem map_readRtp_emitAll (p : Packetizer) (ts : Nat) (ps : List (Bytes × Bool)) :
    (p.emitAll ts ps).2.map readRtp = (p.reads ts ps).map some := by
  induction ps generalizing p with
  | nil => rfl
  | cons pm ps ih =>
    obtain ⟨payload, marker⟩ := pm
    simp only [emitAll, reads, List.map_cons, emit, readRtp_header, ih]

theorem map_payload_reads (p : Packetizer) (ts : Nat) (ps : List (Bytes × Bool)) :
    (p.reads ts ps).map (·.payload) = ps.map (·.1) := by
  induction ps generalizing p with
  | nil => rfl
  | cons pm ps ih => simp only [reads, List.map_cons, ih]

theorem ts_reads {p : Packetizer} {ts : Nat} {ps : List (Bytes × Bool)} {r : RtpPacket}
    (h : r ∈ p.reads ts ps) : r.ts = ts % 2 ^ 32 := by
  induction ps generalizing p with
  | nil => cases h
  | cons pm ps ih =>
    cases h with
    | head => rfl
    | tail _ h => exact ih h

/-- Packets read one after the other have consecutive numbers. -/
theorem map_seq_reads (p : Packetizer) (ts : Nat) (ps : List (Bytes × Bool)) :
    (p.reads ts ps).map (·.seq) = (List.range ps.length).map fun k => (p.seq + k) % 2 ^ 16 := by
  induction ps generalizing p with
  | nil => rfl
  | cons pm ps ih =>
    have hnext (k : Nat) : ((p.seq + 1) % 2 ^ 16 + k) % 2 ^ 16 = (p.seq + (k + 1)) % 2 ^ 16 := by
      omega
    simp only [reads, List.map_cons, ih, emit, List.length_cons, List.range_succ_eq_map,
      List.map_map, Function.comp_def, hnext]
    rfl

/-- A receiver that reads payload after payload. -/
theorem depacketizeFrom_emitAll (p : Packetizer) (d : Depacketizer) (ts : Nat)
    (ps : List (Bytes × Bool)) :
    depacketizeFrom d (p.emitAll ts ps).2 = d.feedPayloads (ps.map fun pm => (pm.1, false)) := by
  induction ps generalizing p d with
  | nil => rfl
  | cons pm ps ih =>
    obtain ⟨payload, marker⟩ := pm
    have hopen (d : Depacketizer) : d.close false = d := rfl
    simp only [emitAll, depacketizeFrom, emit, readRtp_header, Option.bind_some, List.map_cons,
      Depacketizer.feedPayloads, hopen]
    cases d.feedPayload payload with
    | none => rfl
    | some d' => exact ih _ d'

/-- The payloads of a NAL, without their markers. -/
theorem map_fst_nalPayloads (mtu : Nat) (lastNal : Bool) (nal : Bytes) :
    (nalPayloads mtu lastNal nal).map (fun pm => (pm.1, false)) = nalPayloads mtu false nal := by
  unfold nalPayloads
  split
  · rfl
  · split
    · rfl
    · cases nal with
      | nil => rfl
      | cons b body =>
        simp only [fragments, List.map_map]
        rfl

theorem feedPayloads_nals {mtu : Nat} {d : Depacketizer} {nals : List Bytes} (hm : 3 ≤ mtu)
    (hn : ∀ n ∈ nals, H264.nalType n ≠ 28) (hd : d.fu = none) :
    d.feedPayloads ((payloads mtu nals).map fun pm => (pm.1, false)) =
      some { d with nals := d.nals ++ nals.filter (· ≠ []) } := by
  induction nals generalizing d with
  | nil => simp [payloads, Depacketizer.feedPayloads]
  | cons nal nals ih =>
    have hrest : ∀ n ∈ nals, H264.nalType n ≠ 28 := fun n h => hn n (List.mem_cons_of_mem nal h)
    rw [payloads, List.map_append, Depacketizer.feedPayloads_append, map_fst_nalPayloads]
    by_cases he : nal = []
    · subst he
      rw [nalPayloads, if_pos rfl, Depacketizer.feedPayloads, Option.bind_some, ih hrest hd,
        List.filter_cons_of_neg (by simp)]
    · have hs : Sendable nal := ⟨he, hn nal (List.mem_cons_self ..)⟩
      rw [feedPayloads_nalPayloads hm false hs hd, Option.bind_some]
      simp only [Depacketizer.close, Bool.false_eq_true, if_false]
      rw [ih (d := { d with nals := d.nals ++ [nal] }) hrest hd,
        List.filter_cons_of_pos (by simp [he]), List.append_assoc, List.singleton_append]

theorem fuBits_fragment (mtu : Nat) (lastNal : Bool) (b : UInt8) (body : Bytes) (off : Nat) :
    fuBits (fragment mtu lastNal b body off).1 =
      some (decide (off = 0), decide (body.length ≤ off + (mtu - 2))) := by
  obtain ⟨hty, -, hs, hf⟩ :=
    fu_bytes (decide (off = 0)) (decide (body.length ≤ off + (mtu - 2))) b
  simp only [fragment, List.cons_append, List.nil_append, fuBits, if_pos hty, hs, hf,
    Bool.decide_eq_true]

/-- The fragments of a NAL larger than the MTU are the first, the last and those between. -/
theorem carriedBy_fragments {mtu : Nat} (lastNal : Bool) {b : UInt8} {body : Bytes} (hm : 3 ≤ mtu)
    (hl : mtu < (b :: body).length) :
    CarriedBy mtu (b :: body) ((fragments mtu lastNal (b :: body)).map (·.1)) := by
  have hbody : mtu ≤ body.length := Nat.lt_succ_iff.mp hl
  have hmore : ¬ (body.length + (mtu - 2) - 1) / (mtu - 2) ≤ 1 := by
    rw [show 1 = 0 + 1 from rfl, fragment_count (by omega)]
    omega
  obtain ⟨k, hk⟩ := Nat.exists_eq_add_of_le (Nat.not_le.mp hmore)
  have hcount {i : Nat} : k + 2 ≤ i + 1 ↔ body.length ≤ i * (mtu - 2) + (mtu - 2) := by
    rw [← fragment_count (by omega), hk, Nat.add_comm 2 k]
  have hbits (i : Nat) : fuBits (fragment mtu lastNal b body (i * (mtu - 2))).1 =
      some (decide (i = 0), decide (k + 1 ≤ i)) := by
    have hz : i * (mtu - 2) = 0 ↔ i = 0 := by
      rw [Nat.mul_eq_zero]
      omega
    rw [fuBits_fragment, decide_eq_decide.mpr hz,
      decide_eq_decide.mpr (hcount.symm.trans Nat.succ_le_succ_iff)]
  have hrange : List.range (k + 2) = 0 :: ((List.range k).map Nat.succ ++ [k + 1]) := by
    rw [List.range_succ, List.range_succ_eq_map, List.cons_append]
  rw [fragments, offsets, hk, Nat.add_comm (1 + 1) k, hrange]
  simp only [List.map_cons, List.map_append, List.map_nil]
  apply CarriedBy.fragmented hl
  · rw [hbits]
    simp
  · intro f hf
    simp only [List.map_map, List.mem_map, List.mem_range] at hf
    obtain ⟨i, hi, rfl⟩ := hf
    simp only [Function.comp, hbits, Nat.succ_eq_add_one]
    have h1 : ¬ i + 1 = 0 := Nat.succ_ne_zero i
    have h2 : ¬ k + 1 ≤ i + 1 := by omega
    rw [decide_eq_false h1, decide_eq_false h2]
  · rw [hbits]
    simp

theorem carriedBy_nalPayloads {mtu : Nat} (lastNal : Bool) {nal : Bytes} (hm : 3 ≤ mtu)
    (hn : nal ≠ []) : CarriedBy mtu nal ((nalPayloads mtu lastNal nal).map (·.1)) := by
  rw [nalPayloads, if_neg hn]
  split
  · rename_i hl
    exact .single hl
  · rename_i hl
    cases nal with
    | nil => exact absurd rfl hn
    | cons b body => exact carriedBy_fragments lastNal hm (Nat.not_le.mp hl)

/-- The payloads of an access unit are those of its NALs, one after the other. -/
theorem carriedBy_payloads {mtu : Nat} (nals : List Bytes) (hm : 3 ≤ mtu) :
    ∃ groups, groups.flatten = (payloads mtu nals).map (·.1) ∧
      List.Forall₂ (CarriedBy mtu) (nals.filter (· ≠ [])) groups := by
  induction nals with
  | nil => exact ⟨[], rfl, .nil⟩
  | cons nal nals ih =>
    obtain ⟨groups, hg, hc⟩ := ih
    rw [payloads, List.map_append]
    by_cases he : nal = []
    · subst he
      rw [nalPayloads, if_pos rfl, List.filter_cons_of_neg (by simp)]
      exact ⟨groups, hg, hc⟩
    · rw [List.filter_cons_of_pos (by simp [he])]
      refine ⟨(nalPayloads mtu (decide (nals = [])) nal).map (·.1) :: groups, ?_, ?_⟩
      · rw [List.flatten_cons, hg]
      · exact .cons (carriedBy_nalPayloads _ hm he) hc

/-- What is read of the packets of each call. -/
def readAll (p : Packetizer) : List (List Bytes × Int) → List (List RtpPacket)
  | [] => []
  | (nals, ts90k) :: calls =>
    p.reads (mask32 ts90k) (payloads p.mtu nals) ::
      (p.packetize nals (mask32 ts90k)).1.readAll calls

/-- The NALs of a run that are sent. -/
def sentNals (calls : List (List Bytes × Int)) : List Bytes :=
  calls.flatMap fun call => call.1.filter (· ≠ [])

theorem packetize_mtu (p : Packetizer) (nals : List Bytes) (ts : Nat) :
    (p.packetize nals ts).1.mtu = p.mtu := (p.emitAll_fst ts _).1

theorem seq_emitAll (p : Packetizer) (ts : Nat) (ps : List (Bytes × Bool)) :
    (p.emitAll ts ps).1.seq % 2 ^ 16 = (p.seq + ps.length) % 2 ^ 16 := by
  induction ps generalizing p with
  | nil => rfl
  | cons pm ps ih =>
    simp only [emitAll, ih, emit, List.length_cons]
    omega

theorem length_reads (p : Packetizer) (ts : Nat) (ps : List (Bytes × Bool)) :
    (p.reads ts ps).length = ps.length := by
  rw [← List.length_map (·.payload), map_payload_reads, List.length_map]

theorem map_readRtp_packetizeAll (p : Packetizer) (calls : List (List Bytes × Int)) :
    (p.packetizeAll calls).map (·.map readRtp) = (p.readAll calls).map (·.map some) := by
  induction calls generalizing p with
  | nil => rfl
  | cons call calls ih =>
    obtain ⟨nals, ts90k⟩ := call
    simp only [packetizeAll, readAll, List.map_cons, ih]
    rw [packetize, map_readRtp_emitAll]

theorem depacketizeFrom_append (d : Depacketizer) (ps qs : List Bytes) :
    depacketizeFrom d (ps ++ qs) = (depacketizeFrom d ps).bind (depacketizeFrom · qs) := by
  induction ps generalizing d with
  | nil => rfl
  | cons pkt ps ih =>
    simp only [List.cons_append, depacketizeFrom, ih, Option.bind_assoc]

theorem depacketizeFrom_packetizeAll {p : Packetizer} {d : Depacketizer}
    {calls : List (List Bytes × Int)} (hm : 3 ≤ p.mtu)
    (hn : ∀ call ∈ calls, ∀ n ∈ call.1, H264.nalType n ≠ 28) (hd : d.fu = none) :
    depacketizeFrom d (p.packetizeAll calls).flatten =
      some { d with nals := d.nals ++ sentNals calls } := by
  induction calls generalizing p d with
  | nil => simp [packetizeAll, depacketizeFrom, sentNals]
  | cons call calls ih =>
    obtain ⟨nals, ts90k⟩ := call
    have hmtu : 3 ≤ (p.packetize nals (mask32 ts90k)).1.mtu := by rwa [packetize_mtu]
    have hrest : ∀ c ∈ calls, ∀ n ∈ c.1, H264.nalType n ≠ 28 :=
      fun c hc => hn c (List.mem_cons_of_mem _ hc)
    simp only [packetizeAll, List.flatten_cons, depacketizeFrom_append]
    rw [packetize, depacketizeFrom_emitAll, feedPayloads_nals hm (hn _ (List.mem_cons_self ..)) hd,
      Option.bind_some]
    have := ih (d := { d with nals := d.nals ++ nals.filter (· ≠ []) }) hmtu hrest hd
    rw [packetize] at this
    rw [this, sentNals, sentNals, List.flatMap_cons, List.append_assoc]

theorem length_payload_readAll {p : Packetizer} {calls : List (List Bytes × Int)} (hm : 3 ≤ p.mtu) :
    ∀ r ∈ (p.readAll calls).flatten, r.payload.length ≤ p.mtu := by
  induction calls generalizing p with
  | nil => simp [readAll]
  | cons call calls ih =>
    intro r hr
    rcases List.mem_append.mp hr with hr | hr
    · have hpay := List.mem_map_of_mem (f := (·.payload)) hr
      rw [map_payload_reads] at hpay
      obtain ⟨pm, hpm, he⟩ := List.mem_map.mp hpay
      rw [← he]
      exact length_payloads hm hpm
    · have hmtu := p.packetize_mtu call.1 (mask32 call.2)
      rw [← hmtu]
      exact ih (by rwa [hmtu]) r hr

theorem carriedBy_readAll {p : Packetizer} (calls : List (List Bytes × Int)) (hm : 3 ≤ p.mtu) :
    ∃ groups, groups.flatten = (p.readAll calls).flatten.map (·.payload) ∧
      List.Forall₂ (CarriedBy p.mtu) (sentNals calls) groups := by
  induction calls generalizing p with
  | nil => exact ⟨[], rfl, .nil⟩
  | cons call calls ih =>
    have hmtu := p.packetize_mtu call.1 (mask32 call.2)
    obtain ⟨g₁, hg₁, hc₁⟩ := carriedBy_payloads call.1 hm
    obtain ⟨g₂, hg₂, hc₂⟩ := ih (p := (p.packetize call.1 (mask32 call.2)).1) (by rwa [hmtu])
    rw [hmtu] at hc₂
    refine ⟨g₁ ++ g₂, ?_, List.rel_append hc₁ hc₂⟩
    rw [readAll, List.flatten_cons, List.map_append, map_payload_reads, ← hg₁, ← hg₂,
      List.flatten_append]

theorem map_seq_readAll (p : Packetizer) (calls : List (List Bytes × Int)) :
    (p.readAll calls).flatten.map (·.seq) =
      (List.range (p.readAll calls).flatten.length).map fun k => (p.seq + k) % 2 ^ 16 := by
  induction calls generalizing p with
  | nil => rfl
  | cons call calls ih =>
    have hnext (k : Nat) : ((p.packetize call.1 (mask32 call.2)).1.seq + k) % 2 ^ 16 =
        (p.seq + ((payloads p.mtu call.1).length + k)) % 2 ^ 16 := by
      rw [Nat.add_mod, packetize, seq_emitAll, ← Nat.add_mod, Nat.add_assoc]
    rw [readAll, List.flatten_cons, List.map_append, ih, map_seq_reads, List.length_append,
      length_reads, List.range_add, List.map_append, List.map_map]
    simp only [Function.comp_def, hnext]

theorem forall₂_ts_readAll (p : Packetizer) (calls : List (List Bytes × Int)) :
    List.Forall₂ (fun call rs => ∀ r ∈ rs, (r.ts : Int) = call.2 % 2 ^ 32) calls
      (p.readAll calls) := by
  induction calls generalizing p with
  | nil => exact .nil
  | cons call calls ih =>
    refine .cons ?_ (ih _)
    intro r hr
    rw [ts_reads hr, mask32]
    omega

/-- A run of `packetize` calls: the receiver gets the NALs that were sent, in payloads of at most an
MTU, each NAL whole or in fragments marked at both ends, with consecutive sequence numbers and the
timestamp of the call on each packet. -/
theorem packetizeAll_law (p : Packetizer) (calls : List (List Bytes × Int)) (hm : 3 ≤ p.mtu)
    (hn : ∀ call ∈ calls, ∀ n ∈ call.1, H264.nalType n ≠ 28) :
    depacketize (p.packetizeAll calls).flatten = some (sentNals calls) ∧
    ∃ rs : List (List RtpPacket),
      (p.packetizeAll calls).map (·.map readRtp) = rs.map (·.map some) ∧
      (∀ r ∈ rs.flatten, r.payload.length ≤ p.mtu) ∧
      (∃ groups, groups.flatten = rs.flatten.map (·.payload) ∧
        List.Forall₂ (CarriedBy p.mtu) (sentNals calls) groups) ∧
      rs.flatten.map (·.seq) =
        (List.range rs.flatten.length).map (fun k => (p.seq + k) % 2 ^ 16) ∧
      List.Forall₂ (fun call rs => ∀ r ∈ rs, (r.ts : Int) = call.2 % 2 ^ 32) calls rs := by
  constructor
  · rw [depacketize, depacketizeFrom_packetizeAll (d := {}) hm hn rfl, Option.bind_some,
      if_pos rfl]
    rfl
  · exact ⟨p.readAll calls, p.map_readRtp_packetizeAll calls, length_payload_readAll hm,
      carriedBy_readAll calls hm, p.map_seq_readAll calls, p.forall₂_ts_readAll calls⟩

/-- A number that wraps inside a fragmented NAL. -/
theorem packetizeAll_law_wraps :
    depacketize (({ ssrc := 1, mtu := 3, seq := 65535 } : Packetizer).packetizeAll
      [([[0x65, 1, 2, 3], [], [0x41]], -1)]).flatten = some [[0x65, 1, 2, 3], [0x41]] :=
  (packetizeAll_law { ssrc := 1, mtu := 3, seq := 65535 } _ (by decide) (by decide)).1

end Packetizer
end DvrBridge
