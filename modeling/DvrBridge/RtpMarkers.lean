import DvrBridge.RtpRoundTrip

/-! The marker bit of the packets of one access unit. -/
namespace DvrBridge.Packetizer

/-- The marker bits that a receiver reads. -/
def markers (packets : List Bytes) : List (Option Bool) :=
  packets.map fun pkt => (readRtp pkt).map (·.marker)

/-- The last packet has the marker bit, and no packet before it. -/
def MarkedLast (packets : List Bytes) : Prop :=
  markers packets = List.replicate (packets.length - 1) (some false) ++ [some true]

instance (packets : List Bytes) : Decidable (MarkedLast packets) :=
  inferInstanceAs (Decidable (_ = _))

theorem markers_emitAll {p : Packetizer} (ts : Nat) (ps : List (Bytes × Bool))
    (hpt : p.pt &&& 0x80 = 0) : markers (p.emitAll ts ps).2 = ps.map fun pm => some pm.2 := by
  induction ps generalizing p with
  | nil => rfl
  | cons pm ps ih =>
    obtain ⟨payload, marker⟩ := pm
    have hrest := ih (p := (p.emit payload marker ts).1) hpt
    have hfirst : (readRtp (p.emit payload marker ts).2).map (·.marker) = some marker := by
      simp only [emit, readRtp_header, Option.map_some, marker_bit marker hpt]
    rw [emitAll, markers, List.map_cons, hfirst, List.map_cons]
    congr 1

theorem length_emitAll_snd (p : Packetizer) (ts : Nat) (ps : List (Bytes × Bool)) :
    (p.emitAll ts ps).2.length = ps.length := by
  induction ps generalizing p with
  | nil => rfl
  | cons pm ps ih => simp only [emitAll, List.length_cons, ih]

/-- No packet of a NAL that is not the last of the list is marked. -/
theorem nalPayloads_unmarked {mtu : Nat} {nal : Bytes} {pm : Bytes × Bool}
    (h : pm ∈ nalPayloads mtu false nal) : pm.2 = false := by
  unfold nalPayloads at h
  split at h
  · cases h
  · split at h
    · cases List.mem_singleton.mp h
      rfl
    · cases nal with
      | nil => cases h
      | cons b body =>
        obtain ⟨off, -, rfl⟩ := List.mem_map.mp h
        rfl

theorem map_snd_nalPayloads_false (mtu : Nat) (nal : Bytes) :
    (nalPayloads mtu false nal).map (·.2) =
      List.replicate (nalPayloads mtu false nal).length false := by
  apply List.eq_replicate_iff.mpr
  constructor
  · exact List.length_map ..
  · intro b hb
    obtain ⟨pm, hpm, rfl⟩ := List.mem_map.mp hb
    exact nalPayloads_unmarked hpm

/-- Of the packets of a last NAL the last one is marked. -/
theorem map_snd_nalPayloads_true {mtu : Nat} {nal : Bytes} (hm : 3 ≤ mtu) (hn : nal ≠ []) :
    ∃ k, (nalPayloads mtu true nal).map (·.2) = List.replicate k false ++ [true] := by
  rw [nalPayloads, if_neg hn]
  split
  · exact ⟨0, rfl⟩
  · rename_i hl
    cases nal with
    | nil => exact absurd rfl hn
    | cons b body =>
      rw [List.length_cons] at hl
      have hpos : 0 < (body.length + (mtu - 2) - 1) / (mtu - 2) :=
        Nat.div_pos (by omega) (by omega)
      obtain ⟨k, hk⟩ := Nat.exists_eq_succ_of_ne_zero (Nat.ne_of_gt hpos)
      have hfin {i : Nat} : k + 1 ≤ i + 1 ↔ body.length ≤ i * (mtu - 2) + (mtu - 2) := by
        rw [← fragment_count (by omega), hk]
      refine ⟨k, ?_⟩
      rw [fragments, offsets, hk, List.range_succ]
      simp only [List.map_append, List.map_cons, List.map_nil, List.map_map, Function.comp_def,
        fragment, Bool.true_and, ← hfin]
      congr 1
      · apply List.eq_replicate_iff.mpr
        constructor
        · simp
        · intro b hb
          obtain ⟨i, hi, rfl⟩ := List.mem_map.mp hb
          have := List.mem_range.mp hi
          exact decide_eq_false (by omega)
      · simp

/-- Only the last entry of the list can mark a packet. -/
theorem map_snd_payloads (mtu : Nat) (nals : List Bytes) (last : Bytes) :
    ∃ k, (payloads mtu (nals ++ [last])).map (·.2) =
      List.replicate k false ++ (nalPayloads mtu true last).map (·.2) := by
  induction nals with
  | nil => exact ⟨0, by simp [payloads]⟩
  | cons nal nals ih =>
    obtain ⟨k, hk⟩ := ih
    have hmore : ¬ nals ++ [last] = [] := List.append_ne_nil_of_right_ne_nil _ (by simp)
    refine ⟨(nalPayloads mtu false nal).length + k, ?_⟩
    rw [List.cons_append, payloads, decide_eq_false hmore, List.map_append, hk,
      map_snd_nalPayloads_false, ← List.append_assoc, List.replicate_append_replicate]

/-- The last packet of an access unit, and no other, is marked exactly when the last entry of the
list is a NAL that is sent. -/
theorem markedLast_packetize_iff {p : Packetizer} {nals : List Bytes} (ts90k : Nat)
    (hm : 3 ≤ p.mtu) (hpt : p.pt &&& 0x80 = 0) (hne : ∃ n ∈ nals, n ≠ []) :
    MarkedLast (p.packetize nals ts90k).2 ↔ nals.getLast? ≠ some [] := by
  obtain ⟨n, hn, hne⟩ := hne
  have hnil : nals ≠ [] := List.ne_nil_of_mem hn
  obtain ⟨k, hk⟩ := map_snd_payloads p.mtu nals.dropLast (nals.getLast hnil)
  rw [List.dropLast_append_getLast hnil] at hk
  have hmarks : markers (p.packetize nals ts90k).2 =
      ((payloads p.mtu nals).map (·.2)).map some := by
    rw [packetize, markers_emitAll ts90k _ hpt, List.map_map]
    rfl
  have hlen : (p.packetize nals ts90k).2.length = ((payloads p.mtu nals).map (·.2)).length := by
    rw [packetize, length_emitAll_snd, List.length_map]
  rw [MarkedLast, hmarks, hlen, hk, List.getLast?_eq_getLast_of_ne_nil hnil]
  by_cases hlast : nals.getLast hnil = []
  · -- the last entry is skipped, and with it the marker
    rw [hlast]
    simp only [nalPayloads, if_true, List.map_nil, List.append_nil, ne_eq, not_true_eq_false,
      iff_false]
    intro h
    have hm : some true ∈ (List.replicate k false).map some := by
      rw [h]
      simp
    simp at hm
  · obtain ⟨j, hj⟩ := map_snd_nalPayloads_true hm hlast
    rw [hj, ← List.append_assoc, List.replicate_append_replicate]
    simp [hlast]

theorem markedLast_packetize_iff_fragments :
    MarkedLast (({ ssrc := 1, mtu := 3 } : Packetizer).packetize [[], [0x65, 1, 2, 3]] 0).2 :=
  (markedLast_packetize_iff 0 (by decide) (by decide) ⟨[0x65, 1, 2, 3], by simp⟩).mpr (by decide)

/-- A skipped NAL at the end takes the marker with it. -/
theorem not_markedLast_packetize :
    ¬ ∀ (p : Packetizer) (nals : List Bytes), 3 ≤ p.mtu → p.pt &&& 0x80 = 0 →
      (∃ n ∈ nals, n ≠ []) → MarkedLast (p.packetize nals 0).2 := by
  intro h
  have := h { ssrc := 1 } [[0x65], []] (by decide) (by decide) ⟨[0x65], by simp⟩
  revert this
  decide

end DvrBridge.Packetizer
