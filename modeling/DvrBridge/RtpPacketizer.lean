import DvrBridge.Bytes

/-! RTP packets of H.264 access units: single NAL units, and FU-A fragments of larger ones. -/
namespace DvrBridge

def rtpVersion : Nat := 2
def fuA : UInt8 := 28

structure Packetizer where
  ssrc : Nat
  pt : UInt8 := 96
  mtu : Nat := 1400
  seq : Nat := 0
  packetsSent : Nat := 0
  octetsSent : Nat := 0

namespace Packetizer

/-- The header of the packet with the current sequence number. -/
def header (p : Packetizer) (marker : Bool) (ts : Nat) : Bytes :=
  [UInt8.ofNat (rtpVersion <<< 6), (if marker then 0x80 else 0) ||| p.pt] ++
    be 2 p.seq ++ be 4 ts ++ be 4 p.ssrc

def emit (p : Packetizer) (payload : Bytes) (marker : Bool) (ts : Nat) : Packetizer × Bytes :=
  let pkt := p.header marker ts ++ payload
  ({ p with
      seq := (p.seq + 1) % 2 ^ 16
      packetsSent := p.packetsSent + 1
      octetsSent := p.octetsSent + (pkt.length - 12) }, pkt)

/-- The fragment of the bytes after a NAL's header `b` at `off`, and its marker bit. -/
def fragment (mtu : Nat) (lastNal : Bool) (b : UInt8) (body : Bytes) (off : Nat) : Bytes × Bool :=
  let chunk := mtu - 2
  let start := decide (off = 0)
  let fin := decide (body.length ≤ off + chunk)
  ([b &&& 0xE0 ||| fuA,
      (if start then 0x80 else 0) ||| (if fin then 0x40 else 0) ||| (b &&& 0x1F)] ++
    (body.drop off).take chunk, lastNal && fin)

/-- `range(0, len(body), chunk)` -/
def offsets (len chunk : Nat) : List Nat :=
  (List.range ((len + chunk - 1) / chunk)).map (· * chunk)

/-- The fragments of a NAL larger than the MTU. -/
def fragments (mtu : Nat) (lastNal : Bool) : Bytes → List (Bytes × Bool)
  | [] => []
  | b :: body => (offsets body.length (mtu - 2)).map (fragment mtu lastNal b body)

/-- The payloads one NAL is sent in; an empty one is skipped. -/
def nalPayloads (mtu : Nat) (lastNal : Bool) (nal : Bytes) : List (Bytes × Bool) :=
  if nal = [] then []
  else if nal.length ≤ mtu then [(nal, lastNal)]
  else fragments mtu lastNal nal

/-- `enumerate(nals)`: the last element of the list is the last NAL, empty or not. -/
def payloads (mtu : Nat) : List Bytes → List (Bytes × Bool)
  | [] => []
  | nal :: nals => nalPayloads mtu (decide (nals = [])) nal ++ payloads mtu nals

def emitAll (p : Packetizer) (ts : Nat) : List (Bytes × Bool) → Packetizer × List Bytes
  | [] => (p, [])
  | (payload, marker) :: rest =>
    let r := p.emit payload marker ts
    let s := r.1.emitAll ts rest
    (s.1, r.2 :: s.2)

def packetize (p : Packetizer) (nals : List Bytes) (ts90k : Nat) : Packetizer × List Bytes :=
  p.emitAll ts90k (payloads p.mtu nals)

theorem emitAll_fst (p : Packetizer) (ts : Nat) (ps : List (Bytes × Bool)) :
    (p.emitAll ts ps).1.mtu = p.mtu ∧ (p.emitAll ts ps).1.pt = p.pt ∧
      (p.emitAll ts ps).1.ssrc = p.ssrc := by
  induction ps generalizing p with
  | nil => exact ⟨rfl, rfl, rfl⟩
  | cons pm ps ih => exact ih (p.emit pm.1 pm.2 ts).1

theorem length_nalPayloads {mtu : Nat} {lastNal : Bool} {nal : Bytes} {pm : Bytes × Bool}
    (hm : 3 ≤ mtu) (h : pm ∈ nalPayloads mtu lastNal nal) : pm.1.length ≤ mtu := by
  unfold nalPayloads at h
  split at h
  · cases h
  · split at h
    · rename_i hl
      cases List.mem_singleton.mp h
      exact hl
    · cases nal with
      | nil => cases h
      | cons b body =>
        obtain ⟨off, -, rfl⟩ := List.mem_map.mp h
        simp only [fragment, List.length_append, List.length_cons, List.length_nil,
          List.length_take]
        omega

theorem length_payloads {mtu : Nat} {nals : List Bytes} {pm : Bytes × Bool} (hm : 3 ≤ mtu)
    (h : pm ∈ payloads mtu nals) : pm.1.length ≤ mtu := by
  induction nals with
  | nil => cases h
  | cons nal nals ih =>
    rcases List.mem_append.mp h with h | h
    · exact length_nalPayloads hm h
    · exact ih h

theorem length_emitAll {p : Packetizer} {ts : Nat} {ps : List (Bytes × Bool)} {b : Bytes} {n : Nat}
    (hps : ∀ pm ∈ ps, pm.1.length ≤ n) (h : b ∈ (p.emitAll ts ps).2) : b.length ≤ 12 + n := by
  induction ps generalizing p with
  | nil => cases h
  | cons pm ps ih =>
    rcases List.mem_cons.mp h with rfl | h
    · have hpm := hps pm (List.mem_cons_self ..)
      simp only [emit, header, List.length_append, List.length_cons, List.length_nil, be_length]
      omega
    · exact ih (fun x hx => hps x (List.mem_cons_of_mem pm hx)) h

/-- A packet is its 12 bytes of header and at most an MTU of payload. -/
theorem length_packetize {p : Packetizer} {nals : List Bytes} {ts90k : Nat} {b : Bytes}
    (hm : 3 ≤ p.mtu) (h : b ∈ (p.packetize nals ts90k).2) : b.length ≤ 12 + p.mtu :=
  length_emitAll (fun _ hpm => length_payloads hm hpm) h

end Packetizer
end DvrBridge
