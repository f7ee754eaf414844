import DvrBridge.NetDvr3Steps
import Mathlib.Data.Set.Defs

/-! How long the driver's buffer gets. Every read is matched by a deletion or a limit, except after
a search in `_resync` that finds a magic at the front of the buffer. -/
namespace DvrBridge.NetDvr3
open Search Machine

theorem field_lt (bs : Bytes) (i k : Nat) : field bs i k < 256 ^ k := by
  have h := readLe_lt ((bs.drop i).take k)
  have hl : ((bs.drop i).take k).length ≤ k := List.length_take_le ..
  exact Nat.lt_of_lt_of_le h (Nat.pow_le_pow_right (by decide) hl)

theorem payloadLen_le {bs : Bytes} {hdr : FrameHeader} (h : parseFrameHeader bs = some hdr) :
    hdr.payloadLen ≤ 65539 := by
  obtain ⟨-, h⟩ := Option.ite_none_left_eq_some.mp h
  cases h
  have := field_lt bs 22 2
  simp only
  omega

namespace Parser

/-- A search of `_resync` finds a magic whose header start is gone: the branch that reads again
whatever the buffer holds, and leaves `scanned` alone. -/
def Skips (p : Parser) : Prop :=
  ∃ scanned i, p.pc = .resync scanned ∧ find magic p.buf = some i ∧ i < 4

/-- What each loop leaves room for, under a bound for the whole driver. -/
def Room (m : Nat) (p : Parser) : Prop :=
  match p.pc with
  | .preamble => p.buf.length ≤ maxPreamble + 4096
  | .body hdr => hdr.payloadLen ≤ 65539 ∧ p.buf.length ≤ m
  | .resyncRead _ => p.buf.length + 4096 ≤ m
  | _ => p.buf.length ≤ m

theorem Room.buf_le {m : Nat} (hm : maxPreamble + 4096 ≤ m) {p : Parser} (h : p.Room m) :
    p.buf.length ≤ m := by
  unfold Room at h
  split at h <;> omega

theorem Room.step {k m : Nat} (hm : maxPreamble + 4096 ≤ m) (hk : k + 4092 ≤ m) {p q : Parser}
    {i : ParserInput} {o : List ParserOutput} (hr : p.Room m)
    (hskip : p.Skips → p.buf.length ≤ k) (hs : Stepped p p.pc i q o) : q.Room m := by
  obtain ⟨pc, buf, resyncs, info⟩ := p
  have hbuf : buf.length ≤ m := hr.buf_le hm
  simp only [maxPreamble] at hm
  cases hs with
  | found i _ _ =>
    simp only [Room, List.length_drop]
    omega
  | notFound _ _ => exact hbuf
  | preambleRead chunk _ hl _ hc =>
    simp only [Room, List.length_append, maxPreamble] at hl ⊢
    omega
  | preambleFails i _ _ _ => exact hbuf
  | headerRead chunk hl hc =>
    simp only [Room, List.length_append, headerLen] at hl hc ⊢
    omega
  | headerFails i _ _ => exact hbuf
  | badHeader _ _ =>
    simp only [Room, startResync_pc, startResync_buf, List.length_drop]
    omega
  | parsed hdr _ hd _ => exact ⟨payloadLen_le hd, hbuf⟩
  | bodyRead hdr chunk hl hc =>
    obtain ⟨hp, -⟩ := hr
    refine ⟨hp, ?_⟩
    simp only [List.length_append, headerLen] at hl hc ⊢
    omega
  | bodyFails hdr i _ _ => exact hbuf
  | framed hdr _ _ _ =>
    simp only [Room, List.length_drop]
    omega
  | lied hdr _ _ =>
    simp only [Room, startResync_pc, startResync_buf, List.length_drop]
    omega
  | scanFound scanned i _ _ =>
    simp only [Room, List.length_drop]
    omega
  | scanSkip scanned i hi h4 =>
    have hl : buf.length ≤ k := hskip ⟨scanned, i, rfl, hi, h4⟩
    have hm4 : i + 4 ≤ buf.length := find_lt _ _ _ hi
    simp only [Room, List.length_drop]
    omega
  | scanNone scanned _ =>
    simp only [Room, List.length_drop]
    omega
  | scanRead scanned chunk _ hc =>
    have hroom : buf.length + 4096 ≤ m := hr
    simp only [Room, List.length_append]
    omega
  | scanFails scanned i _ _ => exact hbuf
  | scanEnd scanned _ => exact hbuf

/-- A run whose skips happen with at most `k` bytes in the buffer has an explicit bound. -/
theorem buf_le_of_skips {k : Nat} {is : List ParserInput}
    (h : EveryStep step (fun p _ _ _ _ => p.Skips → p.buf.length ≤ k) {} is) :
    EveryStep step (fun _ _ _ q _ => q.buf.length ≤ max (maxPreamble + 4096) (k + 4092)) {} is := by
  have hm : maxPreamble + 4096 ≤ max (maxPreamble + 4096) (k + 4092) := Nat.le_max_left ..
  have hk : k + 4092 ≤ max (maxPreamble + 4096) (k + 4092) := Nat.le_max_right ..
  refine everyStep_of_invariant (Q := fun p _ _ _ _ => p.Skips → p.buf.length ≤ k)
    (fun p _ => p.Room (max (maxPreamble + 4096) (k + 4092))) (Nat.zero_le _) ?_ ?_ h
  · intro p _ i q o hr hs hq
    exact hr.step hm hk hq (stepped hs)
  · intro p _ i q o hr hs hq
    exact (hr.step hm hk hq (stepped hs)).buf_le hm

/-- A class of devices has a common bound on the buffer exactly if it has one on the buffer at the
searches of `_resync` that find a magic whose header start is gone. -/
theorem buffer_bounded_iff (runs : Set (List ParserInput)) :
    (∃ b, ∀ is ∈ runs, EveryStep step (fun _ _ _ q _ => q.buf.length ≤ b) {} is) ↔
      ∃ k, ∀ is ∈ runs, EveryStep step (fun p _ _ _ _ => p.Skips → p.buf.length ≤ k) {} is := by
  constructor
  · rintro ⟨b, hb⟩
    refine ⟨b, fun is his => ?_⟩
    refine everyStep_of_invariant (Q := fun _ _ _ q _ => q.buf.length ≤ b)
      (fun p _ => p.buf.length ≤ b) (Nat.zero_le _) ?_ ?_ (hb is his)
    · exact fun _ _ _ _ _ _ _ hq => hq
    · exact fun _ _ _ _ _ hp _ _ _ => hp
  · rintro ⟨k, hk⟩
    exact ⟨_, fun is his => buf_le_of_skips (hk is his)⟩

/-! The magic over and over. -/

def flood (n : Nat) : Bytes := (List.replicate n magic).flatten

def floodRounds (n : Nat) : List ParserInput :=
  (List.replicate n [.go, .data (flood 1024)]).flatten

theorem flood_length (n : Nat) : (flood n).length = 4 * n := by
  simp [flood, magic, Nat.mul_comm]

theorem flood_succ (n : Nat) : flood (n + 1) = magic ++ flood n := by
  simp [flood, List.replicate_succ]

theorem flood_add (m n : Nat) : flood m ++ flood n = flood (m + n) := by
  rw [flood, flood, flood, ← List.flatten_append, List.replicate_append_replicate]

/-- A round deletes one magic and reads 1024. -/
theorem flood_round (p : Parser) (n : Nat) (hpc : p.pc = .resync 0) (hb : p.buf = flood (n + 1)) :
    run step p [.go, .data (flood 1024)] = some ({ p with buf := flood (n + 1024) }, []) := by
  have hfind : find magic p.buf = some 0 := by
    rw [hb, flood_succ]
    exact (find_eq_some_iff ..).mpr ⟨Nat.zero_le _, List.prefix_append _ _, by simp⟩
  have hdrop : p.buf.drop 4 = flood n := by
    rw [hb, flood_succ]
    exact List.drop_left' rfl
  have hlen : (flood 1024).length = 4096 := flood_length 1024
  have hskip : p.step .go = some ({ p with pc := .resyncRead 0, buf := flood n }, []) := by
    simp [step, move, resyncMove, hpc, hfind, hdrop]
  have hread : step { p with pc := .resyncRead 0, buf := flood n } (.data (flood 1024)) =
      some ({ p with buf := flood (n + 1024) }, []) := by
    simp [step, move, receive, maxFrame, hlen, flood_add, hpc]
  exact (run_cons_iff ..).mpr
    ⟨_, [], [], hskip, (run_cons_iff ..).mpr ⟨_, [], [], hread, rfl, rfl⟩, rfl⟩

/-- After `n` rounds the buffer holds what they have added. -/
theorem flood_rounds (n m : Nat) (p : Parser) (hpc : p.pc = .resync 0) (hb : p.buf = flood (m + 1)) :
    ∃ q, run step p (floodRounds n) = some (q, []) ∧ q.buf = flood (m + 1 + 1023 * n) := by
  induction n generalizing m p with
  | zero => exact ⟨p, rfl, hb⟩
  | succ n ih =>
    obtain ⟨q, hr, hq⟩ := ih (m + 1023) { p with buf := flood (m + 1024) } hpc rfl
    refine ⟨q, ?_, hq.trans (by congr 1; omega)⟩
    have hrounds : floodRounds (n + 1) = [.go, .data (flood 1024)] ++ floodRounds n := by
      simp [floodRounds, List.replicate_succ]
    rw [hrounds]
    exact (run_append_iff ..).mpr ⟨_, [], [], flood_round p m hpc hb, hr, rfl⟩

/-- Four bytes and the magic over and over take the driver into `_resync`. -/
theorem flood_start :
    (run step {} [.data ([0, 0, 0, 0] ++ flood 11), .go, .go, .go]).map (fun r =>
      (r.1.pc, r.1.buf)) = some (.resync 0, flood 11) := by
  decide +kernel

/-- No constant bounds the buffer: every skip deletes four bytes and reads 4096. -/
theorem buffer_unbounded :
    ¬ ∃ b, ∀ is p o, run step {} is = some (p, o) → p.buf.length ≤ b := by
  rintro ⟨b, hb⟩
  obtain ⟨⟨p, o⟩, hr, he⟩ := Option.map_eq_some_iff.mp flood_start
  rw [Prod.mk.injEq] at he
  obtain ⟨q, hq, hbuf⟩ := flood_rounds b 10 p he.1 he.2
  have hle := hb _ q _ ((run_append_iff ..).mpr ⟨p, o, [], hr, hq, rfl⟩)
  rw [hbuf, flood_length] at hle
  omega

end Parser

end DvrBridge.NetDvr3
