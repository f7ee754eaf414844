import DvrBridge.FakeDvrUnits
import DvrBridge.NetDvr3Script
import DvrBridge.NetDvr3Start

/-! The simulated device: one connection to it, the frames that it goes through, and the bytes that
it has written at any time. -/
namespace DvrBridge
open H264 NetDvr3 Machine

/-- A recording without access units is a `ValueError`. -/
structure FakeDvr where
  annexb : Bytes
  username : Str := "admin".toList
  password : Str := "secret".toList
  /-- `int(1000 * interval)` of the frame rate -/
  tick : Int := 40
  channels : Int := 4
  preamble : Bytes
  loopStream : Bool := true
  dropAfterFrames : Option Int := none
  garbageEvery : Option Int := none
  garbage : Bytes := (List.replicate 8 [0xde, 0xad, 0xbe, 0xef]).flatten
  rejectCredentials : Bool := true
  recorded : FakeDvr.splitAccessUnits annexb ≠ []

/-- Where `_session` is. -/
inductive SimPc where
  /-- at `reader.readexactly(76)` -/
  | reading
  /-- at `reader.read(1)`: real boards go silent on bad credentials -/
  | silent
  /-- at `drain` or `sleep`, with what is left of the round -/
  | waiting (todo : List (Bytes × Bool))
  /-- at `drain` before the abrupt close -/
  | dropping
  | closed
  deriving DecidableEq

structure SimSession where
  pc : SimPc := .reading
  seq : Int := 0x0b00
  /-- arbitrary epoch, like the real board -/
  ts : Int := 47000000
  sent : Nat := 0
  deriving DecidableEq

inductive SimInput where
  /-- the start packet is there -/
  | start
  /-- `reader.read(1)` returns -/
  | given
  /-- `drain` and `sleep` return -/
  | next
  /-- a time-out of the start packet, a `ConnectionError`, an incomplete read or a cancellation -/
  | lost
  deriving DecidableEq

namespace FakeDvr
variable (d : FakeDvr)

def aus : List (Bytes × Bool) := splitAccessUnits d.annexb

theorem aus_ne_nil : d.aus ≠ [] := d.recorded

/-- What is injected behind the frame that makes `sent` frames. -/
def junk (sent : Nat) : Bytes :=
  match d.garbageEvery with
  | some every => if every ≠ 0 ∧ (sent : Int) % every = 0 then d.garbage else []
  | none => []

/-- Whether `drop_after_frames` is reached. -/
def dropped (sent : Nat) : Bool :=
  match d.dropAfterFrames with
  | some most => decide (most ≤ sent)
  | none => false

/-- The body of the loop up to its first await. -/
def sendFrame (s : SimSession) (au : Bytes × Bool) (todo : List (Bytes × Bool)) :
    SimSession × Bytes :=
  ({ pc := if d.dropped (s.sent + 1) then .dropping else .waiting todo
     seq := s.seq + 1
     ts := s.ts + d.tick
     sent := s.sent + 1 },
    frameHeader s.seq s.ts au.2 au.1.length ++ au.1 ++ d.junk (s.sent + 1))

/-- The loops over the access units, from what is left of the round. -/
def goOn (s : SimSession) : List (Bytes × Bool) → SimSession × Bytes
  | au :: todo => d.sendFrame s au todo
  | [] =>
    if d.loopStream then d.sendFrame s (d.aus.head d.aus_ne_nil) d.aus.tail
    else ({ s with pc := .closed }, [])

def badCredentials (pkt : Bytes) : Bool :=
  d.rejectCredentials && (sessionUser pkt ≠ d.username || sessionPassword pkt ≠ d.password)

/-- Whether video is sent in answer to the start packet. -/
def answers (pkt : Bytes) : Bool :=
  pkt.take 4 = be 4 0x48 && !d.badCredentials pkt &&
    decide (((pkt.getD 73 0).toNat : Int) < d.channels)

/-- What follows the start packet. -/
def receive (s : SimSession) (pkt : Bytes) : SimSession × Bytes :=
  if pkt.take 4 ≠ be 4 0x48 then
    -- not our protocol: hang up
    ({ s with pc := .closed }, [])
  else if d.badCredentials pkt then
    ({ s with pc := .silent }, [])
  else if d.channels ≤ ((pkt.getD 73 0).toNat : Int) then ({ s with pc := .silent }, [])
  else
    let r := d.goOn s d.aus
    (r.1, d.preamble ++ r.2)

/-- The tests on the start packet decide whether the preamble is written, with the first frame behind
it, or nothing. -/
theorem receive_eq (s : SimSession) (pkt : Bytes) :
    d.receive s pkt =
      if d.answers pkt then ((d.goOn s d.aus).1, d.preamble ++ (d.goOn s d.aus).2)
      else ({ s with pc := if pkt.take 4 = be 4 0x48 then .silent else .closed }, []) := by
  by_cases hmagic : pkt.take 4 = be 4 0x48
  · by_cases hcred : d.badCredentials pkt = true
    · simp [receive, answers, hmagic, hcred]
    · rw [receive, if_neg (not_not.mpr hmagic), if_neg hcred, answers, if_pos hmagic]
      by_cases hchannel : d.channels ≤ ((pkt.getD 73 0).toNat : Int)
      · rw [if_pos hchannel, decide_eq_false (Int.not_lt.mpr hchannel), Bool.and_false]
        rfl
      · rw [if_neg hchannel, decide_eq_true (Int.not_le.mp hchannel), decide_eq_true hmagic,
          Bool.eq_false_iff.mpr hcred]
        rfl
  · simp [receive, answers, hmagic]

/-- A step and the bytes that it writes; `pkt` is what the client sends. -/
def step (pkt : Bytes) (s : SimSession) : SimInput → Option (SimSession × Bytes)
  | .start => if s.pc = .reading ∧ pkt.length = 76 then some (d.receive s pkt) else none
  | .given => if s.pc = .silent then some ({ s with pc := .closed }, []) else none
  | .next =>
    match s.pc with
    | .waiting todo => some (d.goOn s todo)
    | .dropping => some ({ s with pc := .closed }, [])
    | _ => none
  | .lost => if s.pc ≠ .closed then some ({ s with pc := .closed }, []) else none

/-! The frames in their order, over and over. -/

theorem aus_length_pos : 0 < d.aus.length := List.length_pos_iff.mpr d.aus_ne_nil

def unit (i : Nat) : Bytes × Bool :=
  d.aus.get ⟨i % d.aus.length, Nat.mod_lt i d.aus_length_pos⟩

def frame (i : Nat) : DvrFrame :=
  { seq := 0x0b00 + i, tsMs := 47000000 + i * d.tick, keyframe := (d.unit i).2, au := (d.unit i).1 }

def script : Script :=
  { preamble := d.preamble, written := fun i => { frame := d.frame i, junk := d.junk (i + 1) } }

/-- What is left of the round after `sent` frames. -/
def Left (sent : Nat) (todo : List (Bytes × Bool)) : Prop :=
  ∃ k ≤ d.aus.length, todo = d.aus.drop k ∧ sent % d.aus.length = k % d.aus.length

/-- What has been written, by the number of frames sent. -/
inductive Wrote (pkt : Bytes) (s : SimSession) : Bytes → Prop
  | nothing : s.sent = 0 → s.seq = 0x0b00 → s.ts = 47000000 → (∀ todo, s.pc ≠ .waiting todo) →
      Wrote pkt s []
  | frames : 0 < s.sent → s.seq = 0x0b00 + s.sent → s.ts = 47000000 + s.sent * d.tick →
      s.pc ≠ .reading → (∀ todo, s.pc = .waiting todo → d.Left s.sent todo) →
      d.answers pkt = true →
      Wrote pkt s (d.preamble ++ d.script.between 0 s.sent)

/-- The iteration that comes next sends the unit that is up. -/
theorem sendFrame_left {s : SimSession} (hseq : s.seq = 0x0b00 + s.sent)
    (hts : s.ts = 47000000 + s.sent * d.tick) {k : Nat} (hk : k < d.aus.length)
    (hmod : s.sent % d.aus.length = k) :
    ((d.sendFrame s d.aus[k] (d.aus.drop (k + 1))).2 = (d.script.written s.sent).bytes) ∧
      (∀ todo, (d.sendFrame s d.aus[k] (d.aus.drop (k + 1))).1.pc = .waiting todo →
        d.Left (s.sent + 1) todo) := by
  have hunit : d.unit s.sent = d.aus[k] := by
    simp only [unit, List.get_eq_getElem, hmod]
  constructor
  · simp only [sendFrame, script, Written.bytes, DvrFrame.bytes, frame, hunit, hseq, hts]
  · intro todo ht
    simp only [sendFrame] at ht
    split at ht
    · cases ht
    · cases ht
      refine ⟨k + 1, hk, rfl, ?_⟩
      rw [← hmod, Nat.mod_add_mod]

/-- Every way on from what is left of a round. -/
theorem goOn_wrote {pkt w : Bytes} {s : SimSession} {todo : List (Bytes × Bool)}
    (hseq : s.seq = 0x0b00 + s.sent) (hts : s.ts = 47000000 + s.sent * d.tick)
    (hleft : d.Left s.sent todo) (ha : d.answers pkt = true)
    (hw : w = d.preamble ++ d.script.between 0 s.sent) (h0 : 0 < s.sent ∨ todo ≠ []) :
    d.Wrote pkt (d.goOn s todo).1 (w ++ (d.goOn s todo).2) := by
  -- one frame more, of the unit `k`
  have hsend {k : Nat} (hk : k < d.aus.length) (hmod : s.sent % d.aus.length = k) :
      d.Wrote pkt (d.sendFrame s d.aus[k] (d.aus.drop (k + 1))).1
        (w ++ (d.sendFrame s d.aus[k] (d.aus.drop (k + 1))).2) := by
    obtain ⟨hbytes, hnext⟩ := d.sendFrame_left hseq hts hk hmod
    have hall : w ++ (d.sendFrame s d.aus[k] (d.aus.drop (k + 1))).2 =
        d.preamble ++ d.script.between 0 (s.sent + 1) := by
      rw [hw, hbytes, d.script.between_snoc (Nat.zero_le _), List.append_assoc]
    rw [hall]
    refine .frames (Nat.succ_pos _) ?_ ?_ ?_ hnext ha
    · simp only [sendFrame, hseq]
      omega
    · simp only [sendFrame, hts]
      push_cast
      ring
    · simp only [sendFrame]
      split <;> simp
  obtain ⟨k, hk, rfl, hmod⟩ := hleft
  rcases Nat.lt_or_eq_of_le hk with hlt | rfl
  · rw [List.drop_eq_getElem_cons hlt]
    exact hsend hlt (hmod.trans (Nat.mod_eq_of_lt hlt))
  · rw [List.drop_length] at h0 ⊢
    have hpos := h0.resolve_right (fun h => h rfl)
    simp only [goOn]
    split
    · have hhead := d.aus_length_pos
      rw [List.head_eq_getElem, ← List.drop_one]
      exact hsend hhead (by rw [hmod, Nat.mod_self])
    · rw [List.append_nil, hw]
      exact .frames hpos hseq hts (by simp) (by simp) ha

theorem wrote_step {pkt w o : Bytes} {s s' : SimSession} {i : SimInput} (hw : d.Wrote pkt s w)
    (h : d.step pkt s i = some (s', o)) : d.Wrote pkt s' (w ++ o) := by
  -- the session ends, or falls silent, without a byte
  have hquiet {pc : SimPc} (hpc : ∀ todo, pc ≠ .waiting todo) (hread : pc ≠ .reading) :
      d.Wrote pkt { s with pc := pc } (w ++ []) := by
    rw [List.append_nil]
    cases hw with
    | nothing h0 hseq hts => exact .nothing h0 hseq hts hpc
    | frames hpos hseq hts _ _ ha =>
      exact .frames hpos hseq hts hread (fun todo ht => absurd ht (hpc todo)) ha
  cases i with
  | start =>
    obtain ⟨⟨hpc, -⟩, h⟩ := Option.ite_none_right_eq_some.mp h
    rw [Option.some.injEq, receive_eq] at h
    split_ifs at h with ha
    · cases h
      cases hw with
      | frames _ _ _ hread => exact absurd hpc hread
      | nothing h0 hseq hts _ =>
        have hleft : d.Left s.sent d.aus := ⟨0, Nat.zero_le _, rfl, by rw [h0]⟩
        have hnone : d.preamble = d.preamble ++ d.script.between 0 s.sent := by
          rw [h0, d.script.between_self, List.append_nil]
        exact d.goOn_wrote (by omega) (by simpa [h0] using hts) hleft ha hnone (.inr d.aus_ne_nil)
    all_goals
      cases h
      exact hquiet (by simp) (by simp)
  | given =>
    obtain ⟨-, h⟩ := Option.ite_none_right_eq_some.mp h
    cases h
    exact hquiet (by simp) (by simp)
  | next =>
    simp only [step] at h
    split at h
    · rename_i todo hpc
      rw [Option.some.injEq] at h
      cases hw with
      | nothing _ _ _ hno => exact absurd hpc (hno todo)
      | frames hpos hseq hts _ hleft ha =>
        have := d.goOn_wrote hseq hts (hleft todo hpc) ha rfl (.inl hpos)
        rwa [h] at this
    · cases h
      exact hquiet (by simp) (by simp)
    · cases h
  | lost =>
    obtain ⟨-, h⟩ := Option.ite_none_right_eq_some.mp h
    cases h
    exact hquiet (by simp) (by simp)

/-- A keyframe with its parameter set, and one frame more. -/
def twoUnits : FakeDvr :=
  { annexb := [0, 0, 1, 0x67, 1, 0, 0, 1, 0x65, 3, 0, 0, 1, 0x41, 4]
    preamble := [1, 2, 3]
    recorded := by decide }

end FakeDvr
end DvrBridge
