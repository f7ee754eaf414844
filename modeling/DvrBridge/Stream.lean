import DvrBridge.H264
import DvrBridge.TimestampMapper
import Mathlib.Data.List.Nodup

/-! One stream of the hub: its fields, the relay of one frame to the subscribers' queues
and the idle test. -/
namespace DvrBridge
open H264

structure VideoFrame where
  payload : Bytes
  tsMs : Option Int := none
  keyframe : Bool := false
  deriving DecidableEq

/-- The driver's metadata. -/
structure StreamInfo where
  width : Option Nat := none
  height : Option Nat := none
  deviceId : Option (List Char) := none
  firmware : Option (List Char) := none
  /-- `extra["channel_count"]` -/
  channelCount : Option Nat := none
  deriving DecidableEq

structure HubFrame where
  nals : List Bytes
  ts90k : Nat
  keyframe : Bool
  deriving DecidableEq

/-- `maxsize` of a subscriber's queue -/
def queueMax : Nat := 64

/-- `id` is the object's identity: subscribers live in a set. -/
structure Subscriber where
  id : Nat
  queue : List HubFrame := []
  waitingKey : Bool := true
  dropped : Nat := 0
  deriving DecidableEq

/-- The keyframe gate and `put_nowait` for one subscriber; whether the item was put. -/
def Subscriber.offer (item : HubFrame) (sub : Subscriber) : Subscriber × Bool :=
  if sub.waitingKey && !item.keyframe then (sub, false)
  else if sub.queue.length < queueMax then
    ({ sub with waitingKey := false, queue := sub.queue ++ [item] }, true)
  else
    -- slow client: drop everything until the next keyframe
    ({ sub with waitingKey := true, dropped := sub.dropped + 1 }, false)

namespace Subscriber
variable (item : HubFrame) (sub : Subscriber)

@[simp] theorem offer_id : (sub.offer item).1.id = sub.id := by
  unfold offer
  split_ifs <;> rfl

/-- What `offer` does: the item is put, or the subscriber waits for a keyframe, or its queue is
full and it waits from now on. -/
theorem offer_cases :
    (sub.offer item = ({ sub with waitingKey := false, queue := sub.queue ++ [item] }, true) ∧
      sub.queue.length < queueMax ∧ (sub.waitingKey = true → item.keyframe = true)) ∨
    (sub.offer item = (sub, false) ∧ sub.waitingKey = true ∧ item.keyframe = false) ∨
    (sub.offer item = ({ sub with waitingKey := true, dropped := sub.dropped + 1 }, false) ∧
      queueMax ≤ sub.queue.length) := by
  unfold offer
  split_ifs with hw hq
  · rw [Bool.and_eq_true, Bool.not_eq_true'] at hw
    exact Or.inr (Or.inl ⟨rfl, hw⟩)
  · refine Or.inl ⟨rfl, hq, fun h => ?_⟩
    cases hk : item.keyframe with
    | true => rfl
    | false => exact absurd (by simp [h, hk]) hw
  · exact Or.inr (Or.inr ⟨rfl, Nat.le_of_not_lt hq⟩)

end Subscriber

structure Stream where
  alwaysOn : Bool := false
  linger : ℚ := 10
  sps : Option Bytes := none
  pps : Option Bytes := none
  info : StreamInfo := {}
  framesRelayed : Nat := 0
  reconnects : Nat := 0
  subs : List Subscriber := []
  ready : Bool := false
  wake : Bool := false
  /-- the supervisor task that `_task` refers to -/
  task : Option Nat := none
  lastActivity : ℚ := 0

/-- Truth value of an optional byte string. -/
def truthy : Option Bytes → Bool
  | some (_ :: _) => true
  | _ => false

/-- `[n for n in iter_nals(payload) if n]` -/
def frameNals (payload : Bytes) : List Bytes := (iterNals payload).filter (· ≠ [])

/-- What was put for one relayed frame, and on which subscribers' queues. -/
structure Put where
  item : HubFrame
  took : List Nat
  deriving DecidableEq

namespace Stream

/-- The last parameter set of type `t` among the NALs, else the cached one. -/
def cacheSet (t : Int) (cached : Option Bytes) (nals : List Bytes) : Option Bytes :=
  nals.foldl (fun c n => if nalType n = t then some n else c) cached

def cacheSets (s : Stream) (nals : List Bytes) : Stream :=
  { s with sps := cacheSet nalSps s.sps nals, pps := cacheSet nalPps s.pps nals }

def setReady (s : Stream) : Stream :=
  { s with ready := s.ready || (truthy s.sps && truthy s.pps) }

/-- A decoder joining at this access unit has parameter sets. -/
def insertSets (s : Stream) (keyframe : Bool) (nals : List Bytes) : List Bytes :=
  if keyframe && truthy s.sps && truthy s.pps && !(nals.any (nalType · = nalSps)) then
    s.sps.getD [] :: s.pps.getD [] :: nals
  else nals

/-- `for sub in self._subs` -/
def fanOut (s : Stream) (item : HubFrame) : Stream × Put :=
  ({ s with subs := s.subs.map fun sub => (sub.offer item).1 },
    { item := item, took := (s.subs.filter fun sub => (sub.offer item).2).map (·.id) })

def onFrame (s : Stream) (payload : Bytes) (ts90k : Nat) (keyframe : Bool) :
    Stream × Option Put :=
  let nals := frameNals payload
  if nals = [] then (s, none)
  else
    let s := (s.cacheSets nals).setReady
    let s := { s with framesRelayed := s.framesRelayed + 1 }
    let r := s.fanOut ⟨s.insertSets keyframe nals, ts90k, keyframe⟩
    (r.1, some r.2)

def idleExpired (s : Stream) (now : ℚ) : Bool :=
  !s.alwaysOn && s.subs.isEmpty && decide (now - s.lastActivity > s.linger)

theorem not_subs_of_idleExpired {s : Stream} {now : ℚ} (h : s.idleExpired now = true) :
    s.subs = [] := by
  simp only [idleExpired, Bool.and_eq_true, List.isEmpty_iff] at h
  exact h.1.2

/-- What a frame with a NAL does, in one record. -/
theorem onFrame_relayed (s : Stream) (payload : Bytes) (ts90k : Nat) (keyframe : Bool)
    (h : frameNals payload ≠ []) :
    ∃ item : HubFrame,
      item.ts90k = ts90k ∧ item.keyframe = keyframe ∧
      item.nals = (s.cacheSets (frameNals payload)).insertSets keyframe (frameNals payload) ∧
      s.onFrame payload ts90k keyframe =
        ({ s with
            sps := cacheSet nalSps s.sps (frameNals payload)
            pps := cacheSet nalPps s.pps (frameNals payload)
            ready := s.ready || (truthy (cacheSet nalSps s.sps (frameNals payload)) &&
              truthy (cacheSet nalPps s.pps (frameNals payload)))
            framesRelayed := s.framesRelayed + 1
            subs := s.subs.map fun sub => (sub.offer item).1 },
          some { item := item
                 took := (s.subs.filter fun sub => (sub.offer item).2).map (·.id) }) := by
  refine ⟨⟨_, _, _⟩, rfl, rfl, rfl, ?_⟩
  simp only [onFrame, h, if_false]
  rfl

theorem onFrame_skipped (s : Stream) (payload : Bytes) (ts90k : Nat) (keyframe : Bool)
    (h : frameNals payload = []) : s.onFrame payload ts90k keyframe = (s, none) := by
  simp [onFrame, h]

@[simp] theorem fanOut_item (s : Stream) (item : HubFrame) : (s.fanOut item).2.item = item := rfl

theorem mem_took_iff {s : Stream} {item : HubFrame} {x : Nat} :
    x ∈ (s.fanOut item).2.took ↔
      ∃ sub ∈ s.subs, (sub.offer item).2 = true ∧ sub.id = x := by
  simp [Stream.fanOut, and_assoc]

theorem mem_took_iff_of_mem {s : Stream} (item : HubFrame) {sub : Subscriber}
    (hn : (s.subs.map (·.id)).Nodup) (hs : sub ∈ s.subs) :
    sub.id ∈ (s.fanOut item).2.took ↔ (sub.offer item).2 = true := by
  rw [mem_took_iff]
  constructor
  · rintro ⟨m, hm, ho, he⟩
    exact List.inj_on_of_nodup_map hn hm hs he ▸ ho
  · intro ho
    exact ⟨sub, hs, ho, rfl⟩

theorem fanOut_took_nodup {s : Stream} (item : HubFrame) (hn : (s.subs.map (·.id)).Nodup) :
    (s.fanOut item).2.took.Nodup :=
  (List.filter_sublist.map _).nodup hn

/-- `_on_frame` skips a frame, or offers one item to every subscriber. -/
theorem onFrame_fanOut (s : Stream) (payload : Bytes) (ts90k : Nat) (keyframe : Bool) :
    s.onFrame payload ts90k keyframe = (s, none) ∨
    ∃ item : HubFrame, item.keyframe = keyframe ∧
      (s.onFrame payload ts90k keyframe).1.subs = (s.fanOut item).1.subs ∧
      (s.onFrame payload ts90k keyframe).2 = some (s.fanOut item).2 := by
  simp only [Stream.onFrame]
  split
  · exact Or.inl rfl
  · refine Or.inr ⟨⟨_, _, _⟩, ?_, ?_, rfl⟩ <;> rfl

end Stream
end DvrBridge
