import DvrBridge.Admission
import DvrBridge.FakeDvr

/-! The simulated device with all its sockets: `_client` serves so many at a time. -/
namespace DvrBridge
open NetDvr3 Machine

structure SimServer where
  /-- the sessions, each with what its client sends; `_active` counts the live ones -/
  pool : Pool (Bytes × SimSession) := {}
  connectionsSeen : Nat := 0
  channelsRequested : List Nat := []

inductive SimServerInput where
  /-- `_client` of a socket starts -/
  | client (pkt : Bytes)
  | session (k : Nat) (i : SimInput)
  deriving DecidableEq

inductive SimServerOutput where
  /-- `writer.close()` of a socket too many -/
  | refused
  /-- a byte to the client of session `k` -/
  | wrote (k : Nat) (b : UInt8)
  deriving DecidableEq

namespace FakeDvr
variable (d : FakeDvr)

/-- A session with what its client sends. -/
def sessionStep : Step (Bytes × SimSession) SimInput UInt8 := fun c i =>
  (d.step c.1 c.2 i).map fun r => ((c.1, r.1), r.2)

def isClosed (c : Bytes × SimSession) : Bool := decide (c.2.pc = .closed)

/-- `self.channels_requested.append(channel)` -/
def requested (pkt : Bytes) : SimInput → List Nat
  | .start => if pkt.take 4 = be 4 0x48 then [(pkt.getD 73 0).toNat] else []
  | _ => []

/-- `most` is `max_connections`. -/
def serve (most : Int) (s : SimServer) : SimServerInput → Option (SimServer × List SimServerOutput)
  | .client pkt =>
    let s := { s with connectionsSeen := s.connectionsSeen + 1 }
    match s.pool.enter most (pkt, {}) with
    | none => some (s, [.refused])
    | some pool => some ({ s with pool := pool }, [])
  | .session k i =>
    s.pool.sessions[k]?.bind fun c => (s.pool.move d.sessionStep isClosed k i).map fun r =>
      ({ s with
          pool := r.1
          channelsRequested := s.channelsRequested ++ requested c.1 i },
        r.2.map (.wrote k))

/-- What has been written to the client of session `k`. -/
def toClient (k : Nat) (h : List SimServerOutput) : Bytes :=
  h.flatMap fun
    | .wrote j b => if j = k then [b] else []
    | .refused => []

theorem toClient_append (k : Nat) (h h' : List SimServerOutput) :
    toClient k (h ++ h') = toClient k h ++ toClient k h' := List.flatMap_append

theorem toClient_wrote (k j : Nat) (bs : Bytes) :
    toClient k (bs.map (.wrote j)) = if j = k then bs else [] := by
  rw [toClient, List.flatMap_map]
  split
  · rename_i he
    simp [he]
  · rename_i hne
    simp [hne]

/-- The sessions whose start packets have come in, in order. -/
def started (is : List SimServerInput) : List Nat :=
  is.filterMap fun
    | .session k .start => some k
    | _ => none

/-- The channel that the start packet of session `k` names. -/
def channelOf (s : SimServer) (k : Nat) : Option Nat :=
  s.pool.sessions[k]?.bind fun c =>
    if c.1.take 4 = be 4 0x48 then some (c.1.getD 73 0).toNat else none

/-- The channels on record are those that the start packets have channelOf, in their order. -/
structure Asked (is : List SimServerInput) (s : SimServer) : Prop where
  recorded : s.channelsRequested = (started is).filterMap (channelOf s)
  once : (started is).Nodup
  whole : ∀ k ∈ started is, ∃ c, s.pool.sessions[k]? = some c ∧ c.1.length = 76 ∧
    c.2.pc ≠ .reading

/-- What holds at any time of the run of a device. -/
structure Serves (most : Int) (s : SimServer) (h : List SimServerOutput) : Prop where
  sound : s.pool.Sound isClosed most
  wrote : s.pool.Keeps (fun c w => d.Wrote c.1 c.2 w) fun k => toClient k h
  seen : s.connectionsSeen = s.pool.sessions.length + h.count .refused

theorem closed_stays {c c' : Bytes × SimSession} {i : SimInput} {o : Bytes}
    (hc : isClosed c = true) (hs : d.sessionStep c i = some (c', o)) : isClosed c' = true := by
  obtain ⟨r, hr, -⟩ := Option.map_eq_some_iff.mp hs
  have hpc : c.2.pc = .closed := of_decide_eq_true hc
  cases i <;> simp [step, hpc] at hr

theorem count_wrote (k : Nat) (bs : Bytes) :
    (bs.map (SimServerOutput.wrote k)).count .refused = 0 :=
  List.count_eq_zero.mpr (by simp)

variable {d} in
theorem Serves.step {most : Int} {s s' : SimServer} {i : SimServerInput}
    {h o : List SimServerOutput} (hv : d.Serves most s h)
    (hs : d.serve most s i = some (s', o)) : d.Serves most s' (h ++ o) := by
  cases i with
  | client pkt =>
    simp only [serve] at hs
    split at hs
    · cases hs
      refine ⟨hv.sound, ?_, ?_⟩
      · simpa [toClient_append, toClient] using hv.wrote
      · rw [List.count_append, ← Nat.add_assoc, ← hv.seen]
        rfl
    · rename_i pool ha
      cases hs
      obtain ⟨-, rfl⟩ := Pool.enter_eq_some.mp ha
      have hfresh : d.Wrote pkt {} [] := .nothing rfl rfl rfl (by simp)
      refine ⟨hv.sound.enter rfl ha, ?_, ?_⟩
      · simpa [toClient_append, toClient] using hv.wrote.enter hfresh ha
      · simp only [List.append_nil, List.length_append, List.length_singleton, hv.seen]
        omega
  | session k i =>
    obtain ⟨c, hk, hs⟩ := Option.bind_eq_some_iff.mp hs
    obtain ⟨⟨pool, bs⟩, hm, he⟩ := Option.map_eq_some_iff.mp hs
    cases he
    obtain ⟨c₀, c', hk', hstep, rfl⟩ := Pool.move_eq_some.mp hm
    obtain rfl : c = c₀ := Option.some.inj (hk.symm.trans hk')
    obtain ⟨r, hr, he⟩ := Option.map_eq_some_iff.mp hstep
    cases he
    refine ⟨hv.sound.move (fun _ _ _ _ => d.closed_stays) hm, ?_, ?_⟩
    · refine hv.wrote.move hm ?_ ?_ fun j hj => ?_
      · rintro a a' - hw ha
        obtain ⟨⟨q, w⟩, hq, he⟩ := Option.map_eq_some_iff.mp ha
        cases he
        exact d.wrote_step hw hq
      · simp only [toClient_append, toClient_wrote, if_true]
      · simp only [toClient_append, toClient_wrote, if_neg hj, List.append_nil]
    · rw [List.count_append, count_wrote, Nat.add_zero, List.length_set]
      exact hv.seen

/-! The channels that were asked for. -/

theorem channelOf_congr {s s' : SimServer} {k : Nat}
    (h : (s'.pool.sessions[k]?).map Prod.fst = (s.pool.sessions[k]?).map Prod.fst) :
    channelOf s' k = channelOf s k := by
  have heq (s : SimServer) : channelOf s k = ((s.pool.sessions[k]?).map Prod.fst).bind fun pkt =>
      if pkt.take 4 = be 4 0x48 then some (pkt.getD 73 0).toNat else none := by
    rw [channelOf, Option.bind_map]
    rfl
  rw [heq, heq, h]

theorem goOn_pc (c : SimSession) (todo : List (Bytes × Bool)) :
    (d.goOn c todo).1.pc ≠ .reading := by
  unfold goOn sendFrame
  split
  · split_ifs <;> simp
  · split_ifs <;> simp

theorem receive_pc (c : SimSession) (pkt : Bytes) : (d.receive c pkt).1.pc ≠ .reading := by
  unfold receive
  split_ifs
  · simp
  · simp
  · simp
  · exact d.goOn_pc c d.aus

variable {d} in
/-- A session that has its start packet never reads one again. -/
theorem past_reading {pkt : Bytes} {c c' : SimSession} {i : SimInput} {o : Bytes}
    (hs : d.step pkt c i = some (c', o)) (hi : i = .start ∨ c.pc ≠ .reading) :
    c'.pc ≠ .reading := by
  have hafter {r : SimSession × Bytes} (hr : some r = some (c', o)) (hpc : r.1.pc ≠ .reading) :
      c'.pc ≠ .reading := by
    rw [Option.some.injEq] at hr
    rwa [hr] at hpc
  cases i with
  | start =>
    obtain ⟨-, he⟩ := Option.ite_none_right_eq_some.mp hs
    exact hafter he (d.receive_pc c pkt)
  | given | lost =>
    obtain ⟨-, he⟩ := Option.ite_none_right_eq_some.mp hs
    exact hafter he (by simp)
  | next =>
    simp only [step] at hs
    split at hs
    · exact hafter hs (d.goOn_pc c _)
    · exact hafter hs (by simp)
    · cases hs

theorem started_snoc (is : List SimServerInput) (i : SimServerInput) :
    started (is ++ [i]) = started is ++ started [i] := List.filterMap_append

variable {d} in
theorem Asked.step {most : Int} {s s' : SimServer} {is : List SimServerInput} {i : SimServerInput}
    {o : List SimServerOutput} (ha : Asked is s) (hs : d.serve most s i = some (s', o)) :
    Asked (is ++ [i]) s' := by
  -- what was asked before is asked still
  have hkeep (hold : ∀ (k : Nat) (c : Bytes × SimSession), s.pool.sessions[k]? = some c →
      ∃ c', s'.pool.sessions[k]? = some c' ∧ c'.1 = c.1 ∧
        (c.2.pc ≠ .reading → c'.2.pc ≠ .reading)) :
      (started is).filterMap (channelOf s') = s.channelsRequested ∧
        ∀ k ∈ started is, ∃ c, s'.pool.sessions[k]? = some c ∧ c.1.length = 76 ∧
          c.2.pc ≠ .reading := by
    refine ⟨?_, fun k hk => ?_⟩
    · rw [ha.recorded]
      refine List.filterMap_congr fun k hk => channelOf_congr ?_
      obtain ⟨c, hc, -⟩ := ha.whole k hk
      obtain ⟨c', hc', he, -⟩ := hold k c hc
      rw [hc, hc', Option.map_some, Option.map_some, he]
    · obtain ⟨c, hc, hlen, hpc⟩ := ha.whole k hk
      obtain ⟨c', hc', he, hpc'⟩ := hold k c hc
      exact ⟨c', hc', he ▸ hlen, hpc' hpc⟩
  have hquiet (hnone : started [i] = []) (hch : s'.channelsRequested = s.channelsRequested)
      (hold : ∀ (k : Nat) (c : Bytes × SimSession), s.pool.sessions[k]? = some c →
        ∃ c', s'.pool.sessions[k]? = some c' ∧ c'.1 = c.1 ∧
          (c.2.pc ≠ .reading → c'.2.pc ≠ .reading)) : Asked (is ++ [i]) s' := by
    obtain ⟨hrec, hwhole⟩ := hkeep hold
    have hsame : started (is ++ [i]) = started is := by rw [started_snoc, hnone, List.append_nil]
    exact ⟨by rw [hsame, hrec, hch], hsame ▸ ha.once, hsame ▸ hwhole⟩
  cases i with
  | client pkt =>
    simp only [serve] at hs
    split at hs
    · cases hs
      exact hquiet rfl rfl fun k c hc => ⟨c, hc, rfl, id⟩
    · rename_i pool hp
      cases hs
      obtain ⟨-, rfl⟩ := Pool.enter_eq_some.mp hp
      refine hquiet rfl rfl fun k c hc => ⟨c, ?_, rfl, id⟩
      exact (List.getElem?_append_left (List.getElem?_eq_some_iff.mp hc).1).trans hc
  | session k i =>
    obtain ⟨c, hk, hs⟩ := Option.bind_eq_some_iff.mp hs
    obtain ⟨⟨pool, bs⟩, hm, he⟩ := Option.map_eq_some_iff.mp hs
    cases he
    obtain ⟨c₀, c', hk', hstep, rfl⟩ := Pool.move_eq_some.mp hm
    obtain rfl : c = c₀ := Option.some.inj (hk.symm.trans hk')
    obtain ⟨r, hr, he⟩ := Option.map_eq_some_iff.mp hstep
    cases he
    have hself : (s.pool.sessions.set k (c.1, r.1))[k]? = some (c.1, r.1) :=
      List.getElem?_set_self (List.getElem?_eq_some_iff.mp hk).1
    have hold (j : Nat) (a : Bytes × SimSession) (hj : s.pool.sessions[j]? = some a) :
        ∃ a', (s.pool.sessions.set k (c.1, r.1))[j]? = some a' ∧ a'.1 = a.1 ∧
          (a.2.pc ≠ .reading → a'.2.pc ≠ .reading) := by
      by_cases hkj : k = j
      · subst hkj
        obtain rfl : c = a := Option.some.inj (hk.symm.trans hj)
        exact ⟨_, hself, rfl, fun hpc => past_reading hr (.inr hpc)⟩
      · exact ⟨a, (List.getElem?_set_ne hkj).trans hj, rfl, id⟩
    by_cases hi : i = .start
    · subst hi
      obtain ⟨hrec, hwhole⟩ := hkeep hold
      obtain ⟨⟨hpc, hlen⟩, -⟩ := Option.ite_none_right_eq_some.mp hr
      have hone : started [.session k .start] = [k] := rfl
      refine ⟨?_, ?_, ?_⟩
      · have hchannel : [k].filterMap (channelOf
            { s with
              pool := ⟨s.pool.sessions.set k (c.1, r.1),
                if isClosed (c.1, r.1) = true then s.pool.live.erase k else s.pool.live⟩
              channelsRequested := s.channelsRequested ++ requested c.1 .start }) =
            requested c.1 .start := by
          rw [List.filterMap_cons, List.filterMap_nil, channelOf, hself, Option.bind_some,
            requested]
          split_ifs <;> rfl
        rw [started_snoc, hone, List.filterMap_append, hrec, hchannel]
      · rw [started_snoc, hone]
        refine List.nodup_append.mpr ⟨ha.once, List.nodup_singleton k, fun j hj m hm he => ?_⟩
        rw [List.mem_singleton] at hm
        subst hm he
        obtain ⟨a, haj, -, hne⟩ := ha.whole j hj
        rw [hk, Option.some.injEq] at haj
        exact hne (haj ▸ hpc)
      · intro j hj
        rw [started_snoc, hone, List.mem_append, List.mem_singleton] at hj
        rcases hj with hj | rfl
        · exact hwhole j hj
        · exact ⟨_, hself, hlen, past_reading hr (.inl rfl)⟩
    · have hnone : started [.session k i] = [] ∧ requested c.1 i = [] := by
        cases i with
        | start => exact absurd rfl hi
        | given | next | lost => exact ⟨rfl, rfl⟩
      exact hquiet hnone.1 (by simp [hnone.2]) hold

/-- The simulated device under load. However many sockets are opened and in whatever order they get
on, at most `max_connections` are served at a time, every other one is refused, the channels that
the start packets name are put on record in their order, and each client that is served gets a part
of the recording of its own, from the preamble on, if its start packet is accepted, and nothing
otherwise. -/
theorem serves_all (d : FakeDvr) (most : Int) (is : List SimServerInput) (s : SimServer)
    (h : List SimServerOutput) (hr : run (d.serve most) {} is = some (s, h)) :
    (s.pool.live.length : Int) ≤ max most 0 ∧ s.pool.live.Nodup ∧
    (∀ k, k ∈ s.pool.live ↔ ∃ c, s.pool.sessions[k]? = some c ∧ c.2.pc ≠ .closed) ∧
    s.connectionsSeen = s.pool.sessions.length + h.count .refused ∧ Asked is s ∧
    ∀ k c, s.pool.sessions[k]? = some c →
      (c.2.sent = 0 ∧ toClient k h = []) ∨
      (0 < c.2.sent ∧ d.answers c.1 = true ∧
        toClient k h = d.preamble ++ d.script.between 0 c.2.sent) := by
  have hv : d.Serves most s h := by
    refine run_invariant' (d.Serves most) ?_ (fun s h i s' o hv hs => hv.step hs) hr
    exact ⟨Pool.sound_empty _ _, Pool.keeps_empty _, rfl⟩
  have hasked : Asked is s := by
    refine run_invariant_inputs (fun s is _ => Asked is s) ⟨rfl, List.nodup_nil, by simp [started]⟩
      (fun s is h i s' o ha hs => ha.step hs) hr
  refine ⟨hv.sound.bound, hv.sound.nodup, fun k => ?_, hv.seen, hasked, fun k c hk => ?_⟩
  · rw [hv.sound.mem k]
    simp [isClosed]
  · have hw := hv.wrote.inv k c hk
    generalize toClient k h = w at hw
    cases hw with
    | nothing h0 => exact .inl ⟨h0, rfl⟩
    | frames hpos _ _ _ _ ha => exact .inr ⟨hpos, ha, rfl⟩

/-- Two clients where one is served, and a third once it has left. -/
def twoClients : List SimServerInput :=
  [.client (be 4 0x48 ++ List.replicate 72 0), .client [], .session 0 .start, .session 0 .next,
    .session 0 .lost, .client []]

theorem twoClients_run : ((run (({ twoUnits with rejectCredentials := false } : FakeDvr).serve 1) {}
    twoClients).map fun r => (r.1.pool.live, r.1.connectionsSeen, r.1.channelsRequested,
      r.1.pool.sessions.map (·.2.sent))) = some ([1], 3, [0], [2, 0]) := by
  decide +kernel

theorem serves_all_twoClients : ∃ s h,
    run (({ twoUnits with rejectCredentials := false } : FakeDvr).serve 1) {} twoClients =
      some (s, h) ∧ s.pool.live = [1] ∧ 3 = 2 + h.count .refused ∧ Asked twoClients s ∧
    s.channelsRequested = [0] := by
  obtain ⟨⟨s, h⟩, hr, he⟩ := Option.map_eq_some_iff.mp twoClients_run
  simp only [Prod.mk.injEq] at he
  obtain ⟨hlive, hseen, hchannels, hsent⟩ := he
  obtain ⟨-, -, -, hcount, hasked, -⟩ := serves_all _ 1 twoClients s h hr
  have hlen : s.pool.sessions.length = 2 := by simpa using congrArg List.length hsent
  rw [hseen, hlen] at hcount
  exact ⟨s, h, hr, hlive, hcount, hasked, hchannels⟩

end FakeDvr
end DvrBridge
