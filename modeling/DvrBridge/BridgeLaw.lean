import DvrBridge.Bridge
import Mathlib.Data.List.Forall2

/-! The bridge law: what an RTSP client gets of the recording that the devices play. -/
namespace DvrBridge
open H264 NetDvr3 Machine

/-! Tagged sequences: each tag counts through one and the same sequence. -/

section Numbering
variable {α : Type*}

/-- The elements with tag `n`. -/
def tagged (n : Nat) (l : List (Nat × α)) : List α := (l.filter fun p => p.1 = n).map (·.2)

theorem tagged_append (n : Nat) (l l' : List (Nat × α)) :
    tagged n (l ++ l') = tagged n l ++ tagged n l' := by
  rw [tagged, List.filter_append, List.map_append, tagged, tagged]

theorem tagged_singleton (n : Nat) (p : Nat × α) : tagged n [p] = if p.1 = n then [p.2] else [] := by
  by_cases h : p.1 = n <;> simp [tagged, h]

theorem tagged_map {β : Type*} (n : Nat) (g : α → β) (l : List (Nat × α)) :
    tagged n (l.map fun p => (p.1, g p.2)) = (tagged n l).map g := by
  simp only [tagged, List.filter_map, List.map_map]
  rfl

/-- When the elements with one tag are the beginning of one sequence, they can be counted. -/
theorem exists_numbering (g : Nat → α) (l : List (Nat × α))
    (h : ∀ n, ∃ m, tagged n l = (List.range m).map g) :
    ∃ idx : List (Nat × Nat), l = idx.map (fun p => (p.1, g p.2)) ∧
      ∀ n, ∃ m, tagged n idx = List.range m := by
  induction l using List.reverseRecOn with
  | nil => exact ⟨[], rfl, fun n => ⟨0, rfl⟩⟩
  | append_singleton l p ih =>
    have hprev : ∀ n, ∃ m, tagged n l = (List.range m).map g := by
      intro n
      obtain ⟨m, hm⟩ := h n
      rw [tagged_append] at hm
      have hpre := congrArg (List.take (tagged n l).length) hm
      rw [List.take_left, ← List.map_take, List.take_range] at hpre
      exact ⟨_, hpre⟩
    obtain ⟨idx, hl, hcount⟩ := ih hprev
    obtain ⟨m, hm⟩ := h p.1
    obtain ⟨c, hc⟩ := hcount p.1
    have hold : tagged p.1 l = (List.range c).map g := by rw [hl, tagged_map, hc]
    rw [tagged_append, tagged_singleton, if_pos rfl, hold] at hm
    have hlen : m = c + 1 := by simpa using (congrArg List.length hm).symm
    rw [hlen, List.range_succ, List.map_append] at hm
    have hlast : p.2 = g c := by simpa using List.append_cancel_left hm
    refine ⟨idx ++ [(p.1, c)], ?_, fun n => ?_⟩
    · rw [List.map_append, ← hl, List.map_singleton, ← hlast]
    · rw [tagged_append, tagged_singleton]
      by_cases hn : p.1 = n
      · subst hn
        exact ⟨c + 1, by rw [if_pos rfl, hc, List.range_succ]⟩
      · obtain ⟨e, he⟩ := hcount n
        exact ⟨e, by rw [if_neg hn, he, List.append_nil]⟩

end Numbering

namespace FakeDvr
variable (d : FakeDvr)

/-- What a client may see of unit `i`: its NALs, with parameter sets of the recording in front of a
keyframe. -/
def Shows (i : Nat) (u : List Bytes) : Prop :=
  u = iterNals (d.unit i).1 ∨
    ((d.unit i).2 = true ∧ ∃ sps ∈ iterNals d.annexb, ∃ pps ∈ iterNals d.annexb,
      nalType sps = nalSps ∧ nalType pps = nalPps ∧ u = sps :: pps :: iterNals (d.unit i).1)

theorem frameNals_video (i : Nat) : frameNals (d.video i).payload = iterNals (d.unit i).1 := by
  refine List.filter_eq_self.mpr fun n hn => ?_
  simpa using ne_nil_of_mem_iterNals _ _ hn

/-- The NALs of the units are those of the recording. -/
theorem mem_recording {i : Nat} {n : Bytes} (h : n ∈ iterNals (d.unit i).1) :
    n ∈ iterNals d.annexb := by
  obtain ⟨groups, rest, he, -, -, haus, hnals, -⟩ := splitAccessUnits_groups d.annexb
  have hu := d.unit_mem i
  rw [aus, haus, List.mem_map] at hu
  obtain ⟨g, hg, hgu⟩ := hu
  rw [← hgu, hnals g hg] at h
  rw [he]
  exact List.mem_append_left _ (List.mem_flatMap.mpr ⟨g, hg, h⟩)

theorem unit_nals_ne_nil (i : Nat) : iterNals (d.unit i).1 ≠ [] := by
  obtain ⟨g, -, -, hn⟩ := d.exists_group (d.unit_mem i)
  simp [hn, Group.nals]

theorem proper_video (htypes : ∀ n ∈ iterNals d.annexb, 1 ≤ nalType n ∧ nalType n ≤ 23) (i : Nat) :
    (d.video i).Proper := by
  intro n hn
  rw [d.frameNals_video] at hn
  exact htypes n (d.mem_recording hn)

theorem mem_of_latest {t : Int} {nals : List Bytes} {n : Bytes} (h : latest t nals = some n) :
    n ∈ nals :=
  List.mem_of_mem_filter (List.mem_of_getLast? h)

theorem shows_of_accessUnit {past u : List Bytes} {i : Nat} (h : AccessUnit past (d.video i) u)
    (hp : ∀ n ∈ past, n ∈ iterNals d.annexb) : d.Shows i u := by
  have hmem : ∀ n ∈ past ++ frameNals (d.video i).payload, n ∈ iterNals d.annexb := by
    intro n hn
    rw [d.frameNals_video] at hn
    rcases List.mem_append.mp hn with hn | hn
    · exact hp n hn
    · exact d.mem_recording hn
  cases h with
  | own => exact .inl (d.frameNals_video i)
  | @withSets sps pps hk _ hs hp =>
    exact .inr ⟨hk, sps, hmem sps (mem_of_latest hs), pps, hmem pps (mem_of_latest hp),
      nalType_of_latest hs, nalType_of_latest hp, by rw [d.frameNals_video]⟩

/-- Relayed units of the recording. -/
theorem shows_of_relays {past : List Bytes} {is : List Nat} {items : List HubFrame}
    (h : Relays past (is.map d.video) items) (hp : ∀ n ∈ past, n ∈ iterNals d.annexb) :
    List.Forall₂ d.Shows is (items.map (·.nals)) := by
  induction is generalizing past items with
  | nil =>
    cases h
    exact .nil
  | cons i is ih =>
    cases h with
    | cons _ _ hu hrest =>
      refine .cons (d.shows_of_accessUnit hu hp) (ih hrest fun n hn => ?_)
      rw [d.frameNals_video] at hn
      exact (List.mem_append.mp hn).elim (hp n) d.mem_recording

end FakeDvr

namespace System
open World

/-- What a client has got at any time of a session. -/
theorem Session.received {name : Str} {n : Nat} {ch : Int} {s : System} {h₁ h : List SystemOutput}
    (hs : Session name n ch (h₁ ++ [.conn (.subscribe name n)]) s h) :
    ∃ session aus rest,
      Client.receive (Conn.wire (connOf (h₁ ++ [.conn (.subscribe name n)] ++ h))) =
        some (Conn.parts (connOf h₁) ++ session) ∧
      Depacketizer.feedAll {} (Client.packetsOn ch.toNat session) = some { units := aus } ∧
      (shown h).map (·.nals) = aus ++ rest ∧
      (.closeWriter ∉ connOf h₁ → session = Conn.parts (connOf h) ∧
        ∀ sub ∈ s.world.stream.subs, sub.id = n →
          rest.length = s.conn.inHand + sub.queue.length) := by
  obtain ⟨aus, rest, hrec, hshown, hrest⟩ := hs.waiting
  have hparts : Conn.parts (connOf (h₁ ++ [.conn (.subscribe name n)])) =
      Conn.parts (connOf h₁) := by
    rw [connOf_append, Conn.parts_append]
    split
    · rw [List.append_nil]
    · simp [Conn.parts, Conn.sent, Conn.messages, connOf]
  have hmem : .closeWriter ∈ connOf (h₁ ++ [.conn (.subscribe name n)]) ↔
      .closeWriter ∈ connOf h₁ := by
    rw [connOf_append, List.mem_append]
    simp [connOf]
  have hrecv := Conn.receive_wire hs.sound.clean
  rw [connOf_append, Conn.parts_append, hparts] at hrecv
  rw [connOf_append]
  by_cases hclosed : .closeWriter ∈ connOf h₁
  · rw [if_pos (hmem.mpr hclosed)] at hrecv
    exact ⟨[], [], (shown h).map (·.nals), hrecv, rfl, rfl, fun hn => absurd hclosed hn⟩
  · rw [if_neg fun hm => hclosed (hmem.mp hm)] at hrecv
    exact ⟨_, aus, rest, hrecv, hrec, hshown, fun _ => ⟨rfl, hrest⟩⟩

end System

namespace Bridge
open DvrBridge.System
variable {d : FakeDvr} {pkt : Bytes} {srv : Server} {name : Str} {b b' : Bridge} {i : BridgeInput}
  {h o : List BridgeOutput}

/-! The parts of a step. -/

/-- The frames in an input. -/
def given : SystemInput → List VideoFrame
  | .hub i => delivered i
  | _ => []

@[simp] theorem handedOver_append (h h' : List SystemOutput) :
    handedOver (h ++ h') = handedOver h ++ handedOver h' := List.filterMap_append

theorem handedOver_step {s s' : System} {j : SystemInput} {o : List SystemOutput}
    (hs : s.step srv name j = some (s', o)) : handedOver o = given j := by
  have hhub (o : List World.FanOutput) : handedOver (o.map .hub) = [] := by
    simp [handedOver, List.filterMap_map]
  have hconn (es : List Effect) : handedOver (es.map .conn) = [] := by
    simp [handedOver, List.filterMap_map]
  cases System.step_inv hs with
  | hub =>
    rw [handedOver_append, hhub, List.append_nil, handedOver, List.filterMap_map]
    exact List.filterMap_some
  | conn => exact hconn _
  | get => rw [handedOver_append, hhub, hconn, List.append_nil]; rfl

theorem frames_eq (h : List SystemOutput) :
    frames h = (handedOver h).filter fun f => frameNals f.payload ≠ [] := by
  induction h with
  | nil => rfl
  | cons o h ih =>
    have hf : frames (o :: h) = frames [o] ++ frames h := frames_append [o] h
    have hh : handedOver (o :: h) = handedOver [o] ++ handedOver h := handedOver_append [o] h
    rw [hf, hh, List.filter_append, ih]
    congr 1
    cases o with
    | delivered f => by_cases hn : frameNals f.payload = [] <;> simp [frames, handedOver, hn]
    | hub | conn => rfl

/-- What a step does to the stream and the connection. -/
theorem sys_step (hs : b.step d pkt srv name i = some (b', o)) :
    (b'.sys = b.sys ∧ systemOf o = []) ∨
      ∃ j, b.sys.step srv name j = some (b'.sys, systemOf o) ∧ (i.Read → j.Read) := by
  have hhub (j : Input) : SystemInput.Read (.hub j) := trivial
  have hcons (n : Nat) (p : ParserOutput) (os : List SystemOutput) :
      systemOf (.line n p :: os.map .system) = os :=
    (systemOf_append [.line n p] (os.map .system)).trans (systemOf_system os)
  cases step_inv hs with
  | system _ hj => exact .inr ⟨_, by rw [systemOf_system]; exact hj, id⟩
  | device | silent => exact .inl ⟨rfl, rfl⟩
  | yields _ _ hj => exact .inr ⟨_, by rw [hcons]; exact hj, fun _ => hhub _⟩
  | raises _ _ hj => exact .inr ⟨_, by rw [hcons]; exact hj, fun _ => hhub _⟩
  | lost hj => exact .inr ⟨_, by rw [systemOf_system]; exact hj, fun _ => hhub _⟩

/-- What a step does to the connection of driver `n`. -/
theorem line_step (n : Nat) (hs : b.step d pkt srv name i = some (b', o)) :
    (b'.lines n = b.lines n ∧ o.flatMap (ofLine n) = []) ∨
      ∃ j, d.dialogue pkt (b.lines n) j = some (b'.lines n, o.flatMap (ofLine n)) := by
  -- driver `m` takes a step of its own
  have hmove {m : Nat} {j : DialogueInput} {l : Dialogue} {ps : List ParserOutput}
      (os : List SystemOutput) (hd : d.dialogue pkt (b.lines m) j = some (l, ps)) :
      (Function.update b.lines m l n = b.lines n ∧
        (ps.map (BridgeOutput.line m) ++ os.map BridgeOutput.system).flatMap (ofLine n) = []) ∨
      ∃ j, d.dialogue pkt (b.lines n) j = some (Function.update b.lines m l n,
        (ps.map (BridgeOutput.line m) ++ os.map BridgeOutput.system).flatMap (ofLine n)) := by
    rw [List.flatMap_append, ofLine_line, ofLine_system, List.append_nil]
    by_cases hm : m = n
    · subst hm
      exact .inr ⟨j, by rw [Function.update_self, if_pos rfl, hd]⟩
    · exact .inl ⟨Function.update_of_ne (Ne.symm hm) _ _, if_neg hm⟩
  cases step_inv hs with
  | system | lost => exact .inl ⟨rfl, ofLine_system n _⟩
  | device hd => exact hmove [] hd
  | silent _ hd => exact hmove [] hd
  | yields _ hd => exact hmove _ hd
  | raises _ hd => exact hmove _ hd

/-- The frames that are handed over are the ones that the drivers yield. -/
theorem handed_step (hs : b.step d pkt srv name i = some (b', o)) :
    handedOver (systemOf o) = (yields o).map (·.2) := by
  have hcons (n : Nat) (p : ParserOutput) (os : List SystemOutput) :
      systemOf (.line n p :: os.map .system) = os ∧
        yields (.line n p :: os.map .system) = yields [.line n p] :=
    ⟨(systemOf_append [.line n p] (os.map .system)).trans (systemOf_system os),
      (yields_append [.line n p] (os.map .system)).trans (by rw [yields_system, List.append_nil])⟩
  cases step_inv hs with
  | @system j s o hf hj =>
    rw [systemOf_system, yields_system, handedOver_step hj]
    unfold given delivered
    split
    · split
      · cases hf
      · rfl
    · rfl
  | device | silent => rfl
  | yields _ _ hj => rw [(hcons ..).1, (hcons ..).2, handedOver_step hj]; rfl
  | raises _ _ hj => rw [(hcons ..).1, (hcons ..).2, handedOver_step hj]; rfl
  | lost hj => rw [systemOf_system, yields_system, handedOver_step hj]; rfl

/-! The runs. -/

theorem handedOver_run {is : List BridgeInput} (hr : run (step d pkt srv name) b is = some (b', h)) :
    handedOver (systemOf h) = (yields h).map (·.2) := by
  refine run_invariant' (fun _ h => handedOver (systemOf h) = (yields h).map (·.2)) rfl ?_ hr
  rintro b h i b' o hh hs
  rw [systemOf_append, handedOver_append, yields_append, List.map_append, hh, handed_step hs]

/-- What the driver with number `n` has yielded. -/
theorem tagged_yields (n : Nat) (h : List BridgeOutput) :
    tagged n (yields h) = (h.flatMap (ofLine n)).filterMap fun
      | .frame f => some f
      | .raised => none := by
  induction h with
  | nil => rfl
  | cons o h ih =>
    rw [← List.singleton_append, yields_append, tagged_append, List.flatMap_append,
      List.filterMap_append, ih]
    congr 1
    cases o with
    | system o => rfl
    | line m p =>
      by_cases hm : m = n <;> cases p <;> simp [yields, tagged, ofLine, hm]

/-- Each driver yields the units of the recording from the beginning. -/
theorem tagged_run (hf : d.Framed) (hclear : ∀ k, d.junk k = []) {alwaysOn : Bool} {linger : ℚ}
    {peer : Option Str} {ssrc : Nat} {is : List BridgeInput}
    (hr : run (step d pkt srv name) (fresh alwaysOn linger peer ssrc) is = some (b, h)) (n : Nat) :
    ∃ m, tagged n (yields h) = (List.range m).map d.video := by
  obtain ⟨js, hjs⟩ := run_component (fun b : Bridge => b.lines n) (ofLine n)
    (fun b i b' o hs => line_step n hs) hr
  obtain ⟨hp, -⟩ := d.run_plays hjs (d.readable_of_clear hf hclear _)
  obtain ⟨m, -, -, hout⟩ := d.plays_out hp
  refine ⟨m, ?_⟩
  rw [tagged_yields, hout, d.map_kept_of_clear hclear, List.filterMap_append, List.filterMap_map]
  have hend : (if (b.lines n).feed.parser.pc = .raised then [ParserOutput.raised] else []).filterMap
      (fun | .frame f => some f | .raised => none) = ([] : List VideoFrame) := by
    split <;> rfl
  rw [hend, List.append_nil]
  exact congrFun List.filterMap_eq_map _

theorem sound_run {alwaysOn : Bool} {linger : ℚ} {peer : Option Str} {ssrc : Nat}
    {is : List BridgeInput} (hread : ∀ i ∈ is, i.Read)
    (hr : run (step d pkt srv name) (fresh alwaysOn linger peer ssrc) is = some (b, h)) :
    b.sys.Sound (systemOf h) := by
  refine run_invariant (Q := fun _ _ i _ _ => i.Read) (fun b h => b.sys.Sound (systemOf h))
    (sound_fresh alwaysOn linger peer ssrc) ?_ (everyStep_of_forall_mem hread) hr
  intro b h i b' o hs hstep hi
  rw [systemOf_append]
  rcases sys_step hstep with ⟨he, ho⟩ | ⟨j, hj, hread⟩
  · rw [he, ho, List.append_nil]
    exact hs
  · exact hs.step hj (hread hi)

section
variable {n : Nat} {ch : Int} {h₀ : List SystemOutput}

/-- The step of the bridge that subscribes. -/
theorem session_begins (hs : b.sys.Sound (systemOf h)) (hi : i.Read)
    (hstep : b.step d pkt srv name i = some (b', [.system (.conn (.subscribe name n))])) {hi' : Int}
    (hch : b'.sys.conn.interleaved = some (ch, hi')) :
    Session name n ch (systemOf h ++ [.conn (.subscribe name n)]) b'.sys [] := by
  rcases sys_step hstep with ⟨-, ho⟩ | ⟨j, hj, hread⟩
  · cases ho
  · exact hs.session hj (hread hi) hch

/-- The step lemma of a session. -/
theorem session_step (hs : Session name n ch h₀ b.sys (systemOf h))
    (hstep : b.step d pkt srv name i = some (b', o)) (hi : i.Read)
    (hno : ∀ x m, .conn (.subscribe x m) ∉ systemOf o) (hf : ∀ f ∈ frames (systemOf h), f.Proper)
    (hfull : NeverFull n b'.sys.world) :
    Session name n ch h₀ b'.sys (systemOf (h ++ o)) := by
  rw [systemOf_append]
  rcases sys_step hstep with ⟨he, ho⟩ | ⟨j, hj, hread⟩
  · rw [he, ho, List.append_nil]
    exact hs
  · exact hs.step hj (hread hi) hno hf hfull

end

theorem mem_systemOf {o : SystemOutput} : o ∈ systemOf h ↔ .system o ∈ h := by
  simp only [systemOf, List.mem_flatMap]
  constructor
  · rintro ⟨a, ha, hm⟩
    cases a with
    | system b => exact List.mem_singleton.mp hm ▸ ha
    | line => cases hm
  · exact fun hm => ⟨_, hm, List.mem_singleton_self o⟩

/-- The relayed frames, as units of the recording. -/
theorem frames_of_numbering {idx : List (Nat × Nat)}
    (hh : handedOver (systemOf h) = (yields h).map (·.2))
    (hi : yields h = idx.map fun p => (p.1, d.video p.2)) :
    frames (systemOf h) = (idx.map (·.2)).map d.video := by
  rw [frames_eq, hh, hi, List.map_map, List.map_map]
  refine List.filter_eq_self.mpr fun f hf => ?_
  obtain ⟨p, -, rfl⟩ := List.mem_map.mp hf
  simpa [d.frameNals_video] using d.unit_nals_ne_nil p.2

theorem mem_nalsOf_video {is : List Nat} {u : Bytes} (hu : u ∈ nalsOf (is.map d.video)) :
    u ∈ iterNals d.annexb := by
  obtain ⟨f, hf, hu⟩ := List.mem_flatMap.mp hu
  obtain ⟨i, -, rfl⟩ := List.mem_map.mp hf
  rw [d.frameNals_video] at hu
  exact d.mem_recording hu

/-- The units of a sequence of frames from the first keyframe on. -/
def fromKey (d : FakeDvr) (idx : List (Nat × Nat)) : List Nat :=
  (idx.map (·.2)).dropWhile fun i => !(d.unit i).2

/-- The bridge law. Devices play a recording without garbage to the drivers of a stream; an RTSP
client plays the stream over an interleaved connection. In whatever order the devices, the drivers,
the supervisor, the other users of the stream and the connection take their steps: each driver
yields the units of the recording in order from the first, and the client gets, among the answers to
its requests, the units yielded since its PLAY from the first keyframe on, each as it is recorded,
or with parameter sets of the recording in front of a keyframe. While the subscriber is there, what is
missing at the end waits on its queue or in the hands of the pump. -/
theorem bridge_copies (d : FakeDvr) (hf : d.Framed) (hclear : ∀ k, d.junk k = [])
    (htypes : ∀ u ∈ iterNals d.annexb, 1 ≤ nalType u ∧ nalType u ≤ 23) (pkt : Bytes)
    (srv : Server) (name : Str) (alwaysOn : Bool) (linger : ℚ) (peer : Option Str) (ssrc : Nat)
    (is₁ is₂ : List BridgeInput) (i : BridgeInput) (b₀ b₁ b₂ : Bridge) (h₁ h₂ : List BridgeOutput)
    (n : Nat) (ch hi : Int)
    (hr₁ : run (step d pkt srv name) (fresh alwaysOn linger peer ssrc) is₁ = some (b₀, h₁))
    (hsub : b₀.step d pkt srv name i = some (b₁, [.system (.conn (.subscribe name n))]))
    (hch : b₁.sys.conn.interleaved = some (ch, hi))
    (hr₂ : run (step d pkt srv name) b₁ is₂ = some (b₂, h₂))
    (hread : ∀ j ∈ is₁ ++ i :: is₂, j.Read)
    (hone : ∀ x m, .system (.conn (.subscribe x m)) ∉ h₂)
    (hfull : EveryStep (step d pkt srv name) (fun _ _ _ b _ => NeverFull n b.sys.world) b₁ is₂) :
    ∃ before idx session aus,
      yields h₁ = before.map (fun p => (p.1, d.video p.2)) ∧
      yields h₂ = idx.map (fun p => (p.1, d.video p.2)) ∧
      (∀ m, ∃ c, tagged m (before ++ idx) = List.range c) ∧
      Client.receive (Conn.wire (connOf (systemOf
          (h₁ ++ [.system (.conn (.subscribe name n))] ++ h₂)))) =
        some (Conn.parts (connOf (systemOf h₁)) ++ session) ∧
      Depacketizer.feedAll {} (Client.packetsOn ch.toNat session) = some { units := aus } ∧
      List.Forall₂ d.Shows ((fromKey d idx).take aus.length) aus ∧
      (.closeWriter ∉ connOf (systemOf h₁) → session = Conn.parts (connOf (systemOf h₂)) ∧
        ∀ sub ∈ b₂.sys.world.stream.subs, sub.id = n →
          (fromKey d idx).length = aus.length + b₂.sys.conn.inHand + sub.queue.length) := by
  -- the frames, by their numbers
  have hrun : run (step d pkt srv name) (fresh alwaysOn linger peer ssrc) (is₁ ++ i :: is₂) =
      some (b₂, h₁ ++ ([.system (.conn (.subscribe name n))] ++ h₂)) :=
    (run_append_iff ..).mpr ⟨b₀, h₁, _, hr₁, (run_cons_iff ..).mpr ⟨b₁, _, h₂, hsub, hr₂, rfl⟩, rfl⟩
  obtain ⟨all, hall, hcount⟩ := exists_numbering d.video _ (tagged_run hf hclear hrun)
  rw [yields_append, yields_append] at hall
  obtain ⟨before, idx, rfl, hbefore, hidx⟩ := List.map_eq_append_iff.mp hall.symm
  have hframes₁ : frames (systemOf h₁) = (before.map (·.2)).map d.video :=
    frames_of_numbering (handedOver_run hr₁) hbefore.symm
  have hframes₂ : frames (systemOf h₂) = (idx.map (·.2)).map d.video :=
    frames_of_numbering (handedOver_run hr₂) hidx.symm
  -- the session
  have hs₁ := session_begins (sound_run (fun j hj => hread j (by simp [hj])) hr₁)
    (hread i (by simp)) hsub hch
  have hs₂ : Session name n ch (systemOf h₁ ++ [.conn (.subscribe name n)]) b₂.sys
      (systemOf h₂) := by
    refine run_invariant
      (Q := fun _ h i b o => (i.Read ∧ NeverFull n b.sys.world) ∧ h ++ o <+: h₂)
      (fun b h => Session name n ch (systemOf h₁ ++ [.conn (.subscribe name n)]) b.sys (systemOf h))
      hs₁ ?_ (((everyStep_of_forall_mem fun j hj => hread j (by simp [hj])).and hfull).and
        (everyStep_begins hr₂)) hr₂
    rintro b h j b' o hs hstep ⟨⟨hj, hnf⟩, rest, hrest⟩
    refine session_step hs hstep hj (fun x m hm => hone x m ?_) (fun f hf => ?_) hnf
    · rw [← hrest]
      simp [mem_systemOf.mp hm]
    · have hmem : f ∈ frames (systemOf h₂) := by
        rw [← hrest]
        simp [hf]
      rw [hframes₂] at hmem
      obtain ⟨k, -, rfl⟩ := List.mem_map.mp hmem
      exact d.proper_video htypes k
  obtain ⟨session, aus, rest, hrecv, hrec, hshown, hrest⟩ := hs₂.received
  -- what is relayed from the first keyframe on shows the recording
  have hrelays := hs₂.relays.fromKey
  rw [hframes₂, List.dropWhile_map] at hrelays
  have hpast : ∀ u ∈ nalsOf (frames (systemOf h₁ ++ [.conn (.subscribe name n)])) ++
      nalsOf (((idx.map (·.2)).map d.video).takeWhile fun f => !f.keyframe),
      u ∈ iterNals d.annexb := by
    intro u hu
    rw [frames_append, show frames [SystemOutput.conn (.subscribe name n)] = [] from rfl,
      List.append_nil, hframes₁, List.takeWhile_map] at hu
    exact (List.mem_append.mp hu).elim mem_nalsOf_video mem_nalsOf_video
  have hshows : List.Forall₂ d.Shows (fromKey d idx) (aus ++ rest) := by
    rw [← hshown]
    exact d.shows_of_relays hrelays hpast
  refine ⟨before, idx, session, aus, hbefore.symm, hidx.symm, hcount, ?_, hrec,
    List.forall₂_take_append _ _ _ hshows, fun hopen => ?_⟩
  · rw [systemOf_append, systemOf_append]
    exact hrecv
  · obtain ⟨hsession, hqueue⟩ := hrest hopen
    refine ⟨hsession, fun sub hm hid => ?_⟩
    rw [hshows.length_eq, List.length_append, hqueue sub hm hid, Nat.add_assoc]

/-- The device plays two frames, of which the driver can tell the first. -/
def playedRun : List BridgeInput :=
  [.system (.conn (.pump .start) 0), .system (.hub (.run 0 0 0 .begin)), .device 0 .start,
    .driver 0 (.feed (.bytes 39)) 0 0, .driver 0 (.feed .go) 0 0, .driver 0 (.feed .go) 0 0,
    .device 0 .next, .driver 0 (.feed (.bytes 8)) 0 0, .driver 0 (.feed .go) 0 0,
    .driver 0 (.feed (.bytes 16)) 0 0, .driver 0 (.feed .go) 0 0, .system .get,
    .system (.conn (.pump .drained) 0)]

/-- No part of the output is a subscribe. -/
def noSubscribe : BridgeOutput → Bool
  | .system o => System.noSubscribe o
  | .line _ _ => true

section
open FakeDvr

def playedStep := step twoUnits twoUnitsStart viewerServer "cam".toList

theorem played_run :
    ((run playedStep (fresh false 10 none 7) (viewerSetup.map .system)).bind fun r =>
      (playedStep r.1 (.system (.conn (.loop .drained) 0))).bind fun q =>
        (run playedStep q.1 playedRun).map fun t : Bridge × List BridgeOutput =>
          (q.2, decide (q.1.sys.conn.interleaved = some (0, 1) ∧ (yields t.2).length = 1 ∧
            t.2.all noSubscribe = true ∧ checkEvery playedStep
              (fun _ _ _ b _ => decide (NeverFull 0 b.sys.world)) q.1 [] playedRun = true))) =
      some ([.system (.conn (.subscribe "cam".toList 0))], true) := by
  decide +kernel

theorem bridge_copies_played : ∃ b₀ b₁ b₂ h₁ h₂,
    run playedStep (fresh false 10 none 7) (viewerSetup.map .system) = some (b₀, h₁) ∧
    playedStep b₀ (.system (.conn (.loop .drained) 0)) =
      some (b₁, [.system (.conn (.subscribe "cam".toList 0))]) ∧
    run playedStep b₁ playedRun = some (b₂, h₂) ∧ (yields h₂).length = 1 ∧
    ∃ before idx session aus,
      yields h₁ = before.map (fun p => (p.1, twoUnits.video p.2)) ∧
      yields h₂ = idx.map (fun p => (p.1, twoUnits.video p.2)) ∧
      (∀ m, ∃ c, tagged m (before ++ idx) = List.range c) ∧
      Client.receive (Conn.wire (connOf (systemOf
          (h₁ ++ [.system (.conn (.subscribe "cam".toList 0))] ++ h₂)))) =
        some (Conn.parts (connOf (systemOf h₁)) ++ session) ∧
      Depacketizer.feedAll {} (Client.packetsOn (0 : Int).toNat session) = some { units := aus } ∧
      List.Forall₂ twoUnits.Shows ((fromKey twoUnits idx).take aus.length) aus ∧
      (.closeWriter ∉ connOf (systemOf h₁) → session = Conn.parts (connOf (systemOf h₂)) ∧
        ∀ sub ∈ b₂.sys.world.stream.subs, sub.id = 0 →
          (fromKey twoUnits idx).length =
            aus.length + b₂.sys.conn.inHand + sub.queue.length) := by
  obtain ⟨⟨b₀, h₁⟩, hr₁, hrest⟩ := Option.bind_eq_some_iff.mp played_run
  obtain ⟨⟨b₁, o⟩, hsub, hrest⟩ := Option.bind_eq_some_iff.mp hrest
  obtain ⟨⟨b₂, h₂⟩, hr₂, he⟩ := Option.map_eq_some_iff.mp hrest
  rw [Prod.mk.injEq, decide_eq_true_eq] at he
  obtain ⟨rfl, hch, hlen, hno, hfull⟩ := he
  refine ⟨b₀, b₁, b₂, h₁, h₂, hr₁, hsub, hr₂, hlen, ?_⟩
  have hlines : ∀ l ∈ ["CSeq: 1\r\n", "Transport: RTP/AVP/TCP\r\n", "CSeq: 2\r\n"].map
      String.toList, ReadLine l := by
    unfold ReadLine
    decide +kernel
  simp only [List.map_cons, List.map_nil, List.forall_mem_cons] at hlines
  obtain ⟨hcseq₁, htransport, hcseq₂, -⟩ := hlines
  have hsetup : ∀ j ∈ viewerSetup, j.Read := by
    refine List.forall_mem_cons.mpr ⟨request_read ?_, List.forall_mem_cons.mpr ⟨trivial,
      List.forall_mem_singleton.mpr (request_read (List.forall_mem_singleton.mpr hcseq₂))⟩⟩
    exact List.forall_mem_cons.mpr ⟨hcseq₁, List.forall_mem_singleton.mpr htransport⟩
  have hplay : ∀ j ∈ playedRun, j.Read := by
    simp only [playedRun, List.forall_mem_cons]
    exact ⟨trivial, trivial, trivial, trivial, trivial, trivial, trivial, trivial, trivial, trivial,
      trivial, trivial, trivial, by simp⟩
  have hread : ∀ j ∈ viewerSetup.map BridgeInput.system ++
      .system (.conn (.loop .drained) 0) :: playedRun, j.Read :=
    List.forall_mem_append.mpr
      ⟨List.forall_mem_map.mpr hsetup, List.forall_mem_cons.mpr ⟨trivial, hplay⟩⟩
  refine bridge_copies twoUnits twoUnits_framed (fun _ => rfl) (by decide) twoUnitsStart
    viewerServer "cam".toList false 10 none 7 (viewerSetup.map .system) playedRun _ b₀ b₁ b₂
    h₁ h₂ 0 0 1 hr₁ hsub hch hr₂ hread (fun x m hm => ?_) (everyStep_of_checkEvery hfull)
  have := List.all_eq_true.mp hno _ hm
  cases this

end
end Bridge
end DvrBridge
