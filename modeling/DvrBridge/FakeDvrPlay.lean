import DvrBridge.FakeDvr

/-! The driver against the simulated device: both ends of one connection, with the bytes on their
way, in any order of steps. -/
namespace DvrBridge
open H264 NetDvr3 Machine Search

/-- The unread bytes of the feed are those on their way. -/
structure Dialogue where
  sim : SimSession := {}
  feed : Feed := Feed.start []

inductive DialogueInput where
  | sim (i : SimInput)
  | feed (a : Arrival)
  /-- of a read of the driver -/
  | timeout
  deriving DecidableEq

/-- Whether it is the driver that steps. -/
def DialogueInput.ofDriver : DialogueInput → Bool
  | .sim _ => false
  | _ => true

namespace FakeDvr
variable (d : FakeDvr)

/-- The driver sees the end of the stream once the device has closed. -/
def dialogue (pkt : Bytes) (s : Dialogue) : DialogueInput → Option (Dialogue × List ParserOutput)
  | .sim i =>
    (d.step pkt s.sim i).map fun r => (⟨r.1, { s.feed with rest := s.feed.rest ++ r.2 }⟩, [])
  | .feed a =>
    if a = .eof ∧ s.sim.pc ≠ .closed then none
    else (s.feed.step a).map fun r => (⟨s.sim, r.1⟩, r.2)
  | .timeout =>
    (s.feed.parser.step .timeout).map fun r => (⟨s.sim, { s.feed with parser := r.1 }⟩, r.2)

variable {d} in
theorem dialogue_output {pkt : Bytes} {s s' : Dialogue} {i : DialogueInput}
    {o : List ParserOutput} (h : d.dialogue pkt s i = some (s', o)) :
    o = [] ∨ (i.ofDriver = true ∧ ((∃ f, o = [.frame f]) ∨ o = [.raised])) := by
  cases i with
  | sim i =>
    obtain ⟨r, -, he⟩ := Option.map_eq_some_iff.mp h
    cases he
    exact .inl rfl
  | feed a =>
    obtain ⟨-, h⟩ := Option.ite_none_left_eq_some.mp h
    obtain ⟨⟨f, o'⟩, hf, he⟩ := Option.map_eq_some_iff.mp h
    cases he
    exact (Parser.step_output (Feed.step_input hf).1).imp_right fun h => ⟨rfl, h⟩
  | timeout =>
    obtain ⟨⟨q, o'⟩, hq, he⟩ := Option.map_eq_some_iff.mp h
    cases he
    exact (Parser.step_output hq).imp_right fun h => ⟨rfl, h⟩

/-! The script of the device. -/

/-- The preamble and the units that the driver's framing can tell apart. -/
structure Framed : Prop where
  preamble : d.preamble.length ≤ 65528
  start : find magic (d.preamble ++ ([0, 0x0b, 0, 0] ++ magic)) = some (d.preamble.length + 4)
  fits : ∀ u ∈ d.aus, u.1.length ≤ 65539

/-- The magic first comes again in the header behind the garbage. -/
def Lone (i : Nat) : Prop :=
  find magic ((d.script.written i).bytes.drop 8 ++ (d.script.written (i + 1)).bytes.take 8) =
    some ((d.script.written i).bytes.length - 4)

/-- What the driver yields of frame `i`. -/
def video (i : Nat) : VideoFrame :=
  { payload := (d.unit i).1
    tsMs := some ((47000000 + i * d.tick) % 2 ^ 32)
    keyframe := (d.unit i).2 }

theorem exists_group {u : Bytes × Bool} (hu : u ∈ d.aus) :
    ∃ g : Group, g.Proper ∧ u = g.unit ∧ iterNals u.1 = g.nals := by
  obtain ⟨groups, -, -, -, hproper, haus, hnals, -⟩ := splitAccessUnits_groups d.annexb
  rw [aus, haus, List.mem_map] at hu
  obtain ⟨g, hg, rfl⟩ := hu
  exact ⟨g, hproper g hg, rfl, hnals g hg⟩

theorem unit_mem (i : Nat) : d.unit i ∈ d.aus := List.get_mem ..

theorem start4_unit (i : Nat) : start4 <+: (d.unit i).1 := by
  obtain ⟨g, -, hu, -⟩ := d.exists_group (d.unit_mem i)
  obtain ⟨n, ns, hn⟩ := List.exists_cons_of_ne_nil (show g.nals ≠ [] by simp [Group.nals])
  rw [hu, Group.unit, joined, hn, List.flatMap_cons, List.append_assoc]
  exact List.prefix_append _ _

/-- The flag of a unit is what the driver finds out about it. -/
theorem frame_video (i : Nat) : (d.frame i).video = d.video i := by
  obtain ⟨g, ⟨hpic, hlead⟩, hu, hn⟩ := d.exists_group (d.unit_mem i)
  have hkey : (iterNals (d.unit i).1).any (nalType · = nalIdr) = (d.unit i).2 := by
    rw [hn, hu, Group.nals, List.any_append, Group.unit, List.any_eq_false.mpr]
    · simp
    · intro n hm
      have := hlead n hm
      simp only [decide_eq_true_eq]
      intro he
      rw [he] at this
      cases this
  simp only [DvrFrame.video, frame, video, hkey, Bool.or_self]

theorem take_first : (d.script.written 0).bytes.take 8 = [0, 0x0b, 0, 0] ++ magic := by
  have hseq : (d.frame 0).seq = 0x0b00 := by simp [frame]
  have h4 : (d.script.written 0).bytes.take 4 = [0, 0x0b, 0, 0] := by
    simp only [script, Written.bytes, DvrFrame.bytes, frameHeader, List.append_assoc, hseq]
    rw [List.take_left' (le_length ..)]
    rfl
  rw [← List.take_append_drop 4 (List.take 8 _), (d.script.written 0).take_eight, List.take_take,
    show min 4 8 = 4 from rfl, h4]

/-- The script is readable when junk comes only where the magic is told apart. -/
theorem readable (hf : d.Framed) (hj : ∀ k, (d.junk k).length ≤ 2 ^ 20) {n : Nat}
    (hl : ∀ i < n, d.junk (i + 1) ≠ [] → d.Lone i) : d.script.Readable n := by
  refine ⟨hf.preamble, ?_, fun i _ => ⟨d.start4_unit i, hf.fits _ (d.unit_mem i)⟩, fun i _ => ?_, hl⟩
  · rw [d.take_first]
    exact hf.start
  · have hlen := (d.script.written i).bytes_length
    have hau : (d.script.written i).frame.au.length ≤ 65539 := hf.fits _ (d.unit_mem i)
    have hjunk : (d.script.written i).junk.length ≤ 2 ^ 20 := hj (i + 1)
    simp only [headerLen, maxFrame] at *
    omega

theorem length_junk (hg : d.garbage.length ≤ 2 ^ 20) (k : Nat) : (d.junk k).length ≤ 2 ^ 20 := by
  unfold junk
  split
  · split
    · exact hg
    · exact Nat.zero_le _
  · exact Nat.zero_le _

/-! The invariant of the runs. -/

/-- Before the first frame nothing has arrived; from then on the driver is in the phases of what
was written. -/
inductive Plays (pkt : Bytes) (s : Dialogue) (h : List ParserOutput) : Prop
  | before : d.Wrote pkt s.sim [] → s.sim.sent = 0 → s.feed.rest = [] →
      s.feed.parser.buf = [] → s.feed.parser.resyncs = 0 →
      (s.feed.parser.pc = .preamble ∧ h = [] ∨ s.feed.parser.pc = .raised ∧ h = [.raised]) →
      Plays pkt s h
  | during : d.Wrote pkt s.sim (d.preamble ++ d.script.between 0 s.sim.sent) → 0 < s.sim.sent →
      Reached d.script s.sim.sent s.feed.parser s.feed.rest h → Plays pkt s h

theorem sent_step {pkt o : Bytes} {s s' : SimSession} {i : SimInput}
    (h : d.step pkt s i = some (s', o)) : s'.sent = s.sent ∨ s'.sent = s.sent + 1 := by
  have hgo (todo : List (Bytes × Bool)) :
      (d.goOn s todo).1.sent = s.sent ∨ (d.goOn s todo).1.sent = s.sent + 1 := by
    cases todo with
    | nil =>
      simp only [goOn]
      split
      · exact .inr rfl
      · exact .inl rfl
    | cons au todo => exact .inr rfl
  cases i with
  | start =>
    obtain ⟨-, h⟩ := Option.ite_none_right_eq_some.mp h
    rw [Option.some.injEq, receive] at h
    split_ifs at h <;> cases h
    · exact .inl rfl
    · exact .inl rfl
    · exact .inl rfl
    · exact hgo d.aus
  | given | lost =>
    obtain ⟨-, h⟩ := Option.ite_none_right_eq_some.mp h
    cases h
    exact .inl rfl
  | next =>
    simp only [step] at h
    split at h
    · rename_i todo _
      have := hgo todo
      rw [Option.some.injEq] at h
      rwa [h] at this
    · cases h
      exact .inl rfl
    · cases h

/-- What the device writes in a step goes behind what is on its way. -/
theorem plays_sim {pkt o : Bytes} {s : Dialogue} {s' : SimSession} {i : SimInput}
    {h : List ParserOutput} (hp : d.Plays pkt s h) (hs : d.step pkt s.sim i = some (s', o)) :
    d.Plays pkt ⟨s', { s.feed with rest := s.feed.rest ++ o }⟩ h := by
  cases hp with
  | before hw h0 hrest hbuf hz hpc =>
    have hw' := d.wrote_step hw hs
    rw [List.nil_append] at hw'
    cases hw' with
    | nothing h0' hseq hts hno =>
      exact .before (.nothing h0' hseq hts hno) h0' (by simp [hrest]) hbuf hz hpc
    | frames hpos hseq hts hread hleft ha =>
      refine .during (.frames hpos hseq hts hread hleft ha) hpos ?_
      simp only [hrest, List.nil_append]
      rcases hpc with ⟨hpc, rfl⟩ | ⟨hpc, rfl⟩
      · refine .preamble hpc ?_ hz
        rw [hbuf, List.nil_append]
        rfl
      · exact .raised 0 (Nat.zero_le _) hpc (.inl (by simp [hz, Script.kept]))
  | during hw hpos hr =>
    have hw' := d.wrote_step hw hs
    generalize hwo : d.preamble ++ d.script.between 0 s.sim.sent ++ o = w' at hw'
    rcases d.sent_step hs with hsent | hsent
    · cases hw' with
      | nothing h0 => omega
      | frames hpos' hseq hts hread hleft ha =>
        rw [hsent] at hwo
        have ho : o = [] := List.append_right_eq_self.mp hwo
        refine .during (.frames hpos' hseq hts hread hleft ha) hpos' ?_
        simpa only [hsent, ho, List.append_nil] using hr
    · cases hw' with
      | nothing h0 => omega
      | frames hpos' hseq hts hread hleft ha =>
        rw [hsent, d.script.between_snoc (Nat.zero_le _), ← List.append_assoc] at hwo
        have ho := List.append_cancel_left hwo
        refine .during (.frames hpos' hseq hts hread hleft ha) hpos' ?_
        simpa only [hsent, ho] using hr.grow

/-- A step of the driver. -/
theorem plays_driver {pkt rest : Bytes} {s : Dialogue} {q : Parser} {i : ParserInput}
    {h o : List ParserOutput} (hg : d.script.Readable s.sim.sent) (hp : d.Plays pkt s h)
    (hs : s.feed.parser.step i = some (q, o)) (hr : s.feed.rest = i.chunk ++ rest)
    (heof : i = .eof → s.feed.rest.length < s.feed.parser.wanted) :
    d.Plays pkt ⟨s.sim, ⟨q, rest⟩⟩ (h ++ o) ∧
      (i ≠ .timeout → q.pc = .raised → (∀ k, d.junk k = []) →
        i = .eof ∧ h ++ o = (d.script.kept (s.sim.sent - 1)).map .frame ++ [.raised]) := by
  cases hp with
  | during hw hpos hph =>
    obtain ⟨hq, he⟩ := hph.step hg hs hr heof
    exact ⟨.during hw hpos hq, fun hi hq hclear => he hi hq fun j => hclear (j + 1)⟩
  | before hw h0 hrest hbuf hz hpc =>
    have hst := Parser.stepped hs
    rcases hpc with ⟨hpc, rfl⟩ | ⟨hpc, rfl⟩
    · -- without a byte the first read can only fail
      rw [hpc] at hst
      have hend : q = s.feed.parser.raise ∧ o = [.raised] ∧ (i = .eof ∨ i = .timeout) := by
        cases hst with
        | found k hk =>
          rw [hbuf] at hk
          cases hk
        | notFound _ hl => simp [hbuf] at hl
        | preambleRead chunk _ _ hne =>
          rw [hrest] at hr
          exact absurd (List.append_eq_nil_iff.mp hr.symm).1 hne
        | preambleFails i _ _ hi => exact ⟨rfl, rfl, hi⟩
      obtain ⟨rfl, rfl, hi⟩ := hend
      rw [hrest] at hr
      refine ⟨.before hw h0 (List.append_eq_nil_iff.mp hr.symm).2 hbuf hz (.inr ⟨rfl, rfl⟩), ?_⟩
      intro htime _ _
      refine ⟨hi.resolve_right htime, ?_⟩
      rw [h0]
      rfl
    · rw [hpc] at hst
      cases hst

theorem plays_start (pkt : Bytes) : d.Plays pkt {} [] :=
  .before (.nothing rfl rfl rfl (by simp)) rfl rfl rfl rfl (.inl ⟨rfl, rfl⟩)

/-- The number of frames never falls. -/
theorem sent_mono {pkt o : Bytes} {s s' : SimSession} {i : SimInput}
    (h : d.step pkt s i = some (s', o)) : s.sent ≤ s'.sent := by
  rcases d.sent_step h with hs | hs <;> omega

theorem closed_of_step {pkt o : Bytes} {s s' : SimSession} {i : SimInput}
    (h : d.step pkt s i = some (s', o)) : s.pc ≠ .closed := by
  intro hc
  cases i <;> simp [step, hc] at h

/-- The driver has seen the end of the stream. -/
def Ended (s : Dialogue) (h : List ParserOutput) : Prop :=
  s.sim.pc = .closed ∧ h = (d.script.kept (s.sim.sent - 1)).map .frame ++ [.raised]

/-- The invariant of a run: without a time-out and without garbage the driver only gives up once it
has yielded all that it can. -/
theorem run_plays {pkt : Bytes} {is : List DialogueInput} {s : Dialogue} {h : List ParserOutput}
    (hr : run (d.dialogue pkt) {} is = some (s, h)) (hg : d.script.Readable s.sim.sent) :
    d.Plays pkt s h ∧ (.timeout ∉ is → (∀ k, d.junk k = []) →
      s.feed.parser.pc = .raised → d.Ended s h) := by
  refine run_invariant_inputs (fun s is h => d.script.Readable s.sim.sent →
    d.Plays pkt s h ∧ (.timeout ∉ is → (∀ k, d.junk k = []) →
      s.feed.parser.pc = .raised → d.Ended s h)) ?_ ?_ hr hg
  · exact fun _ => ⟨d.plays_start pkt, fun _ _ hpc => absurd hpc (by simp [Feed.start])⟩
  · rintro s is h i s' o hinv hs hg
    cases i with
    | sim i =>
      obtain ⟨⟨sim, w⟩, hi, he⟩ := Option.map_eq_some_iff.mp hs
      cases he
      obtain ⟨hp, hend⟩ := hinv (hg.mono (d.sent_mono hi))
      rw [List.append_nil]
      refine ⟨d.plays_sim hp hi, fun ht hclear hpc => ?_⟩
      have hclosed := (hend (fun hm => ht (List.mem_append_left _ hm)) hclear hpc).1
      exact absurd hclosed (d.closed_of_step hi)
    | feed a =>
      obtain ⟨hopen, hs⟩ := Option.ite_none_left_eq_some.mp hs
      obtain ⟨⟨f, o'⟩, hf, he⟩ := Option.map_eq_some_iff.mp hs
      cases he
      obtain ⟨hp, -⟩ := hinv hg
      obtain ⟨hj, hrest, hshort⟩ := Feed.step_input hf
      have heof : s.feed.input a = .eof → s.feed.rest.length < s.feed.parser.wanted := by
        intro he
        refine Feed.rest_lt_of_short (hshort ?_)
        cases a <;> first | rfl | cases he
      obtain ⟨hq, hlast⟩ := d.plays_driver (s := s) hg hp hj hrest heof
      refine ⟨hq, fun _ hclear hpc => ?_⟩
      obtain ⟨he, hout⟩ := hlast (by cases a <;> simp [Feed.input]) hpc hclear
      have ha : a = .eof := by cases a <;> first | rfl | cases he
      exact ⟨by simpa [ha] using hopen, hout⟩
    | timeout =>
      obtain ⟨⟨q, o'⟩, hq, he⟩ := Option.map_eq_some_iff.mp hs
      cases he
      obtain ⟨hp, -⟩ := hinv hg
      exact ⟨(d.plays_driver (s := s) hg hp hq rfl (by simp)).1, fun ht => absurd (by simp) ht⟩

/-- What the driver has yielded of the script. -/
theorem plays_out {pkt : Bytes} {s : Dialogue} {h : List ParserOutput} (hp : d.Plays pkt s h) :
    ∃ n ≤ s.sim.sent - 1, d.script.Counted n s.feed.parser.resyncs ∧
      h = (d.script.kept n).map .frame ++
        if s.feed.parser.pc = .raised then [.raised] else [] := by
  cases hp with
  | before _ _ _ _ hz hpc =>
    refine ⟨0, Nat.zero_le _, .inl (by simp [hz, Script.kept]), ?_⟩
    rcases hpc with ⟨hpc, rfl⟩ | ⟨hpc, rfl⟩
    · simp [hpc, Script.kept]
    · simp [hpc, Script.kept]
  | during _ _ hr =>
    cases hr with
    | preamble hpc _ hz =>
      exact ⟨0, Nat.zero_le _, .inl (by simp [hz, Script.kept]), by simp [hpc, Script.kept]⟩
    | header j hj hpc _ hc | body j hj hpc _ hc =>
      exact ⟨j, Nat.le_sub_one_of_lt hj, .inl hc, by simp [hpc]⟩
    | skip j hj hjunk hpc _ _ hc =>
      exact ⟨j, Nat.le_sub_one_of_lt hj, .inr ⟨hjunk, hc⟩, by simp [hpc]⟩
    | scan j _ _ hj hjunk hpc _ _ _ hc =>
      refine ⟨j, Nat.le_sub_one_of_lt hj, .inr ⟨hjunk, hc⟩, ?_⟩
      rcases hpc with hpc | hpc <;> simp [hpc]
    | raised j hj hpc hc => exact ⟨j, hj, hc, by simp [hpc]⟩

/-- How far the device gets by itself. -/
structure Within (s : SimSession) : Prop where
  reading : s.pc = .reading → s.sent = 0
  dropped : ∀ most, d.dropAfterFrames = some most → (s.sent : Int) ≤ max most 1 ∧
    ∀ todo, s.pc = .waiting todo → (s.sent : Int) < most
  once : d.loopStream = false → s.sent ≤ d.aus.length ∧
    ∀ todo, s.pc = .waiting todo → s.sent + todo.length = d.aus.length

theorem within_goOn {s : SimSession} {todo : List (Bytes × Bool)}
    (hdrop : ∀ most, d.dropAfterFrames = some most → s.sent = 0 ∨ (s.sent : Int) < most)
    (honce : d.loopStream = false → s.sent + todo.length = d.aus.length) :
    d.Within (d.goOn s todo).1 := by
  have hsend {au : Bytes × Bool} {todo : List (Bytes × Bool)}
      (honce : d.loopStream = false → s.sent + 1 + todo.length = d.aus.length) :
      d.Within (d.sendFrame s au todo).1 := by
    refine ⟨?_, ?_, ?_⟩
    · simp only [sendFrame]
      split <;> simp
    · intro most hm
      have := hdrop most hm
      simp only [sendFrame, FakeDvr.dropped, hm]
      push_cast
      refine ⟨by omega, fun todo ht => ?_⟩
      split at ht
      · cases ht
      · rename_i hlt
        simpa using hlt
    · intro hl
      have := honce hl
      simp only [sendFrame]
      refine ⟨by omega, fun todo ht => ?_⟩
      split at ht
      · cases ht
      · cases ht
        exact this
  cases todo with
  | cons au todo =>
    refine hsend fun hl => ?_
    have := honce hl
    rw [List.length_cons] at this
    omega
  | nil =>
    simp only [goOn]
    split
    · rename_i hl
      exact hsend fun hl' => absurd hl (by simp [hl'])
    · refine ⟨by simp, fun most hm => ⟨?_, by simp⟩, fun hl => ⟨?_, by simp⟩⟩
      · have := hdrop most hm
        simp only
        omega
      · have := honce hl
        rw [List.length_nil] at this
        simp only
        omega

theorem within_step {pkt o : Bytes} {s s' : SimSession} {i : SimInput} (hw : d.Within s)
    (h : d.step pkt s i = some (s', o)) : d.Within s' := by
  have hquiet {pc : SimPc} (hpc : ∀ todo, pc ≠ .waiting todo) (hread : pc ≠ .reading) :
      d.Within { s with pc := pc } :=
    ⟨fun h => absurd h hread, fun m hm => ⟨(hw.dropped m hm).1, fun t ht => absurd ht (hpc t)⟩,
      fun hl => ⟨(hw.once hl).1, fun t ht => absurd ht (hpc t)⟩⟩
  cases i with
  | start =>
    obtain ⟨⟨hpc, -⟩, h⟩ := Option.ite_none_right_eq_some.mp h
    rw [Option.some.injEq, receive] at h
    have h0 := hw.reading hpc
    split_ifs at h <;> cases h
    · exact hquiet (by simp) (by simp)
    · exact hquiet (by simp) (by simp)
    · exact hquiet (by simp) (by simp)
    · exact d.within_goOn (fun _ _ => .inl h0) fun _ => by rw [h0, Nat.zero_add]
  | given | lost =>
    obtain ⟨-, h⟩ := Option.ite_none_right_eq_some.mp h
    cases h
    exact hquiet (by simp) (by simp)
  | next =>
    simp only [step] at h
    split at h
    · rename_i todo hpc
      have := d.within_goOn (fun m hm => .inr ((hw.dropped m hm).2 todo hpc))
        fun hl => (hw.once hl).2 todo hpc
      rw [Option.some.injEq] at h
      rwa [h] at this
    · cases h
      exact hquiet (by simp) (by simp)
    · cases h

theorem run_within {pkt : Bytes} {is : List DialogueInput} {s : Dialogue} {h : List ParserOutput}
    (hr : run (d.dialogue pkt) {} is = some (s, h)) : d.Within s.sim := by
  refine run_invariant' (fun s _ => d.Within s.sim)
    ⟨fun _ => rfl, fun m _ => ⟨?_, by simp⟩, fun _ => ⟨Nat.zero_le _, by simp⟩⟩ ?_ hr
  · simp only [Nat.cast_zero]
    omega
  · rintro s h i s' o hw hs
    cases i with
    | sim i =>
      obtain ⟨r, hi, he⟩ := Option.map_eq_some_iff.mp hs
      cases he
      exact d.within_step hw hi
    | feed a =>
      obtain ⟨-, hs⟩ := Option.ite_none_left_eq_some.mp hs
      obtain ⟨r, -, he⟩ := Option.map_eq_some_iff.mp hs
      cases he
      exact hw
    | timeout =>
      obtain ⟨r, -, he⟩ := Option.map_eq_some_iff.mp hs
      cases he
      exact hw

theorem answers_of_plays {pkt : Bytes} {s : Dialogue} {h : List ParserOutput}
    (hp : d.Plays pkt s h) (hs : 0 < s.sim.sent) : d.answers pkt = true := by
  cases hp with
  | before _ h0 => omega
  | during hw _ _ =>
    generalize d.preamble ++ d.script.between 0 s.sim.sent = w at hw
    cases hw with
    | nothing h0 => omega
    | frames _ _ _ _ _ ha => exact ha

/-- Without garbage every frame counts. -/
theorem map_kept_of_clear (hclear : ∀ k, d.junk k = []) (n : Nat) :
    (d.script.kept n).map ParserOutput.frame = (List.range n).map fun i => .frame (d.video i) := by
  rw [d.script.kept_of_clear fun i => hclear (i + 1), List.map_map]
  exact List.map_congr_left fun i _ => congrArg ParserOutput.frame (d.frame_video i)

theorem readable_of_clear (hf : d.Framed) (hclear : ∀ k, d.junk k = []) (n : Nat) :
    d.script.Readable n :=
  d.readable hf (fun k => by simp [hclear k]) fun i _ hjunk => absurd (hclear (i + 1)) hjunk

/-- The driver against the device. Without garbage the driver yields the units of the recording over
and over, in order and with their flags and timestamps, whatever order the steps of both come in and
however the bytes are cut; it starts no resynchronisation, stays at least one frame behind, and
unless a read times out it gives up only when the device has closed. -/
theorem dialogue_plays (d : FakeDvr) (hf : d.Framed) (hclear : ∀ k, d.junk k = []) (pkt : Bytes)
    (is : List DialogueInput) (s : Dialogue) (out : List ParserOutput)
    (hr : run (d.dialogue pkt) {} is = some (s, out)) :
    (0 < s.sim.sent → d.answers pkt = true) ∧
    (∀ most, d.dropAfterFrames = some most → (s.sim.sent : Int) ≤ max most 1) ∧
    (d.loopStream = false → s.sim.sent ≤ d.aus.length) ∧
    s.feed.parser.resyncs = 0 ∧
    ∃ n ≤ s.sim.sent - 1,
      out = (List.range n).map (fun i => .frame (d.video i)) ++
        (if s.feed.parser.pc = .raised then [.raised] else []) ∧
      (.timeout ∉ is → s.feed.parser.pc = .raised → s.sim.pc = .closed ∧ n = s.sim.sent - 1) ∧
      (s.feed.rest = [] → s.feed.parser.pc ≠ .raised → s.feed.parser.step .go = none →
        n = s.sim.sent - 1) := by
  have hreadable : d.script.Readable s.sim.sent := d.readable_of_clear hf hclear _
  obtain ⟨hp, hend⟩ := d.run_plays hr hreadable
  have hw := d.run_within hr
  have hkept := d.map_kept_of_clear hclear
  obtain ⟨n, hn, hcount, hout⟩ := d.plays_out hp
  rw [hkept] at hout
  refine ⟨d.answers_of_plays hp, fun m hm => (hw.dropped m hm).1, fun hl => (hw.once hl).1, ?_,
    n, hn, hout, fun ht hpc => ?_, fun hrest hpc hwait => ?_⟩
  · rcases hcount with hc | ⟨hjunk, -⟩
    · rw [d.script.kept_of_clear fun i => hclear (i + 1), List.length_map, List.length_range] at hc
      omega
    · exact absurd (hclear (n + 1)) hjunk
  · obtain ⟨hclosed, hall⟩ := hend ht hclear hpc
    refine ⟨hclosed, ?_⟩
    rw [hout, hkept, if_pos hpc] at hall
    simpa using congrArg List.length hall
  · have hall : out = (d.script.kept (s.sim.sent - 1)).map .frame := by
      cases hp with
      | before _ h0 _ _ _ h =>
        rcases h with ⟨-, rfl⟩ | ⟨h, -⟩
        · rw [h0]
          rfl
        · exact absurd h hpc
      | during _ _ hph =>
        rw [hrest] at hph
        exact hph.waiting hreadable hpc (fun j => hclear (j + 1)) hwait
    rw [hout, hkept, if_neg hpc] at hall
    simpa using congrArg List.length hall

/-- The start packet that it answers. -/
def twoUnitsStart : Bytes := (buildStartStream "admin".toList "secret".toList 1 false).getD []

def twoUnitsRun : List DialogueInput :=
  [.sim .start, .feed (.bytes 39), .feed .go, .feed .go, .sim .next, .feed (.bytes 8), .feed .go,
    .feed (.bytes 16), .feed .go, .sim .lost, .feed .eof]

theorem twoUnits_framed : twoUnits.Framed := ⟨by decide, by decide +kernel, by decide⟩

theorem twoUnits_run : ((run (twoUnits.dialogue twoUnitsStart) {} twoUnitsRun).map fun r =>
    decide (r.1.feed.parser.pc = .raised ∧ r.1.sim.sent = 2)) = some true := by
  decide +kernel

theorem dialogue_plays_twoUnits : ∃ s,
    run (twoUnits.dialogue twoUnitsStart) {} twoUnitsRun =
        some (s, [.frame (twoUnits.video 0), .raised]) ∧
      s.sim.sent = 2 ∧ twoUnits.answers twoUnitsStart = true ∧ s.feed.parser.resyncs = 0 := by
  obtain ⟨⟨s, out⟩, hr, hd⟩ := Option.map_eq_some_iff.mp twoUnits_run
  obtain ⟨hpc, hsent⟩ := of_decide_eq_true hd
  obtain ⟨ha, -, -, hz, n, -, hout, hend, -⟩ := dialogue_plays twoUnits twoUnits_framed
    (fun _ => rfl) twoUnitsStart twoUnitsRun s out hr
  obtain ⟨-, hn⟩ := hend (by decide) hpc
  have hpc : s.feed.parser.pc = .raised := hpc
  have hsent : s.sim.sent = 2 := hsent
  rw [hsent] at hn ha
  rw [hn, if_pos hpc] at hout
  exact ⟨s, by rw [hr, hout]; rfl, hsent, ha (by decide), hz⟩

/-- With garbage behind every so many frames the driver loses those frames, at one resynchronisation
each, and yields all others in order. -/
theorem dialogue_plays_garbage (d : FakeDvr) (hf : d.Framed) (hg : d.garbage.length ≤ 2 ^ 20)
    (pkt : Bytes) (is : List DialogueInput) (s : Dialogue) (out : List ParserOutput)
    (hr : run (d.dialogue pkt) {} is = some (s, out))
    (hlone : ∀ i < s.sim.sent, d.junk (i + 1) ≠ [] → d.Lone i) :
    ∃ n ≤ s.sim.sent - 1,
      out = ((List.range n).filter fun i => d.junk (i + 1) = []).map (fun i => .frame (d.video i)) ++
        (if s.feed.parser.pc = .raised then [.raised] else []) ∧
      let lost := ((List.range n).filter fun i => d.junk (i + 1) ≠ []).length
      s.feed.parser.resyncs = lost ∨ (d.junk (n + 1) ≠ [] ∧ s.feed.parser.resyncs = lost + 1) := by
  obtain ⟨hp, -⟩ := d.run_plays hr (d.readable hf (d.length_junk hg) hlone)
  obtain ⟨n, hn, hcount, hout⟩ := d.plays_out hp
  have hkept : d.script.kept n =
      ((List.range n).filter fun i => d.junk (i + 1) = []).map d.video := by
    rw [Script.kept, ← List.filterMap_eq_map, List.filterMap_filter]
    refine List.filterMap_congr fun i _ => ?_
    by_cases hj : d.junk (i + 1) = []
    · simp [script, hj, d.frame_video]
    · simp [script, hj]
  have hlost : ((List.range n).filter fun i => d.junk (i + 1) ≠ []).length +
      (d.script.kept n).length = n := by
    have := List.length_eq_length_filter_add (l := List.range n) fun i => decide (d.junk (i + 1) = [])
    rw [List.length_range] at this
    rw [hkept, List.length_map, Nat.add_comm]
    simpa using this.symm
  refine ⟨n, hn, ?_, ?_⟩
  · rw [hout, hkept, List.map_map]
    rfl
  · rcases hcount with hc | ⟨hjunk, hc⟩
    · exact .inl (by omega)
    · exact .inr ⟨hjunk, by omega⟩

/-- Garbage behind every second frame. -/
def noisy : FakeDvr := { twoUnits with garbageEvery := some 2 }

def noisyRun : List DialogueInput :=
  [.sim .start, .sim .next, .feed (.bytes 69), .feed .go, .feed .go, .feed .go, .feed .go,
    .feed (.bytes 8), .feed .go, .feed .go]

theorem noisy_run : ((run (noisy.dialogue twoUnitsStart) {} noisyRun).map fun r =>
    decide (r.1.feed.parser.resyncs = 1 ∧ r.1.sim.sent = 2 ∧ r.1.feed.parser.pc = .resyncRead 0)) =
      some true := by
  decide +kernel

theorem noisy_lone : noisy.Lone 1 := by
  unfold Lone
  decide +kernel

theorem dialogue_plays_garbage_noisy : ∃ s,
    run (noisy.dialogue twoUnitsStart) {} noisyRun = some (s, [.frame (noisy.video 0)]) ∧
      s.feed.parser.resyncs = 1 := by
  obtain ⟨⟨s, out⟩, hr, hd⟩ := Option.map_eq_some_iff.mp noisy_run
  obtain ⟨hz, hsent, hpc⟩ := of_decide_eq_true hd
  have hz : s.feed.parser.resyncs = 1 := hz
  have hsent : s.sim.sent = 2 := hsent
  have hpc : s.feed.parser.pc = .resyncRead 0 := hpc
  obtain ⟨n, hn, hout, hlost⟩ := dialogue_plays_garbage noisy
    ⟨twoUnits_framed.preamble, twoUnits_framed.start, twoUnits_framed.fits⟩ (by decide) twoUnitsStart
    noisyRun s out hr (fun i hi hjunk => by
      rw [hsent] at hi
      have h1 : i = 1 := by
        by_contra hne
        have h0 : i = 0 := by omega
        subst h0
        exact hjunk (by decide)
      exact h1 ▸ noisy_lone)
  rw [hsent] at hn
  have h1 : n = 1 := by
    by_contra hne
    have h0 : n = 0 := by omega
    subst h0
    rw [hz] at hlost
    rcases hlost with h | ⟨hj, -⟩
    · revert h
      decide
    · exact hj (by decide)
  subst h1
  refine ⟨s, ?_, hz⟩
  rw [hr, hout, if_neg (by simp [hpc])]
  rfl

end FakeDvr
end DvrBridge
