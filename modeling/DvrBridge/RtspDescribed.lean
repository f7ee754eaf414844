import DvrBridge.RtspDescribe
import DvrBridge.RtspLedger
import DvrBridge.RtspTidy
import DvrBridge.SdpReader

/-! What a client reads from the descriptions that it gets: of all that a connection sends, over the
whole of a run, only the answers to DESCRIBE have a body. -/
namespace DvrBridge
open Machine PyText

namespace Conn

/-- The responses that a step has written, and the one that waits for the lock, all satisfy `P`. -/
def Answered (P : Response → Prop) (c : Conn) (o : List Effect) : Prop :=
  (∀ r, .response r ∈ o → P r) ∧ ∀ handler r k, c.pc = .locking handler r k → P r

section
variable {P : Response → Prop} {srv : Server} {c c' : Conn} {o : List Effect}

theorem Answered.cons (h : Answered P c o) {e : Effect} (he : ∀ r, e ≠ .response r) :
    Answered P c (e :: o) := by
  refine ⟨fun r hr => ?_, h.2⟩
  rcases List.mem_cons.mp hr with rfl | hr
  · exact absurd rfl (he r)
  · exact h.1 r hr

theorem Answered.append (h : Answered P c o) {pre : List Effect} (he : ∀ r, .response r ∉ pre) :
    Answered P c (pre ++ o) :=
  ⟨fun r hr => (List.mem_append.mp hr).elim (fun hr => absurd hr (he r)) (h.1 r), h.2⟩

theorem response_not_mem_released (c : Conn) (r : Response) : .response r ∉ c.released := by
  unfold released releaseTransport
  split <;> simp

theorem Sent.answered {handler : Option Str} {r : Response} {k : After}
    (h : Sent c handler r k c' o) (hr : P r) : Answered P c' o := by
  cases h with
  | written =>
    refine ⟨fun r' hm => ?_, fun _ _ _ hp => by cases hp⟩
    rw [List.mem_singleton, Effect.response.injEq] at hm
    rwa [hm]
  | queued =>
    refine ⟨by simp, fun _ _ _ hp => ?_⟩
    cases hp
    exact hr

theorem Stopped.answered {why : Leave} (h : Stopped c why c' o) : Answered P c' o := by
  cases h with
  | joins => exact ⟨by simp, fun _ _ _ hp => by cases hp⟩
  | tornDown | closes =>
    refine Answered.append ⟨by simp, fun _ _ _ hp => by cases hp⟩ ?_
    exact response_not_mem_released c

theorem setupAnswer_bare {cseq transport : Str} {r : Response} {k : After}
    (h : c.setupAnswer cseq transport = .answer r k) : r.body = [] := by
  cases h
  rfl

/-- Only a description has a body. -/
theorem handle_bare {m : Method} {url : Str} {headers : Headers} {cseq token : Str} {c₁ : Conn}
    {r : Response} {k : After} (hm : m ≠ .setup)
    (h : c.handle srv m url headers cseq token = (c₁, o, .answer r k)) : r.body = [] := by
  cases m with
  | setup => exact absurd rfl hm
  | options =>
    cases h
    rfl
  | describe =>
    simp only [handle, onDescribe] at h
    split at h <;> cases h
  | play =>
    simp only [handle, Prod.mk.injEq, onPlay] at h
    obtain ⟨-, -, h⟩ := h
    split at h <;> cases h
    rfl
  | pause | getParameter | setParameter | teardown =>
    cases h
    rfl

theorem HandlerStep.answered {url : Str} {headers : Headers} {cseq token : Str} {m : Method}
    (h : HandlerStep srv c url headers cseq token m c' o) (hP : ∀ r, r.body = [] → P r) :
    Answered P c' o := by
  cases h with
  | answers hm hr hs => exact hs.answered (hP _ (handle_bare hm hr))
  | refuses _ hs => exact hs.answered (hP _ rfl)
  | describeCrashes _ hs => exact hs.answered.cons (by simp)
  | waits => exact ⟨by simp, fun _ _ _ hp => by cases hp⟩
  | setupCrashes _ _ hs =>
    exact (hs.answered.cons (by simp)).append (response_not_mem_released c)
  | setupRefuses _ _ hs => exact (hs.answered (hP _ rfl)).append (response_not_mem_released c)
  | setupAnswers _ hstep hs =>
    generalize ho : Outcome.answer _ _ = out at hstep
    refine (hs.answered (hP _ ?_)).append (response_not_mem_released c)
    cases hstep with
    | tcp => exact setupAnswer_bare ho.symm
    | _ => cases ho
  | setupOpens =>
    exact ⟨fun r hr => absurd hr (response_not_mem_released c r), fun _ _ _ hp => by cases hp⟩

theorem LoopStep.answered {i : LoopInput} (h : LoopStep srv c i c' o)
    (hP : ∀ r, r.body = [] → P r) (hc : Answered P c [])
    (hready : ∀ url s cseq sps pps info r k, i = .ready sps pps info →
      c.pc = .waitReady url s cseq → describeAnswer url s cseq sps pps info = .answer r k → P r) :
    Answered P c' o := by
  cases h with
  | badLine _ _ hs | unauthorized _ _ _ hs | unknown _ _ _ _ hs | malformed _ _ hs
  | notReady _ hs | timedOut _ hs => exact hs.answered (hP _ rfl)
  | authCrashes _ _ _ hs | readyCrashes _ hs | openFails _ hs | playCrashes _ _ _ hs =>
    exact hs.answered.cons (by simp)
  | handles _ _ _ _ hs => exact (hs.answered hP).cons (by simp)
  | skipped => exact hc
  | gone _ hs | tearsDown _ hs | quits _ _ hs | joined _ _ _ hs => exact hs.answered
  | ready hp hd hs => exact hs.answered (hready _ _ _ _ _ _ _ _ rfl hp hd)
  | opened _ _ hr hs => exact (hs.answered (hP _ (setupAnswer_bare hr))).cons (by simp)
  | openedCrashes _ _ hs => exact (hs.answered.cons (by simp)).cons (by simp)
  | acquired hp =>
    refine ⟨fun r hr => ?_, fun _ _ _ hp => by cases hp⟩
    rw [List.mem_singleton, Effect.response.injEq] at hr
    rw [hr]
    exact hc.2 _ _ _ hp
  | drained | playsOn => exact ⟨by simp, fun _ _ _ hp => by cases hp⟩
  | subscribes => exact ⟨by simp, fun _ _ _ hp => by cases hp⟩
  | closed => exact ⟨by simp, fun _ _ _ hp => by cases hp⟩

theorem PumpStep.no_response {p : Pump} {i : PumpInput} (h : PumpStep c p i c' o) (r : Response) :
    .response r ∉ o := by
  have hexit {c₀ : Conn} {q : Pump} {ex : List Effect} (hex : Exited c₀ q c' ex) :
      .response r ∉ ex := by cases hex <;> simp
  cases h with
  | cancelledGetting _ _ hex | cancelledWaiting _ _ hex | cancelledDraining _ _ hex
  | lost _ _ hex => exact hexit hex
  | crashes _ _ _ hex | crashTurn _ _ _ hex =>
    exact fun hm => hexit hex ((List.mem_cons.mp hm).resolve_left (by simp))
  | _ => simp

/-- A wait of a DESCRIBE is for a stream of the hub. -/
def Waits (srv : Server) (c : Conn) : Prop :=
  ∀ url s cseq, c.pc = .waitReady url s cseq → s ∈ srv.hub

theorem mem_hub_of_found {url s : Str} (h : srv.streamFor url = .found s) : s ∈ srv.hub := by
  unfold Server.streamFor at h
  split at h
  · cases h
  · simp only at h
    split at h <;> split at h <;> cases h <;> assumption

theorem LoopStep.waits {i : LoopInput} (h : LoopStep srv c i c' o) (hc : c.Waits srv) :
    c'.Waits srv := by
  have hsent {c₀ : Conn} {handler : Option Str} {r : Response} {k : After} {ex : List Effect}
      (hs : Sent c₀ handler r k c' ex) : c'.Waits srv := by
    intro _ _ _ hp
    cases hs <;> cases hp
  have hstopped {c₀ : Conn} {why : Leave} {ex : List Effect} (hs : Stopped c₀ why c' ex) :
      c'.Waits srv := by
    intro _ _ _ hp
    cases hs <;> cases hp
  cases h with
  | badLine _ _ hs | unauthorized _ _ _ hs | unknown _ _ _ _ hs | malformed _ _ hs
  | notReady _ hs | timedOut _ hs | ready _ _ hs | opened _ _ _ hs => exact hsent hs
  | authCrashes _ _ _ hs | readyCrashes _ hs | openFails _ hs | playCrashes _ _ _ hs | gone _ hs
  | tearsDown _ hs | quits _ _ hs | joined _ _ _ hs | openedCrashes _ _ hs => exact hstopped hs
  | handles _ _ _ _ hs =>
    cases hs with
    | answers _ _ hs | refuses _ hs | setupRefuses _ _ hs | setupAnswers _ _ hs => exact hsent hs
    | describeCrashes _ hs | setupCrashes _ _ hs => exact hstopped hs
    | waits hf =>
      intro url s cseq hp
      cases hp
      exact mem_hub_of_found hf
    | setupOpens => exact fun _ _ _ hp => by cases hp
  | skipped => exact hc
  | acquired | drained | playsOn | subscribes | closed => exact fun _ _ _ hp => by cases hp

theorem describeAnswer_body {url s cseq : Str} {sps pps : Option Bytes} {info : StreamInfo}
    {r : Response} {k : After} (h : describeAnswer url s cseq sps pps info = .answer r k) :
    ∃ a b, sps = some a ∧ pps = some b ∧
      r.body = encode (buildSdp s a b info.width info.height) := by
  unfold describeAnswer at h
  split at h
  · rename_i a b
    cases h
    exact ⟨a, b, rfl, rfl, rfl⟩
  · cases h

end
end Conn

namespace Describer

def DescribeInput.Read : DescribeInput → Prop
  | .conn i _ => i.Read
  | _ => True

/-- What the connection has done. -/
def effectsOf (h : List DescribeOutput) : List Effect :=
  h.filterMap fun
    | .conn e => some e
    | _ => none

theorem effectsOf_append (h h' : List DescribeOutput) :
    effectsOf (h ++ h') = effectsOf h ++ effectsOf h' := List.filterMap_append

theorem effectsOf_conn (es : List Effect) : effectsOf (es.map .conn) = es := by
  rw [effectsOf, List.filterMap_map]
  exact List.filterMap_some

/-- A response without a body, or with the description of a stream; that of `name` was built from
what `build_sdp` has got. -/
def Tells (srv : Server) (name : Str) (h : List DescribeOutput) (r : Response) : Prop :=
  r.body = [] ∨ ∃ s ∈ srv.hub, ∃ sps pps width height,
    r.body = encode (buildSdp s sps pps width height) ∧
      (s = name → .buildSdp (some sps) (some pps) ∈ h)

/-- What holds of a connection and its history. -/
structure Honest (srv : Server) (name : Str) (c : Conn) (h : List DescribeOutput) : Prop where
  waits : c.Waits srv
  answered : c.Answered (Tells srv name h) (effectsOf h)
  tidy : c.Tidy
  clean : Conn.AllClean (effectsOf h)

section
variable {srv : Server} {name : Str} {h o : List DescribeOutput} {r : Response}

theorem Tells.append (ht : Tells srv name h r) : Tells srv name (h ++ o) r := by
  rcases ht with hb | ⟨s, hs, sps, pps, w, l, hb, hm⟩
  · exact .inl hb
  · exact .inr ⟨s, hs, sps, pps, w, l, hb, fun he => List.mem_append_left _ (hm he)⟩

/-- A step of the connection. -/
theorem Honest.conn {c c' : Conn} {i : ConnInput} {es : List Effect} (hc : Honest srv name c h)
    (hs : c.step srv i = some (c', es)) (hi : i.Read) (ho : effectsOf o = es)
    (hready : ∀ url s cseq sps pps info, i = .loop (.ready (some sps) (some pps) info) →
      c.pc = .waitReady url s cseq → s = name → .buildSdp (some sps) (some pps) ∈ h ++ o) :
    Honest srv name c' (h ++ o) := by
  obtain ⟨htidy, hclean⟩ := hc.tidy.step hs hi
  have hold : ∀ r, .response r ∈ effectsOf h → Tells srv name (h ++ o) r :=
    fun r hr => (hc.answered.1 r hr).append
  have hpend : ∀ handler r k, c.pc = .locking handler r k → Tells srv name (h ++ o) r :=
    fun handler r k hp => (hc.answered.2 handler r k hp).append
  have hnew : c'.Waits srv ∧ c'.Answered (Tells srv name (h ++ o)) es := by
    rcases Conn.step_cases hs with ⟨j, rfl, hl⟩ | ⟨j, p, rfl, hp, hd, hps⟩
    · refine ⟨hl.waits hc.waits, hl.answered (fun r hb => .inl hb) ⟨by simp, hpend⟩ ?_⟩
      rintro url s cseq sps pps info r k rfl hpc ha
      obtain ⟨a, b, rfl, rfl, hb⟩ := Conn.describeAnswer_body ha
      exact .inr ⟨s, hc.waits url s cseq hpc, a, b, _, _, hb,
        hready url s cseq a b info rfl hpc⟩
    · have hpc := hps.untouched.pc
      refine ⟨fun url s cseq hw => hc.waits url s cseq (hpc ▸ hw),
        fun r hr => absurd hr (hps.no_response r), fun handler r k hl => hpend handler r k (hpc ▸ hl)⟩
  rw [← ho] at hclean hnew
  refine ⟨hnew.1, ⟨fun r hr => ?_, hnew.2.2⟩, htidy, ?_⟩
  · rw [effectsOf_append] at hr
    exact (List.mem_append.mp hr).elim (hold r) (hnew.2.1 r)
  · rw [effectsOf_append]
    exact Conn.allClean_append.mpr ⟨hc.clean, hclean⟩

/-- The wait of a DESCRIBE has ended. -/
theorem Honest.goOn {w : World} {c : Conn} {s' : Describer} (hc : Honest srv name c h)
    (hs : goOn srv w c = some (s', o)) : Honest srv name s'.conn (h ++ o) := by
  obtain ⟨⟨c', es⟩, hstep, he⟩ := Option.map_eq_some_iff.mp hs
  cases he
  refine hc.conn hstep trivial (effectsOf_conn es) ?_
  intro url s cseq sps pps info hi _ _
  simp only [ConnInput.loop.injEq, LoopInput.ready.injEq] at hi
  simp [hi.1, hi.2.1]

theorem Honest.step {s s' : Describer} {i : DescribeInput} (hc : Honest srv name s.conn h)
    (hs : s.step srv name i = some (s', o)) (hi : DescribeInput.Read i) :
    Honest srv name s'.conn (h ++ o) := by
  cases i with
  | hub i =>
    obtain ⟨-, hs⟩ := Option.ite_none_left_eq_some.mp hs
    obtain ⟨⟨w, o'⟩, -, he⟩ := Option.map_eq_some_iff.mp hs
    cases he
    rw [List.append_nil]
    exact hc
  | conn i now =>
    obtain ⟨hno, hs⟩ := Option.ite_none_left_eq_some.mp hs
    obtain ⟨⟨c, es⟩, hstep, hs⟩ := Option.bind_eq_some_iff.mp hs
    obtain ⟨w, -, hs⟩ := Option.bind_eq_some_iff.mp hs
    have hfirst : Honest srv name c (h ++ es.map .conn) := by
      refine hc.conn hstep hi (effectsOf_conn es) ?_
      rintro url s₀ cseq sps pps info rfl hpc rfl
      exact absurd ⟨awaits_iff.mpr ⟨url, cseq, hpc⟩, rfl⟩ hno
    split at hs
    · obtain ⟨⟨q, o'⟩, hgo, he⟩ := Option.map_eq_some_iff.mp hs
      cases he
      rw [← List.append_assoc]
      exact hfirst.goOn hgo
    · cases hs
      exact hfirst
  | resumed =>
    obtain ⟨-, hs⟩ := Option.ite_none_right_eq_some.mp hs
    obtain ⟨⟨w, o'⟩, -, hgo⟩ := Option.bind_eq_some_iff.mp hs
    exact hc.goOn hgo
  | timedOut =>
    obtain ⟨-, hs⟩ := Option.ite_none_right_eq_some.mp hs
    obtain ⟨⟨w, o'⟩, -, hs⟩ := Option.bind_eq_some_iff.mp hs
    obtain ⟨⟨c, es⟩, hstep, he⟩ := Option.map_eq_some_iff.mp hs
    cases he
    refine hc.conn hstep trivial (effectsOf_conn es) ?_
    intro _ _ _ _ _ _ hi
    cases hi

theorem honest_fresh (peer : Option Str) (ssrc : Nat) :
    Honest srv name (Conn.fresh peer ssrc) [] :=
  ⟨(fun _ _ _ hp => by cases hp), ⟨by simp [effectsOf], (fun _ _ _ hp => by cases hp)⟩,
    Conn.tidy_fresh peer ssrc, Conn.allClean_nil⟩

theorem Tells.reads (hn : ∀ s ∈ srv.hub, Inline s) (ht : Tells srv name h r) {v : SdpView}
    (hv : (decode r.body).bind readSdp = some v) :
    v.name ∈ srv.hub ∧ (v.name = name → ∃ sps pps, .buildSdp (some sps) (some pps) ∈ h ∧
      v.sets = [sps, pps] ∧ v.profile = (sps.drop 1).take 3) := by
  rcases ht with hb | ⟨s, hs, sps, pps, w, l, hb, hm⟩
  · rw [hb] at hv
    cases hv
  · rw [hb, decode_encode, Option.bind_some, readSdp_buildSdp s (hn s hs)] at hv
    cases hv
    exact ⟨hs, fun he => ⟨sps, pps, hm he, rfl, rfl⟩⟩

/-- A response that a client receives was sent. -/
theorem response_of_part {es : List Effect} {lines : List Bytes} {body : Bytes}
    (h : .response lines body ∈ Conn.parts es) : ∃ r, .response r ∈ es ∧ body = r.body := by
  obtain ⟨m, hm, he⟩ := List.mem_map.mp h
  obtain ⟨e, hes, hm⟩ := List.mem_flatMap.mp hm
  have hmem := Conn.mem_sent hes
  cases e with
  | response r =>
    cases List.mem_singleton.mp hm
    cases he
    exact ⟨r, hmem, rfl⟩
  | media ch packets =>
    obtain ⟨pkt, -, rfl⟩ := List.mem_map.mp hm
    cases he
  | _ => cases hm

end

/-- The description law. In every run of a stream and a connection, whatever the client takes out of
the bytes of the connection: each response with a description that it can read is about a stream of
the hub, and what it reads of this stream are the two parameter sets that `build_sdp` got of it. -/
theorem described_reads (srv : Server) (hn : ∀ s ∈ srv.hub, Inline s) (name : Str)
    (alwaysOn : Bool) (linger : ℚ) (peer : Option Str) (ssrc : Nat) (is : List DescribeInput)
    (s : Describer) (h : List DescribeOutput)
    (hr : run (step srv name) (fresh alwaysOn linger peer ssrc) is = some (s, h))
    (hread : ∀ i ∈ is, DescribeInput.Read i) :
    ∃ parts, Client.receive (Conn.wire (effectsOf h)) = some parts ∧
      ∀ lines body v, .response lines body ∈ parts → (decode body).bind readSdp = some v →
        v.name ∈ srv.hub ∧ (v.name = name → ∃ sps pps, .buildSdp (some sps) (some pps) ∈ h ∧
          v.sets = [sps, pps] ∧ v.profile = (sps.drop 1).take 3) := by
  have hc : Honest srv name s.conn h := by
    refine run_invariant (Q := fun _ _ i _ _ => DescribeInput.Read i)
      (fun s h => Honest srv name s.conn h) (honest_fresh peer ssrc) ?_
      (everyStep_of_forall_mem hread) hr
    exact fun _ _ _ _ _ hc hs hi => hc.step hs hi
  refine ⟨_, Conn.receive_wire hc.clean, fun lines body v hm hv => ?_⟩
  obtain ⟨r, hr, rfl⟩ := response_of_part hm
  exact (hc.answered.1 r hr).reads hn hv

/-- A DESCRIBE that waits for the first frame. -/
def describedRun : List DescribeInput :=
  [.conn (.loop (.request (encode "DESCRIBE rtsp://h/cam RTSP/1.0".toList)
      (.ofLines ["CSeq: 2\r\n".toList]) (hex [0x17, 0x2a]))) 0,
    .hub (.run 0 0 0 .begin), .hub (.run 0 0 0 (.frame setsFrame {})), .resumed]

theorem described_run : (run (step camServer "cam".toList) (fresh false 10 none 1) describedRun).map
    (fun r => decide (.buildSdp (some [0x67, 1]) (some [0x68, 2]) ∈ r.2)) = some true := by
  decide +kernel

theorem described_reads_cam : ∃ s h,
    run (step camServer "cam".toList) (fresh false 10 none 1) describedRun = some (s, h) ∧
    .buildSdp (some [0x67, 1]) (some [0x68, 2]) ∈ h ∧
    ∃ parts, Client.receive (Conn.wire (effectsOf h)) = some parts ∧
      ∀ lines body v, .response lines body ∈ parts → (decode body).bind readSdp = some v →
        v.name ∈ camServer.hub ∧ (v.name = "cam".toList → ∃ sps pps,
          .buildSdp (some sps) (some pps) ∈ h ∧ v.sets = [sps, pps] ∧
            v.profile = (sps.drop 1).take 3) := by
  obtain ⟨⟨s, h⟩, hr, he⟩ := Option.map_eq_some_iff.mp described_run
  refine ⟨s, h, hr, of_decide_eq_true he, ?_⟩
  refine described_reads camServer (by simp [camServer, Inline]) "cam".toList false 10 none 1
    describedRun s h hr ?_
  have hline : ReadLine "CSeq: 2\r\n".toList := by
    unfold ReadLine
    decide +kernel
  simp only [describedRun, List.forall_mem_cons]
  refine ⟨⟨⟨_, ?_, rfl⟩, _, rfl⟩, trivial, trivial, trivial, by simp⟩
  exact List.forall_mem_singleton.mpr hline

end Describer
end DvrBridge
