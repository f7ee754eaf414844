import DvrBridge.Machine
import DvrBridge.RtspSetupPrepared

/-! PLAY and its media follow the SETUP answered last, as long as failed SETUPs change nothing. -/
namespace DvrBridge.Conn
open Machine PyText

/-- The answers given in a step: written, or waiting for the lock. -/
def answers (c' : Conn) (o : List Effect) : List Response :=
  o.filterMap (fun | .response r => some r | _ => none) ++
    match c'.pc with
    | .locking _ r _ => [r]
    | _ => []

/-- A PLAY is answered, and with 200 exactly if a SETUP was; media go where that SETUP said; a
refused SETUP changes nothing. -/
structure PlaysAsSetUp (l : Log) (c c' : Conn) (o : List Effect) : Prop where
  play : .handler .play ∈ o →
    (c'.answers o).map (fun r => decide (r.code = 200)) = [l.setup.isSome]
  media : ∀ ch packets, .media ch packets ∈ o → ∃ r ∈ l.setup, Announces r "interleaved" ch
  datagram : ∀ e host port packet, .datagram e host port packet ∈ o →
    c.peer = some host ∧ ∃ r ∈ l.setup, Announces r "client_port" port
  setup : .handler .setup ∈ o → ∀ r ∈ c'.answers o, r.code ∈ [400, 404, 455, 461] →
    SameSession c c'

/-- Neither a handler nor media. -/
def Plain : Effect → Prop
  | .handler _ | .media _ _ | .datagram _ _ _ _ => False
  | _ => True

section steps
variable {srv : Server} {c c' : Conn} {l : Log} {o : List Effect}

theorem PlaysAsSetUp.of_plain (h : ∀ e ∈ o, Plain e) : PlaysAsSetUp l c c' o :=
  ⟨fun he => (h _ he).elim, fun _ _ he => (h _ he).elim, fun _ _ _ _ he => (h _ he).elim,
    fun he => (h _ he).elim⟩

theorem plain_released (c : Conn) : ∀ e ∈ c.released, Plain e :=
  forall_mem_released (fun _ => trivial) c

theorem plain_cons {e : Effect} (he : Plain e) (h : ∀ e ∈ o, Plain e) :
    ∀ e' ∈ e :: o, Plain e' :=
  List.forall_mem_cons.mpr ⟨he, h⟩

theorem Sent.plain {handler : Option Str} {r : Response} {k : After}
    (h : Sent c handler r k c' o) : ∀ e ∈ o, Plain e := by
  cases h <;> simp [Plain]

theorem Stopped.plain {why : Leave} (h : Stopped c why c' o) : ∀ e ∈ o, Plain e := by
  cases h with
  | joins => simp
  | tornDown | closes => exact List.forall_mem_append.mpr ⟨plain_released c, by simp [Plain]⟩

theorem HandlerStep.plain {url cseq token : Str} {headers : Headers} {m : Method}
    (h : HandlerStep srv c url headers cseq token m c' o) : ∀ e ∈ o, Plain e := by
  cases h with
  | answers _ _ hs | refuses _ hs => exact hs.plain
  | describeCrashes _ hs => exact plain_cons trivial hs.plain
  | waits => simp [Plain]
  | setupCrashes _ _ hs =>
    exact List.forall_mem_append.mpr ⟨plain_released c, plain_cons trivial hs.plain⟩
  | setupRefuses _ _ hs | setupAnswers _ _ hs =>
    exact List.forall_mem_append.mpr ⟨plain_released c, hs.plain⟩
  | setupOpens => exact plain_released c

theorem Sent.answers {handler : Option Str} {r : Response} {k : After}
    (h : Sent c handler r k c' o) : c'.answers o = [r] := by
  cases h <;> rfl

theorem answers_cons {e : Effect} (h : ∀ r, e ≠ .response r) (c' : Conn) (o : List Effect) :
    c'.answers (e :: o) = c'.answers o := by
  cases e with
  | response r => exact absurd rfl (h r)
  | _ => rfl

theorem answers_released (c c' : Conn) (o : List Effect) :
    c'.answers (c.released ++ o) = c'.answers o := by
  unfold released releaseTransport
  cases c.udp <;> rfl

theorem Stopped.answers {why : Leave} (h : Stopped c why c' o) : c'.answers o = [] := by
  cases h with
  | joins => rfl
  | tornDown | closes => exact answers_released ..

/-- A PLAY goes through exactly if a transport was announced. -/
theorem onPlay_cases {s : Option Response} (h : c.Announced s) (url cseq : Str) :
    (∃ r k, c.onPlay url cseq = .answer r k ∧ r.code = 200 ∧ s.isSome = true) ∨
    (∃ e, c.onPlay url cseq = .raise e ∧ e.code = 455 ∧ s.isSome = false) := by
  unfold onPlay
  cases s with
  | none =>
    rw [if_pos (.inr (by simp [h.1, h.2]))]
    exact .inr ⟨_, rfl, rfl, rfl⟩
  | some r =>
    rw [if_neg]
    · exact .inl ⟨_, _, rfl, rfl, rfl⟩
    · rintro (hst | ⟨hin, hu⟩)
      · have := h.1
        rw [Option.isNone_iff_eq_none.mp hst] at this
        cases this
      · exact h.2.1 (Option.isNone_iff_eq_none.mp hin) (Option.isNone_iff_eq_none.mp hu)

theorem HandlerStep.play {url cseq token : Str} {headers : Headers}
    (h : HandlerStep srv c url headers cseq token .play c' o) (ha : c.Announced l.setup) :
    (c'.answers o).map (fun r => decide (r.code = 200)) = [l.setup.isSome] := by
  have hplay := onPlay_cases ha url cseq
  cases h with
  | answers _ hh hs =>
    rw [hs.answers]
    have ho := congrArg (·.2.2) hh
    change c.onPlay url cseq = _ at ho
    rcases hplay with ⟨r, k, he, h200, hsome⟩ | ⟨e, he, -⟩
    · cases he.symm.trans ho
      simp only [List.map_cons, List.map_nil, h200, hsome, decide_true]
    · cases he.symm.trans ho
  | refuses hh hs =>
    rw [hs.answers]
    have ho := congrArg (·.2.2) hh
    change c.onPlay url cseq = _ at ho
    rcases hplay with ⟨r, k, he, -⟩ | ⟨e, he, h455, hsome⟩
    · cases he.symm.trans ho
    · rw [← Outcome.raise.inj (he.symm.trans ho)]
      have hne : ¬ (Response.ofError e cseq).code = 200 := fun h200 => by
        cases h455.symm.trans h200
      simp only [List.map_cons, List.map_nil, hne, hsome, decide_false]

/-- Whether a refused SETUP changes nothing can be told beforehand. -/
theorem HandlerStep.setup_iff {url cseq token : Str} {headers : Headers}
    (h : HandlerStep srv c url headers cseq token .setup c' o) :
    (∀ r ∈ c'.answers o, r.code ∈ [400, 404, 455, 461] → SameSession c c') ↔
      LeavesSession srv c url headers token := by
  generalize hm : Method.setup = m at h
  cases h with
  | answers hne => exact absurd hm.symm hne
  | describeCrashes | waits => cases hm
  | refuses hr hs =>
    subst hm
    refine iff_of_true (fun _ _ _ => ?_) ?_
    · rw [hs.session]
      exact ⟨rfl, rfl, rfl, rfl⟩
    · by_cases hn : c.playTask = none
      · obtain ⟨c₁, out, he, hset⟩ := onSetup_step srv url headers cseq token hn
        change c.onSetup srv url headers cseq token = _ at hr
        obtain ⟨rfl, hrest⟩ := Prod.mk.inj (he.symm.trans hr)
        obtain ⟨-, rfl⟩ := Prod.mk.inj hrest
        exact (hset.sameSession_iff hn).mp ⟨rfl, rfl, rfl, rfl⟩
      · exact .inl hn
  | setupCrashes _ hset hs =>
    refine iff_of_true ?_ (hset.leavesSession (by simp))
    rw [answers_released, answers_cons (by simp), hs.answers]
    simp
  | setupRefuses hn hset hs =>
    rw [answers_released, hs.answers, ← hset.sameSession_iff hn, hs.session]
    have hcode := hset.code
    simp only [List.mem_cons, List.not_mem_nil, or_false] at hcode
    rw [List.forall_mem_singleton]
    refine ⟨fun h => h ?_, fun h _ => h⟩
    simp only [Response.ofError, List.mem_cons, List.not_mem_nil, or_false]
    omega
  | @setupAnswers _ _ r k _ hn hset hs =>
    refine iff_of_true ?_ (hset.leavesSession (by simp))
    rw [answers_released, hs.answers, List.forall_mem_singleton]
    intro hr
    generalize ho : Outcome.answer r k = out at hset
    cases hset with
    | tcp =>
      obtain ⟨rfl, rfl⟩ := Outcome.answer.inj ho
      simp [Response.ok] at hr
    | _ => cases ho
  | setupOpens _ hset =>
    refine iff_of_true ?_ (hset.leavesSession (by simp))
    rw [← List.append_nil c.released, answers_released]
    simp [Conn.answers]

theorem playsAsSetUp_handler {m : Method} (h : ∀ e ∈ o, Plain e)
    (hplay : m = .play →
      (c'.answers o).map (fun r => decide (r.code = 200)) = [l.setup.isSome]) :
    PlaysAsSetUp l c c' (.handler m :: o) ↔
      (m = .setup → ∀ r ∈ c'.answers o, r.code ∈ [400, 404, 455, 461] → SameSession c c') := by
  have hm {m' : Method} : .handler m' ∈ Effect.handler m :: o → m = m' := by
    intro he
    rcases List.mem_cons.mp he with he | he
    · exact (Effect.handler.inj he).symm
    · exact (h _ he).elim
  have hans : c'.answers (.handler m :: o) = c'.answers o := answers_cons (by simp) c' o
  constructor
  · rintro hlaw rfl
    have := hlaw.setup (List.mem_cons_self ..)
    rwa [hans] at this
  · intro hset
    refine ⟨fun he => ?_, fun _ _ he => ?_, fun _ _ _ _ he => ?_, fun he => ?_⟩
    · rw [hans]
      exact hplay (hm he)
    · rcases List.mem_cons.mp he with he | he
      · cases he
      · exact (h _ he).elim
    · rcases List.mem_cons.mp he with he | he
      · cases he
      · exact (h _ he).elim
    · rw [hans]
      exact hset (hm he)

/-- A step of the request loop keeps the law exactly if a refused SETUP in it changes nothing. -/
theorem Prepared.loop_iff {i : LoopInput} (h : Prepared c l) (hs : LoopStep srv c i c' o) :
    PlaysAsSetUp l c c' o ↔ c.SetupsLeave srv (.loop i) := by
  -- a step without a handler, and a request that reaches none
  have hquiet (hp : ∀ e ∈ o, Plain e) (hC : c.SetupsLeave srv (.loop i)) :
      PlaysAsSetUp l c c' o ↔ c.SetupsLeave srv (.loop i) := iff_of_true (.of_plain hp) hC
  cases hs with
  | badLine _ ht hs => exact hquiet hs.plain fun _ _ _ he => absurd he (ht _ _ _)
  | unauthorized _ ht hg hs =>
    refine hquiet hs.plain fun method url v he hpass => ?_
    cases ht.symm.trans he
    cases hg.symm.trans hpass
  | authCrashes _ ht hg hs =>
    refine hquiet (plain_cons trivial hs.plain) fun method url v he hpass => ?_
    cases ht.symm.trans he
    cases hg.symm.trans hpass
  | unknown _ ht _ hm hs =>
    refine hquiet hs.plain fun method url v he _ hset => ?_
    cases ht.symm.trans he
    cases hm.symm.trans hset
  | @handles line headers token method url v m _ _ hp ht hg hm hstep =>
    have ha := h.announced (by rw [hp]; rfl)
    have hC : c.SetupsLeave srv (.loop (.request line headers token)) ↔
        (m = .setup → LeavesSession srv c url headers token) := by
      constructor
      · rintro hC rfl
        exact hC method url v ht hg hm
      · intro hC method' url' v' ht' _ hm'
        cases ht.symm.trans ht'
        exact hC (Option.some.inj (hm.symm.trans hm'))
    rw [playsAsSetUp_handler hstep.plain fun hm => ?_, hC]
    · by_cases hset : m = .setup
      · subst hset
        simp only [true_implies]
        exact hstep.setup_iff
      · simp only [hset, false_implies]
    · subst hm
      exact hstep.play ha
  | skipped => exact hquiet (by simp) trivial
  | malformed _ _ hs | ready _ _ hs | notReady _ hs | timedOut _ hs => exact hquiet hs.plain trivial
  | gone _ hs | tearsDown _ hs | joined _ _ _ hs => exact hquiet hs.plain trivial
  | readyCrashes _ hs | openFails _ hs | playCrashes _ _ _ hs =>
    exact hquiet (plain_cons trivial hs.plain) trivial
  | opened _ _ _ hs => exact hquiet (plain_cons trivial hs.plain) trivial
  | openedCrashes _ _ hs => exact hquiet (plain_cons trivial (plain_cons trivial hs.plain)) trivial
  | acquired | drained | playsOn | subscribes | closed => exact hquiet (by simp [Plain]) trivial
  | quits _ hi hs =>
    refine hquiet hs.plain ?_
    rcases hi with ⟨rfl, -⟩ | rfl | ⟨rfl, -⟩ <;> trivial

theorem Exited.plain {p : Pump} (h : Exited c p c' o) : ∀ e ∈ o, Plain e := by
  cases h <;> simp [Plain]

/-- Media go where the SETUP answered last said. -/
theorem Prepared.pump_law {p : Pump} {i : PumpInput} (h : Prepared c l)
    (hp : c.playTask = some p) (hs : PumpStep c p i c' o) : PlaysAsSetUp l c c' o := by
  have ha := h.announced (h.settled (by simp [hp]))
  have hann {ch hi : Int} (hin : c.interleaved = some (ch, hi)) :
      ∃ r ∈ l.setup, Announces r "interleaved" ch := by
    cases hset : l.setup with
    | none =>
      rw [hset] at ha
      cases ha.1.symm.trans hin
    | some r =>
      rw [hset] at ha
      exact ⟨r, rfl, ha.2.2.1 ch hi hin⟩
  have hmedia {ch : Int} {packets : List Bytes} (hr : ∃ r ∈ l.setup, Announces r "interleaved" ch) :
      PlaysAsSetUp l c c' [.media ch packets] := by
    refine ⟨by simp, ?_, by simp, by simp⟩
    intro ch' packets' he
    cases List.mem_singleton.mp he
    exact hr
  cases hs with
  | cancelledGetting _ _ hex | cancelledWaiting _ _ hex | cancelledDraining _ _ hex
  | lost _ _ hex => exact .of_plain hex.plain
  | crashes _ _ _ hex | crashTurn _ _ _ hex => exact .of_plain (plain_cons trivial hex.plain)
  | unstarted | starts | queues | drops | drained | crashWaits => exact .of_plain (by simp)
  | writes _ _ hin => exact hmedia (hann hin)
  | acquired hl =>
    obtain ⟨hi, hin⟩ := h.pump _ _ _ hp hl
    exact hmedia (hann hin)
  | @sends _ e host port _ _ hin hu =>
    refine ⟨by simp, by simp, ?_, by simp⟩
    intro e' host' port' packet he
    obtain ⟨_, -, he⟩ := List.mem_map.mp he
    cases he
    cases hset : l.setup with
    | none =>
      rw [hset] at ha
      cases ha.2.symm.trans hu
    | some r =>
      rw [hset] at ha
      obtain ⟨hpeer, hr⟩ := ha.2.2.2 _ _ _ hu
      exact ⟨hpeer, r, rfl, hr⟩

theorem Prepared.step_iff {i : ConnInput} (h : Prepared c l) (hs : c.step srv i = some (c', o)) :
    PlaysAsSetUp l c c' o ↔ c.SetupsLeave srv i := by
  rcases step_cases hs with ⟨j, rfl, hj⟩ | ⟨j, p, rfl, hp, -, hps⟩
  · exact h.loop_iff hj
  · exact iff_of_true (h.pump_law hp hps) trivial

end steps

theorem prepared_fresh (peer : Option Str) (ssrc : Nat) : Prepared (fresh peer ssrc) {} :=
  ⟨fun _ => ⟨rfl, rfl⟩, fun _ => rfl, by simp [fresh], trivial, .of_none rfl⟩

/-- Over every run: PLAY is answered 200 exactly when a SETUP was since the last TEARDOWN, its media
go where that SETUP announced and refused SETUPs change nothing, if and only if every SETUP that
reaches its handler succeeds or has nothing to change. -/
theorem plays_as_set_up_iff (srv : Server) (peer : Option Str) (ssrc : Nat) (is : List ConnInput) :
    EveryStep (step srv) (fun c h _ c' o => PlaysAsSetUp (Log.after {} h) c c' o)
      (fresh peer ssrc) is ↔
    EveryStep (step srv) (fun c _ i _ _ => c.SetupsLeave srv i) (fresh peer ssrc) is := by
  refine everyStep_iff (B := fun _ _ _ _ _ => True)
    (fun c h => c.LockAgrees ∧ Prepared c (Log.after {} h))
    ⟨lockAgrees_fresh peer ssrc, prepared_fresh peer ssrc⟩ ?_ ?_
    fun _ _ _ _ _ _ _ _ _ _ => trivial
  · rintro c h i c' o ⟨hl, hp⟩ hs - hC
    rw [Log.after_append]
    exact ⟨hl.step hs, hp.step hl hs hC⟩
  · rintro c h i c' o ⟨-, hp⟩ hs -
    exact hp.step_iff hs

/-- A SETUP refused for its channels is the only one, and PLAY goes through. -/
def playsAfterRefusal : List ConnInput :=
  [request "SETUP rtsp://h/cam RTSP/1.0" [("transport", "RTP/AVP/TCP;interleaved=abc")],
    .loop .drained] ++
  [request "PLAY rtsp://h/cam RTSP/1.0" []]

theorem refused_setup_plays :
    ¬ EveryStep (step { hub := ["cam".toList], urlPath := plainPath })
      (fun c h _ c' o => PlaysAsSetUp (Log.after {} h) c c' o)
      (fresh (some "c".toList) 1) playsAfterRefusal := by
  intro h
  refine not_everyStep (Q := fun _ h _ c' o => .handler .play ∈ o →
    (c'.answers o).map (fun r => decide (r.code = 200)) = [(Log.after {} h).setup.isSome])
    ?_ (h.mono fun _ _ _ _ _ hlaw => hlaw.play)
  decide +kernel

end DvrBridge.Conn
