import DvrBridge.RtspConnection

/-! What one step of a connection can do, said once: the two outcomes of an answer and of
`_stop_play`, and one case for every way on of the request loop and of the pump. -/
namespace DvrBridge.Conn
open PyText

/-- An answer is written, or waits for the lock; the session stays. -/
inductive Sent (c : Conn) (handler : Option Str) (r : Response) (k : After) :
    Conn → List Effect → Prop
  | written : c.lock.free = true →
      Sent c handler r k { c.hold .loop with pc := .draining handler k } [.response r]
  | queued : c.lock.free = false →
      Sent c handler r k { c.queueUp .loop with pc := .locking handler r k } []

theorem respond_sent (c : Conn) (handler : Option Str) (r : Response) (k : After) :
    Sent c handler r k (c.respond handler r k).1 (c.respond handler r k).2 := by
  unfold respond
  split
  · exact .written ‹_›
  · rename_i h
    exact .queued (by simpa using h)

theorem Sent.session {c c' : Conn} {handler : Option Str} {r : Response} {k : After}
    {o : List Effect} (h : Sent c handler r k c' o) :
    c' = { c with lock := c'.lock, pc := c'.pc } := by
  cases h <;> rfl

/-- With a free lock an answer is written at once. -/
theorem Sent.of_free {c c' : Conn} {handler : Option Str} {r : Response} {k : After}
    {o : List Effect} (h : Sent c handler r k c' o) (hf : c.lock.free = true) :
    c' = { c.hold .loop with pc := .draining handler k } ∧ o = [.response r] := by
  cases h with
  | written => exact ⟨rfl, rfl⟩
  | queued hq => simp [hq] at hf

/-- The transport effects of `_release_transport`. -/
def released (c : Conn) : List Effect := c.releaseTransport.2

theorem mem_released {c : Conn} {e : Effect} (h : e ∈ c.released) : ∃ n, e = .closeUdp n := by
  unfold released releaseTransport at h
  split at h
  · exact ⟨_, List.mem_singleton.mp h⟩
  · cases h

theorem forall_mem_released {P : Effect → Prop} (h : ∀ n, P (.closeUdp n)) (c : Conn) :
    ∀ e ∈ c.released, P e := by
  intro e he
  obtain ⟨n, rfl⟩ := mem_released he
  exact h n

theorem not_mem_released {e : Effect} (h : ∀ n, e ≠ .closeUdp n) (c : Conn) : e ∉ c.released := by
  intro he
  obtain ⟨n, hn⟩ := mem_released he
  exact h n hn

/-- `_stop_play` cancels a running pump and awaits it, or goes on to the end of its caller. -/
inductive Stopped (c : Conn) : Leave → Conn → List Effect → Prop
  | joins {why : Leave} (p : Pump) : c.playTask = some p → p.pc ≠ .done →
      Stopped c why
        { c with playTask := some { p with cancelRequested := true }, pc := .joining why } []
  | tornDown : (∀ p, c.playTask = some p → p.pc = .done) →
      Stopped c .teardown
        { c with playTask := none, udp := none, interleaved := none, stream := none,
                 sessionId := none, pc := .reading }
        (c.released ++ [.teardownDone])
  | closes : (∀ p, c.playTask = some p → p.pc = .done) →
      Stopped c .close { c with playTask := none, udp := none, interleaved := none, pc := .closing }
        (c.released ++ [.closeWriter])

theorem afterStop_stopped {c : Conn} (why : Leave)
    (h : ∀ p, c.playTask = some p → p.pc = .done) :
    Stopped c why (({ c with playTask := none } : Conn).afterStop why).1
      (({ c with playTask := none } : Conn).afterStop why).2 := by
  cases why with
  | teardown => exact .tornDown h
  | close => exact .closes h

theorem stopPlay_stopped (c : Conn) (why : Leave) :
    Stopped c why (c.stopPlay why).1 (c.stopPlay why).2 := by
  unfold stopPlay
  split
  · rename_i hn
    have he : ({ c with playTask := none } : Conn) = c := by
      rw [← hn]
    have := afterStop_stopped (c := c) why (by simp [hn])
    rwa [he] at this
  · rename_i p hp
    split
    · exact afterStop_stopped why (by simpa [hp])
    · exact .joins p hp ‹_›

/-- The connection after `_release_transport`. -/
def cleared (c : Conn) : Conn := { c with udp := none, interleaved := none }

/-- The connection once a SETUP has found its stream. -/
def placed (c : Conn) (s token : Str) : Conn :=
  { c.cleared with
    stream := some s
    sessionId := if c.sessionId.getD [] = [] then some token else c.sessionId }

/-- What a SETUP does when no `play_task` exists. -/
inductive SetupStep (srv : Server) (c : Conn) (url : Str) (headers : Headers)
    (cseq token : Str) : Conn → Outcome → Prop
  | crash : srv.streamFor url = .valueError →
      SetupStep srv c url headers cseq token c.cleared .crash
  | notFound : srv.streamFor url = .notFound →
      SetupStep srv c url headers cseq token c.cleared (.raise .notFound)
  | tcp {s : Str} {v : Int × Int} : srv.streamFor url = .found s → isTcp headers = true →
      interleavedFields (0, 1) (transportFields headers) = (v, true) →
      SetupStep srv c url headers cseq token { c.placed s token with interleaved := some v }
        ({ c.placed s token with interleaved := some v }.setupAnswer cseq
          (c.interleavedTransport v))
  | tcpBad {s : Str} {v : Int × Int} : srv.streamFor url = .found s → isTcp headers = true →
      interleavedFields (0, 1) (transportFields headers) = (v, false) →
      SetupStep srv c url headers cseq token { c.placed s token with interleaved := some v }
        (.raise .badRequest)
  | udp {s : Str} {port : Int} : srv.streamFor url = .found s → isTcp headers = false →
      isUdp headers = true →
      clientPortFields none (transportFields headers) = some (some port) →
      SetupStep srv c url headers cseq token (c.placed s token) (.openUdp port)
  | udpBad {s : Str} {e : RtspError} : srv.streamFor url = .found s → isTcp headers = false →
      (isUdp headers = true → ∀ port,
        clientPortFields none (transportFields headers) ≠ some (some port)) →
      e = .badRequest ∨ e = .unsupportedTransport →
      SetupStep srv c url headers cseq token (c.placed s token) (.raise e)

theorem setupTransport_step {srv : Server} {c : Conn} {url s : Str} (headers : Headers)
    (cseq token : Str) (hs : srv.streamFor url = .found s) :
    SetupStep srv c url headers cseq token
      ({ c.cleared with stream := some s }.setupTransport headers cseq token).1
      ({ c.cleared with stream := some s }.setupTransport headers cseq token).2 := by
  unfold setupTransport
  cases ht : isTcp headers with
  | true =>
    obtain ⟨v, good, hv⟩ : ∃ v good,
        interleavedFields (0, 1) (transportFields headers) = (v, good) := ⟨_, _, rfl⟩
    cases good with
    | true =>
      simp only [hv, if_true]
      exact .tcp hs ht hv
    | false =>
      simp only [hv, if_true]
      exact .tcpBad hs ht hv
  | false =>
    cases hu : isUdp headers with
    | true =>
      simp only [Bool.false_eq_true, if_false, if_true]
      cases hp : clientPortFields none (transportFields headers) with
      | none => exact .udpBad hs ht (by simp [hp]) (.inl rfl)
      | some port =>
        cases port with
        | none => exact .udpBad hs ht (by simp [hp]) (.inr rfl)
        | some port => exact .udp hs ht hu hp
    | false => exact .udpBad hs ht (by simp [hu]) (.inr rfl)

theorem onSetup_step (srv : Server) {c : Conn} (url : Str) (headers : Headers) (cseq token : Str)
    (hn : c.playTask = none) : ∃ c₁ out,
    c.onSetup srv url headers cseq token = (c₁, c.released, out) ∧
      SetupStep srv c url headers cseq token c₁ out := by
  have hne : ¬ c.playTask.isSome = true := by simp [hn]
  simp only [onSetup, if_neg hne]
  cases hs : srv.streamFor url with
  | valueError => exact ⟨_, _, rfl, .crash hs⟩
  | notFound => exact ⟨_, _, rfl, .notFound hs⟩
  | found s => exact ⟨_, _, rfl, setupTransport_step headers cseq token hs⟩

theorem onSetup_busy (srv : Server) {c : Conn} (url : Str) (headers : Headers) (cseq token : Str)
    (hp : c.playTask.isSome = true) :
    c.onSetup srv url headers cseq token = (c, [], .raise .badState) := by
  simp [onSetup, hp]

theorem SetupStep.error {srv : Server} {c c₁ : Conn} {url : Str} {headers : Headers}
    {cseq token : Str} {e : RtspError}
    (h : SetupStep srv c url headers cseq token c₁ (.raise e)) :
    e ∈ [RtspError.badRequest, .notFound, .unsupportedTransport] := by
  cases h with
  | notFound => decide
  | tcpBad => decide
  | udpBad _ _ _ he => rcases he with rfl | rfl <;> decide

theorem SetupStep.code {srv : Server} {c c₁ : Conn} {url : Str} {headers : Headers}
    {cseq token : Str} {e : RtspError}
    (h : SetupStep srv c url headers cseq token c₁ (.raise e)) : e.code ∈ [400, 404, 461] :=
  List.mem_map_of_mem (f := RtspError.code) h.error

/-- The errors that the handlers raise. -/
theorem handle_raise {srv : Server} {c c₁ : Conn} {m : Method} {url : Str} {headers : Headers}
    {cseq token : Str} {o : List Effect} {e : RtspError}
    (h : c.handle srv m url headers cseq token = (c₁, o, .raise e)) :
    e ∈ [RtspError.badRequest, .notFound, .badState, .unsupportedTransport] := by
  cases m with
  | options | pause | getParameter | setParameter | teardown => cases h
  | describe =>
    simp only [handle, onDescribe] at h
    split at h <;> cases h
    decide
  | play =>
    simp only [handle, onPlay] at h
    split at h <;> cases h
    decide
  | setup =>
    simp only [handle] at h
    cases hp : c.playTask with
    | some p =>
      rw [onSetup_busy srv url headers cseq token (by simp [hp])] at h
      cases h
      decide
    | none =>
      obtain ⟨c₂, out, he, hstep⟩ := onSetup_step srv url headers cseq token hp
      rw [he] at h
      cases h
      have := hstep.error
      simp only [List.mem_cons, List.not_mem_nil, or_false] at this ⊢
      tauto

theorem handle_raise_code {srv : Server} {c c₁ : Conn} {m : Method} {url : Str}
    {headers : Headers} {cseq token : Str} {o : List Effect} {e : RtspError}
    (h : c.handle srv m url headers cseq token = (c₁, o, .raise e)) :
    e.code ∈ [400, 404, 455, 461] :=
  List.mem_map_of_mem (f := RtspError.code) (handle_raise h)

/-- The ways on of a handler up to its first suspension. -/
inductive HandlerStep (srv : Server) (c : Conn) (url : Str) (headers : Headers)
    (cseq token : Str) : Method → Conn → List Effect → Prop
  | answers {m : Method} {r : Response} {k : After} {c' : Conn} {o : List Effect} :
      m ≠ .setup → c.handle srv m url headers cseq token = (c, [], .answer r k) →
      Sent c (some cseq) r k c' o → HandlerStep srv c url headers cseq token m c' o
  | refuses {m : Method} {e : RtspError} {c' : Conn} {o : List Effect} :
      c.handle srv m url headers cseq token = (c, [], .raise e) →
      Sent c none (.ofError e cseq) .next c' o → HandlerStep srv c url headers cseq token m c' o
  | describeCrashes {c' : Conn} {o : List Effect} : srv.streamFor url = .valueError →
      Stopped c .close c' o → HandlerStep srv c url headers cseq token .describe c' (.crashed :: o)
  | waits {s : Str} : srv.streamFor url = .found s →
      HandlerStep srv c url headers cseq token .describe { c with pc := .waitReady url s cseq }
        [.touch s]
  | setupCrashes {c₁ c' : Conn} {o : List Effect} : c.playTask = none →
      SetupStep srv c url headers cseq token c₁ .crash → Stopped c₁ .close c' o →
      HandlerStep srv c url headers cseq token .setup c' (c.released ++ .crashed :: o)
  | setupRefuses {c₁ c' : Conn} {e : RtspError} {o : List Effect} : c.playTask = none →
      SetupStep srv c url headers cseq token c₁ (.raise e) →
      Sent c₁ none (.ofError e cseq) .next c' o →
      HandlerStep srv c url headers cseq token .setup c' (c.released ++ o)
  | setupAnswers {c₁ c' : Conn} {r : Response} {k : After} {o : List Effect} : c.playTask = none →
      SetupStep srv c url headers cseq token c₁ (.answer r k) → Sent c₁ (some cseq) r k c' o →
      HandlerStep srv c url headers cseq token .setup c' (c.released ++ o)
  | setupOpens {c₁ : Conn} {port : Int} : c.playTask = none →
      SetupStep srv c url headers cseq token c₁ (.openUdp port) →
      HandlerStep srv c url headers cseq token .setup { c₁ with pc := .opening port cseq }
        c.released

theorem runHandler_step (srv : Server) (c : Conn) (m : Method) (url : Str) (headers : Headers)
    (cseq token : Str) : ∃ o, HandlerStep srv c url headers cseq token m
        (c.runHandler srv m url headers cseq token).1 o ∧
      (c.runHandler srv m url headers cseq token).2 = .handler m :: o := by
  cases m with
  | options | pause | getParameter | setParameter | teardown =>
    exact ⟨_, .answers (by simp) rfl (respond_sent ..), rfl⟩
  | describe =>
    simp only [runHandler, handle, onDescribe]
    cases hs : srv.streamFor url with
    | valueError => exact ⟨_, .describeCrashes hs (stopPlay_stopped c .close), rfl⟩
    | notFound =>
      refine ⟨_, .refuses (e := .notFound) ?_ (respond_sent ..), rfl⟩
      simp [handle, onDescribe, hs]
    | found s => exact ⟨_, .waits hs, rfl⟩
  | play =>
    simp only [runHandler, handle]
    cases hp : c.onPlay url cseq with
    | answer r k =>
      exact ⟨_, .answers (by simp) (by simp [handle, hp]) (respond_sent ..), rfl⟩
    | raise e => exact ⟨_, .refuses (by simp [handle, hp]) (respond_sent ..), rfl⟩
    | _ =>
      simp only [onPlay] at hp
      split at hp <;> cases hp
  | setup =>
    simp only [runHandler, handle]
    cases hp : c.playTask with
    | some p =>
      rw [onSetup_busy srv url headers cseq token (by simp [hp])]
      refine ⟨_, .refuses (e := .badState) ?_ (respond_sent ..), rfl⟩
      exact onSetup_busy srv url headers cseq token (by simp [hp])
    | none =>
      obtain ⟨c₁, out, he, hstep⟩ := onSetup_step srv url headers cseq token hp
      rw [he]
      cases out with
      | answer r k => exact ⟨_, .setupAnswers hp hstep (respond_sent ..), rfl⟩
      | raise e => exact ⟨_, .setupRefuses hp hstep (respond_sent ..), rfl⟩
      | crash => exact ⟨_, .setupCrashes hp hstep (stopPlay_stopped c₁ .close), rfl⟩
      | openUdp port =>
        refine ⟨_, .setupOpens hp hstep, ?_⟩
        simp [finish]
      | waitReady s => cases hstep

/-- The tokens of a request line. -/
def tokens (line : Bytes) : List Str := split (strip (latin1 line))

/-- Everything a step of the request loop can do. -/
inductive LoopStep (srv : Server) (c : Conn) : LoopInput → Conn → List Effect → Prop
  | badLine {line : Bytes} {headers : Headers} {token : Str} {c' : Conn} {o : List Effect} :
      c.pc = .reading → (∀ a b d, tokens line ≠ [a, b, d]) →
      Sent c none { code := 400, reason := "Bad Request".toList } .next c' o →
      LoopStep srv c (.request line headers token) c' o
  | unauthorized {line : Bytes} {headers : Headers} {token method url v : Str} {c' : Conn}
      {o : List Effect} : c.pc = .reading → tokens line = [method, url, v] →
      gate srv method headers = .unauthorized →
      Sent c none (.ofError .unauthorized (headers.get "cseq" "0")) .next c' o →
      LoopStep srv c (.request line headers token) c' o
  | authCrashes {line : Bytes} {headers : Headers} {token method url v : Str} {c' : Conn}
      {o : List Effect} : c.pc = .reading → tokens line = [method, url, v] →
      gate srv method headers = .typeError → Stopped c .close c' o →
      LoopStep srv c (.request line headers token) c' (.crashed :: o)
  | unknown {line : Bytes} {headers : Headers} {token method url v : Str} {c' : Conn}
      {o : List Effect} : c.pc = .reading → tokens line = [method, url, v] →
      gate srv method headers = .pass → handlerOf method = none →
      Sent c none (.ofError .notImplemented (headers.get "cseq" "0")) .next c' o →
      LoopStep srv c (.request line headers token) c' o
  | handles {line : Bytes} {headers : Headers} {token method url v : Str} {m : Method} {c' : Conn}
      {o : List Effect} : c.pc = .reading → tokens line = [method, url, v] →
      gate srv method headers = .pass → handlerOf method = some m →
      HandlerStep srv c url headers (headers.get "cseq" "0") token m c' o →
      LoopStep srv c (.request line headers token) c' (.handler m :: o)
  | skipped : c.pc = .reading → LoopStep srv c .skipped c []
  | malformed {e : RtspError} {c' : Conn} {o : List Effect} : c.pc = .reading →
      e ∈ [RtspError.badRequest, .bodyTooLarge, .headersTooLarge] →
      Sent c none { code := e.code, reason := e.reason.toList } .close c' o →
      LoopStep srv c (.malformed e) c' o
  | gone {c' : Conn} {o : List Effect} : c.pc = .reading → Stopped c .close c' o →
      LoopStep srv c .gone c' o
  | ready {url s cseq : Str} {sps pps : Option Bytes} {info : StreamInfo} {r : Response} {k : After}
      {c' : Conn} {o : List Effect} : c.pc = .waitReady url s cseq →
      describeAnswer url s cseq sps pps info = .answer r k → Sent c (some cseq) r k c' o →
      LoopStep srv c (.ready sps pps info) c' o
  | readyCrashes {url s cseq : Str} {sps pps : Option Bytes} {info : StreamInfo} {c' : Conn}
      {o : List Effect} : c.pc = .waitReady url s cseq → Stopped c .close c' o →
      LoopStep srv c (.ready sps pps info) c' (.crashed :: o)
  | notReady {url s cseq : Str} {c' : Conn} {o : List Effect} : c.pc = .waitReady url s cseq →
      Sent c none ⟨504, "Gateway Timeout".toList, [("CSeq".toList, cseq)], []⟩ .next c' o →
      LoopStep srv c .notReady c' o
  | opened {port serverPort : Int} {cseq host : Str} {r : Response} {k : After} {c' : Conn}
      {o : List Effect} : c.pc = .opening port cseq → c.peer = some host →
      c.setupAnswer cseq (c.udpTransport port serverPort) = .answer r k →
      Sent { c with opened := c.opened + 1, udp := some (c.opened, host, port) } (some cseq) r k
        c' o →
      LoopStep srv c (.opened serverPort) c' (.openUdp c.opened :: o)
  | openedCrashes {port serverPort : Int} {cseq : Str} {c' : Conn} {o : List Effect} :
      c.pc = .opening port cseq → c.peer = none →
      Stopped { c with opened := c.opened + 1 } .close c' o →
      LoopStep srv c (.opened serverPort) c' (.openUdp c.opened :: .crashed :: o)
  | openFails {port : Int} {cseq : Str} {c' : Conn} {o : List Effect} :
      c.pc = .opening port cseq → Stopped c .close c' o →
      LoopStep srv c .openFailed c' (.crashed :: o)
  | acquired {handler : Option Str} {r : Response} {k : After} : c.pc = .locking handler r k →
      c.lock.atTurn .loop = true →
      LoopStep srv c .acquired { (c.leaveQueue .loop).hold .loop with pc := .draining handler k }
        [.response r]
  | drained {handler : Option Str} : c.pc = .draining handler .next →
      LoopStep srv c .drained { c.release with pc := .reading } []
  | playsOn {handler : Option Str} {p : Pump} : c.pc = .draining handler .play →
      c.playTask = some p → LoopStep srv c .drained { c.release with pc := .reading } []
  | subscribes {handler : Option Str} {s : Str} : c.pc = .draining handler .play →
      c.playTask = none → c.stream = some s →
      LoopStep srv c .drained
        { c.release with
          sub := some c.made
          subs := c.subs ++ [(s, c.made)]
          made := c.made + 1
          playTask := some {}
          pc := .reading } [.subscribe s c.made]
  | playCrashes {handler : Option Str} {c' : Conn} {o : List Effect} :
      c.pc = .draining handler .play → c.playTask = none → c.stream = none →
      Stopped c.release .close c' o → LoopStep srv c .drained c' (.crashed :: o)
  | tearsDown {handler : Option Str} {c' : Conn} {o : List Effect} :
      c.pc = .draining handler .teardown → Stopped c.release .teardown c' o →
      LoopStep srv c .drained c' o
  | quits {i : LoopInput} {handler : Option Str} {k : After} {c' : Conn} {o : List Effect} :
      c.pc = .draining handler k →
      (i = .drained ∧ k = .close ∨ i = .lost ∨ i = .timedOut ∧ handler = none) →
      Stopped c.release .close c' o → LoopStep srv c i c' o
  | timedOut {cseq : Str} {k : After} {c' : Conn} {o : List Effect} :
      c.pc = .draining (some cseq) k →
      Sent c.release none ⟨504, "Gateway Timeout".toList, [("CSeq".toList, cseq)], []⟩ .next c' o →
      LoopStep srv c .timedOut c' o
  | joined {why : Leave} {p : Pump} {c' : Conn} {o : List Effect} : c.pc = .joining why →
      c.playTask = some p → p.pc = .done → Stopped c why c' o → LoopStep srv c .joined c' o
  | closed : c.pc = .closing → LoopStep srv c .closed { c with pc := .ended } [.ended]

theorem dispatch_step (srv : Server) {c : Conn} (line : Bytes) (headers : Headers) (token : Str)
    (hp : c.pc = .reading) :
    LoopStep srv c (.request line headers token) (c.dispatch srv line headers token).1
      (c.dispatch srv line headers token).2 := by
  unfold dispatch
  split
  · rename_i method url v ht
    simp only
    split
    · exact .unauthorized hp ht ‹_› (respond_sent ..)
    · exact .authCrashes hp ht ‹_› (stopPlay_stopped c .close)
    · split
      · exact .unknown hp ht ‹_› ‹_› (respond_sent ..)
      · rename_i hg _ m hm
        obtain ⟨o, hstep, ho⟩ := runHandler_step srv c m url headers (headers.get "cseq" "0") token
        rw [ho]
        exact .handles hp ht hg hm hstep
  · rename_i hne
    exact .badLine hp (fun a b d he => hne a b d he) (respond_sent ..)

theorem udpOpened_step (srv : Server) {c : Conn} {port : Int} {cseq : Str} (serverPort : Int)
    (hp : c.pc = .opening port cseq) :
    LoopStep srv c (.opened serverPort) (c.udpOpened port serverPort cseq).1
      (c.udpOpened port serverPort cseq).2 := by
  unfold udpOpened
  split
  · exact .openedCrashes hp ‹_› (stopPlay_stopped _ .close)
  · exact .opened hp ‹_› rfl (respond_sent ..)

theorem resume_step (srv : Server) {c : Conn} {handler : Option Str} {k : After}
    (hp : c.pc = .draining handler k) :
    LoopStep srv c .drained (c.release.resume k).1 (c.release.resume k).2 := by
  cases k with
  | next => exact .drained hp
  | teardown => exact .tearsDown hp (stopPlay_stopped _ .teardown)
  | close => exact .quits hp (.inl ⟨rfl, rfl⟩) (stopPlay_stopped _ .close)
  | play =>
    simp only [resume]
    unfold startPlay
    split
    · rename_i p hpl
      exact .playsOn hp hpl
    · rename_i hpl hst
      exact .playCrashes hp hpl hst (stopPlay_stopped _ .close)
    · rename_i s hpl hst
      exact .subscribes hp hpl hst

theorem loopStep_inv {srv : Server} {c c' : Conn} {i : LoopInput} {o : List Effect}
    (h : c.loopStep srv i = some (c', o)) : LoopStep srv c i c' o := by
  unfold loopStep at h
  split at h
  case h_1 line headers token hp =>
    obtain ⟨rfl, rfl⟩ := Prod.mk.inj (Option.some.inj h)
    exact dispatch_step srv line headers token hp
  case h_2 hp =>
    obtain ⟨rfl, rfl⟩ := Prod.mk.inj (Option.some.inj h)
    exact .skipped hp
  case h_3 e hp =>
    rw [Option.ite_none_right_eq_some] at h
    obtain ⟨he, h⟩ := h
    obtain ⟨rfl, rfl⟩ := Prod.mk.inj (Option.some.inj h)
    exact .malformed hp he (respond_sent ..)
  case h_4 hp =>
    obtain ⟨rfl, rfl⟩ := Prod.mk.inj (Option.some.inj h)
    exact .gone hp (stopPlay_stopped c .close)
  case h_5 url s cseq sps pps info hp =>
    obtain ⟨rfl, rfl⟩ := Prod.mk.inj (Option.some.inj h)
    cases hd : describeAnswer url s cseq sps pps info with
    | answer r k => exact .ready hp hd (respond_sent ..)
    | crash => exact .readyCrashes hp (stopPlay_stopped c .close)
    | _ =>
      unfold describeAnswer at hd
      split at hd <;> cases hd
  case h_6 url s cseq hp =>
    obtain ⟨rfl, rfl⟩ := Prod.mk.inj (Option.some.inj h)
    exact .notReady hp (respond_sent ..)
  case h_7 port cseq serverPort hp =>
    obtain ⟨rfl, rfl⟩ := Prod.mk.inj (Option.some.inj h)
    exact udpOpened_step srv serverPort hp
  case h_8 hp =>
    obtain ⟨rfl, rfl⟩ := Prod.mk.inj (Option.some.inj h)
    exact .openFails hp (stopPlay_stopped c .close)
  case h_9 handler r k hp =>
    rw [Option.ite_none_right_eq_some] at h
    obtain ⟨ht, h⟩ := h
    obtain ⟨rfl, rfl⟩ := Prod.mk.inj (Option.some.inj h)
    exact .acquired hp ht
  case h_10 handler k hp =>
    obtain ⟨rfl, rfl⟩ := Prod.mk.inj (Option.some.inj h)
    exact resume_step srv hp
  case h_11 hp =>
    obtain ⟨rfl, rfl⟩ := Prod.mk.inj (Option.some.inj h)
    exact .quits hp (.inr (.inl rfl)) (stopPlay_stopped _ .close)
  case h_12 cseq k hp =>
    obtain ⟨rfl, rfl⟩ := Prod.mk.inj (Option.some.inj h)
    exact .timedOut hp (respond_sent ..)
  case h_13 hp =>
    obtain ⟨rfl, rfl⟩ := Prod.mk.inj (Option.some.inj h)
    exact .quits hp (.inr (.inr ⟨rfl, rfl⟩)) (stopPlay_stopped _ .close)
  case h_14 why hp =>
    split at h
    · rename_i p hpl
      rw [Option.ite_none_right_eq_some] at h
      obtain ⟨hd, h⟩ := h
      obtain ⟨rfl, rfl⟩ := Prod.mk.inj (Option.some.inj h)
      exact .joined hp hpl hd (afterStop_stopped why (by simpa [hpl]))
    · cases h
  case h_15 hp =>
    obtain ⟨rfl, rfl⟩ := Prod.mk.inj (Option.some.inj h)
    exact .closed hp
  case h_16 => cases h

/-- The end of the pump: its subscriber leaves the stream. -/
inductive Exited (c : Conn) (p : Pump) : Conn → List Effect → Prop
  | unsubscribes {x : Nat} {s : Str} : c.sub = some x → c.stream = some s →
      Exited c p
        { c with
          sub := none
          subs := c.subs.erase (s, x)
          playTask := some { p with pc := .done } } [.unsubscribe s x]
  | bare : c.sub = none ∨ c.stream = none →
      Exited c p { c with playTask := some { p with pc := .done } } []

theorem pumpExit_exited (c : Conn) (p : Pump) : Exited c p (c.pumpExit p).1 (c.pumpExit p).2 := by
  unfold pumpExit
  split
  · exact .unsubscribes ‹_› ‹_›
  · rename_i hne
    refine .bare ?_
    cases hx : c.sub with
    | none => exact .inl rfl
    | some x =>
      cases hs : c.stream with
      | none => exact .inr rfl
      | some s => exact absurd hs (hne x s hx)

def isWaiting : PumpPc → Bool
  | .locking _ _ | .crashLocking => true
  | _ => false

/-- Everything a step of the pump `p` can do. -/
inductive PumpStep (c : Conn) (p : Pump) : PumpInput → Conn → List Effect → Prop
  | unstarted : p.pc = .created → p.cancelRequested = true →
      PumpStep c p .cancelled (c.setPump { cancelRequested := false, pc := .done }) []
  | cancelledGetting {c' : Conn} {o : List Effect} : p.pc = .getting → p.cancelRequested = true →
      Exited c { p with cancelRequested := false } c' o → PumpStep c p .cancelled c' o
  | cancelledWaiting {c' : Conn} {o : List Effect} : isWaiting p.pc = true →
      p.cancelRequested = true →
      Exited (c.leaveQueue .pump) { p with cancelRequested := false } c' o →
      PumpStep c p .cancelled c' o
  | cancelledDraining {c' : Conn} {o : List Effect} : p.pc = .draining → p.cancelRequested = true →
      Exited c.release { p with cancelRequested := false } c' o → PumpStep c p .cancelled c' o
  | starts : p.pc = .created → p.cancelRequested = false → c.sub.isSome = true →
      PumpStep c p .start (c.setPump { p with pc := .getting }) []
  | writes {item : HubFrame} {ch hi : Int} : p.pc = .getting → p.cancelRequested = false →
      c.interleaved = some (ch, hi) → c.lock.free = true →
      PumpStep c p (.frame item)
        { c.hold .pump with
          packetizer := (c.packetizer.packetize item.nals item.ts90k).1
          playTask := some { p with pc := .draining } }
        [.media ch (c.packetizer.packetize item.nals item.ts90k).2]
  | queues {item : HubFrame} {ch hi : Int} : p.pc = .getting → p.cancelRequested = false →
      c.interleaved = some (ch, hi) → c.lock.free = false →
      PumpStep c p (.frame item)
        { c.queueUp .pump with
          packetizer := (c.packetizer.packetize item.nals item.ts90k).1
          playTask :=
            some { p with pc := .locking ch (c.packetizer.packetize item.nals item.ts90k).2 } }
        []
  | sends {item : HubFrame} {e : Nat} {host : Str} {port : Int} : p.pc = .getting →
      p.cancelRequested = false → c.interleaved = none → c.udp = some (e, host, port) →
      PumpStep c p (.frame item)
        { c with packetizer := (c.packetizer.packetize item.nals item.ts90k).1 }
        ((c.packetizer.packetize item.nals item.ts90k).2.map (.datagram e host port))
  | drops {item : HubFrame} : p.pc = .getting → p.cancelRequested = false →
      c.interleaved = none → c.udp = none → PumpStep c p (.frame item) c []
  | acquired {ch : Int} {packets : List Bytes} : p.pc = .locking ch packets →
      p.cancelRequested = false → c.lock.atTurn .pump = true →
      PumpStep c p .acquired
        (((c.leaveQueue .pump).hold .pump).setPump { p with pc := .draining }) [.media ch packets]
  | drained : p.pc = .draining → p.cancelRequested = false →
      PumpStep c p .drained (c.release.setPump { p with pc := .getting }) []
  | lost {c' : Conn} {o : List Effect} : p.pc = .draining → p.cancelRequested = false →
      Exited c.release p c' o → PumpStep c p .lost c' o
  | crashes {c' : Conn} {o : List Effect} : p.pc = .draining → p.cancelRequested = false →
      c.release.lock.free = true → Exited c.release p c' o →
      PumpStep c p .failed c' (.closeWriter :: o)
  | crashWaits : p.pc = .draining → p.cancelRequested = false → c.release.lock.free = false →
      PumpStep c p .failed ((c.release.queueUp .pump).setPump { p with pc := .crashLocking }) []
  | crashTurn {c' : Conn} {o : List Effect} : p.pc = .crashLocking → p.cancelRequested = false →
      c.lock.atTurn .pump = true → Exited (c.leaveQueue .pump) p c' o →
      PumpStep c p .acquired c' (.closeWriter :: o)

theorem pumpFrame_step {c : Conn} {p : Pump} (item : HubFrame) (hp : p.pc = .getting)
    (hc : p.cancelRequested = false) :
    PumpStep c p (.frame item) (c.pumpFrame p item).1 (c.pumpFrame p item).2 := by
  unfold pumpFrame
  split
  · rename_i ch hi _ hin
    cases hf : c.lock.free with
    | true =>
      simp only [hf, if_true]
      exact .writes hp hc hin hf
    | false =>
      simp only [hf]
      exact .queues hp hc hin hf
  · exact .sends hp hc ‹_› ‹_›
  · exact .drops hp hc ‹_› ‹_›

theorem pumpCancelled_step {c : Conn} {p : Pump} (hd : p.pc ≠ .done)
    (hc : p.cancelRequested = true) :
    PumpStep c p .cancelled (c.pumpCancelled p).1 (c.pumpCancelled p).2 := by
  unfold pumpCancelled
  simp only
  split
  · rename_i hp
    exact .unstarted hp hc
  · rename_i hp
    exact .cancelledGetting hp hc (pumpExit_exited ..)
  · rename_i hp
    exact .cancelledWaiting (by simp [hp, isWaiting]) hc (pumpExit_exited ..)
  · rename_i hp
    exact .cancelledWaiting (by simp [hp, isWaiting]) hc (pumpExit_exited ..)
  · rename_i hp
    exact .cancelledDraining hp hc (pumpExit_exited ..)
  · rename_i hp
    exact absurd hp hd

theorem pumpCrash_step {c : Conn} {p : Pump} (hp : p.pc = .draining)
    (hc : p.cancelRequested = false) :
    PumpStep c p .failed (c.release.pumpCrash p).1 (c.release.pumpCrash p).2 := by
  unfold pumpCrash
  split
  · exact .crashes hp hc ‹_› (pumpExit_exited ..)
  · rename_i hf
    exact .crashWaits hp hc (by simpa using hf)

theorem pumpStep_inv {c c' : Conn} {p : Pump} {i : PumpInput} {o : List Effect}
    (h : c.pumpStep p i = some (c', o)) : p.pc ≠ .done ∧ PumpStep c p i c' o := by
  unfold pumpStep at h
  split at h
  case h_1 => cases h
  case h_2 hc hd =>
    obtain ⟨rfl, rfl⟩ := Prod.mk.inj (Option.some.inj h)
    have hne : p.pc ≠ .done := fun he => hd he
    exact ⟨hne, pumpCancelled_step hne hc⟩
  case h_3 hp hc =>
    rw [Option.ite_none_right_eq_some] at h
    obtain ⟨hs, h⟩ := h
    obtain ⟨rfl, rfl⟩ := Prod.mk.inj (Option.some.inj h)
    exact ⟨by simp [hp], .starts hp hc hs⟩
  case h_4 item hp hc =>
    obtain ⟨rfl, rfl⟩ := Prod.mk.inj (Option.some.inj h)
    exact ⟨by simp [hp], pumpFrame_step item hp hc⟩
  case h_5 ch packets hp hc =>
    rw [Option.ite_none_right_eq_some] at h
    obtain ⟨ht, h⟩ := h
    obtain ⟨rfl, rfl⟩ := Prod.mk.inj (Option.some.inj h)
    exact ⟨by simp [hp], .acquired hp hc ht⟩
  case h_6 hp hc =>
    obtain ⟨rfl, rfl⟩ := Prod.mk.inj (Option.some.inj h)
    exact ⟨by simp [hp], .drained hp hc⟩
  case h_7 hp hc =>
    obtain ⟨rfl, rfl⟩ := Prod.mk.inj (Option.some.inj h)
    exact ⟨by simp [hp], .lost hp hc (pumpExit_exited ..)⟩
  case h_8 hp hc =>
    obtain ⟨rfl, rfl⟩ := Prod.mk.inj (Option.some.inj h)
    exact ⟨by simp [hp], pumpCrash_step hp hc⟩
  case h_9 hp hc =>
    rw [Option.ite_none_right_eq_some] at h
    obtain ⟨ht, h⟩ := h
    obtain ⟨rfl, rfl⟩ := Prod.mk.inj (Option.some.inj h)
    exact ⟨by simp [hp], .crashTurn hp hc ht (pumpExit_exited ..)⟩
  case h_10 => cases h

theorem Exited.pc {c c' : Conn} {p : Pump} {o : List Effect} (h : Exited c p c' o) :
    c'.pc = c.pc := by
  cases h <;> rfl

/-- The pump leaves the request loop where it is. -/
theorem PumpStep.pc {c c' : Conn} {p : Pump} {i : PumpInput} {o : List Effect}
    (h : PumpStep c p i c' o) : c'.pc = c.pc := by
  cases h with
  | cancelledGetting _ _ hex | cancelledWaiting _ _ hex | cancelledDraining _ _ hex
  | lost _ _ hex | crashes _ _ _ hex | crashTurn _ _ _ hex => exact (hex.pc :)
  | _ => rfl

/-- A step is one of the request loop or one of a pump that has not finished. -/
theorem step_cases {srv : Server} {c c' : Conn} {i : ConnInput} {o : List Effect}
    (h : c.step srv i = some (c', o)) :
    (∃ j, i = .loop j ∧ LoopStep srv c j c' o) ∨
    (∃ j p, i = .pump j ∧ c.playTask = some p ∧ p.pc ≠ .done ∧ PumpStep c p j c' o) := by
  cases i with
  | loop j => exact .inl ⟨j, rfl, loopStep_inv h⟩
  | pump j =>
    obtain ⟨p, hp, hs⟩ := Option.bind_eq_some_iff.mp h
    exact .inr ⟨j, p, rfl, hp, pumpStep_inv hs⟩

end DvrBridge.Conn
