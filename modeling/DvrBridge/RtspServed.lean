import DvrBridge.RtspServeLaw

/-! Every request is answered once, with its `CSeq`, and the next one is read: in exactly the runs
whose steps are all answerable. -/
namespace DvrBridge.Rtsp
open PyText Machine Conn

section
variable {srv : Server} {c c' : Conn} {h : List ServeEvent} {o : List Effect}

theorem stays_of_sent {handler : Option Str} {r : Response} {k : After}
    (hs : Sent c handler r k c' o) (hk : k ≠ .close) : leaving c'.pc = false := by
  cases hs <;> cases k <;> first | rfl | exact absurd rfl hk

theorem stays_of_tornDown (hs : Stopped c .teardown c' o) : leaving c'.pc = false := by
  cases hs <;> rfl

/-- A handler whose URL can be parsed does not crash. -/
theorem handler_stays {m : Method} {method url cseq token : Str} {headers : Headers}
    (hm : handlerOf method = some m)
    (hparse : LooksUp c method → srv.streamFor url ≠ .valueError)
    (hs : HandlerStep srv c url headers cseq token m c' o) : leaving c'.pc = false := by
  cases hs with
  | answers hne hh hsent => exact stays_of_sent hsent (handle_answer hne hh).2.1
  | refuses _ hsent | setupRefuses _ _ hsent => exact stays_of_sent hsent (by simp)
  | describeCrashes hurl => exact absurd hurl (hparse (.inl hm))
  | waits => rfl
  | setupCrashes hn hset =>
    cases hset with
    | crash hurl => exact absurd hurl (hparse (.inr ⟨hm, hn⟩))
  | setupAnswers _ hset hsent => exact stays_of_sent hsent (by simp [(setup_answer hset).2])
  | setupOpens => rfl

theorem setup_parses {url cseq token : Str} {headers : Headers} {c₁ : Conn} {out : Outcome}
    (hs : SetupStep srv c url headers cseq token c₁ out) (ho : out ≠ .crash) :
    srv.streamFor url ≠ .valueError := by
  cases hs with
  | crash => exact absurd rfl ho
  | notFound hf | tcp hf | tcpBad hf | udp hf | udpBad hf => simp [hf]

/-- A handler that looks up a stream and goes on has parsed the URL. -/
theorem handle_parses {m : Method} {url cseq token : Str} {headers : Headers} {c₁ : Conn}
    {out : Outcome} (hlook : m = .describe ∨ m = .setup ∧ c.playTask = none)
    (hh : c.handle srv m url headers cseq token = (c₁, o, out)) (ho : out ≠ .crash) :
    srv.streamFor url ≠ .valueError := by
  rcases hlook with rfl | ⟨rfl, hn⟩
  · intro hurl
    simp only [handle, onDescribe, hurl, Prod.mk.injEq] at hh
    exact ho hh.2.2.symm
  · obtain ⟨c₂, out', he, hset⟩ := onSetup_step srv url headers cseq token hn
    simp only [handle, he, Prod.mk.injEq] at hh
    exact setup_parses hset (hh.2.2 ▸ ho)

theorem handler_parses {m : Method} {method url cseq token : Str} {headers : Headers}
    (hm : handlerOf method = some m) (hs : HandlerStep srv c url headers cseq token m c' o)
    (hl : leaving c'.pc = false) (hlook : LooksUp c method) :
    srv.streamFor url ≠ .valueError := by
  have hlook' : m = .describe ∨ m = .setup ∧ c.playTask = none := by
    rw [LooksUp, hm] at hlook
    simpa using hlook
  cases hs with
  | answers _ hh | refuses hh => exact handle_parses hlook' hh (by simp)
  | describeCrashes _ hstop | setupCrashes _ _ hstop => simp [leaving_of_stopped hstop] at hl
  | waits hf => simp [hf]
  | setupRefuses _ hset | setupAnswers _ hset | setupOpens _ hset => exact setup_parses hset (by simp)

theorem request_stays {r : RawRequest} {token : Str} (ha : Answerable srv c (.receive r token))
    (hstep : c.step srv (.loop (r.read token)) = some (c', o)) : leaving c'.pc = false := by
  obtain ⟨hshort, headers, hm, hascii, hparse⟩ := ha
  have hinv := loopStep_inv hstep
  simp only [r.read_eq, hm, if_pos hshort] at hinv
  have hw := r.words
  cases hinv with
  | badLine _ _ hsent | unauthorized _ _ _ hsent | unknown _ _ _ _ hsent =>
    exact stays_of_sent hsent (by simp)
  | authCrashes _ ht hg =>
    cases hw.symm.trans ht
    exact absurd hg ((gate_ne_typeError_iff ..).mpr hascii)
  | handles _ ht hg hm hhandler =>
    cases hw.symm.trans ht
    exact handler_stays hm
      (fun hlook => (streamFor_ne_valueError_iff ..).mpr (hparse hg hlook)) hhandler
  | quits _ hwhy => simp at hwhy

/-- With both parameter sets a DESCRIBE is answered. -/
theorem ready_stays {sps pps : Option Bytes} {info : StreamInfo} (hs : sps.isSome = true)
    (hp : pps.isSome = true) (hstep : c.loopStep srv (.ready sps pps info) = some (c', o)) :
    leaving c'.pc = false := by
  obtain ⟨s, rfl⟩ := Option.isSome_iff_exists.mp hs
  obtain ⟨p, rfl⟩ := Option.isSome_iff_exists.mp hp
  have hpc : ∃ url st cseq, c.pc = .waitReady url st cseq := by
    cases loopStep_inv hstep with
    | ready hp | readyCrashes hp => exact ⟨_, _, _, hp⟩
    | quits _ hwhy => simp at hwhy
  obtain ⟨url, st, cseq, hpc⟩ := hpc
  simp only [loopStep, hpc, describeAnswer, finish, Option.some.injEq] at hstep
  have hsent := respond_sent c (some cseq) (.ok [("CSeq".toList, cseq),
    ("Content-Base".toList, rstripChar '/' url ++ ['/']),
    ("Content-Type".toList, "application/sdp".toList)]
    (encode (buildSdp st s p info.width info.height))) .next
  rw [hstep] at hsent
  exact stays_of_sent hsent (by simp)

theorem loop_stays (hs : Serves c h) {i : LoopInput} (hstep : LoopStep srv c i c' o)
    (hb : Writable (.conn (.loop i))) (ha : Answerable srv c (.conn (.loop i)))
    (hr : ∀ sps pps info, i ≠ .ready sps pps info) : leaving c'.pc = false := by
  have hleave := hs.answered.1
  cases hstep with
  | badLine | unauthorized | authCrashes | unknown | handles | malformed | gone | timedOut =>
    exact hb.elim
  | skipped hp => exact hleave
  | ready | readyCrashes => exact absurd rfl (hr _ _ _)
  | notReady _ hsent => exact stays_of_sent hsent (by simp)
  | opened _ _ hans hsent =>
    cases hans
    exact stays_of_sent hsent (by simp)
  | openedCrashes _ hn => simp [Answerable, hn] at ha
  | openFails => exact ha.elim
  | @acquired _ _ k hp =>
    rw [hp] at hleave
    cases k <;> first | rfl | cases hleave
  | drained | playsOn | subscribes => rfl
  | playCrashes hp hn hst =>
    rcases hs.plays _ ⟨0, [], [], []⟩ (.inr hp) with hx | hx
    · simp [hn] at hx
    · simp [hst] at hx
  | tearsDown _ hstop => exact stays_of_tornDown hstop
  | quits hp hwhy =>
    rcases hwhy with ⟨-, rfl⟩ | rfl | ⟨rfl, -⟩
    · rw [hp] at hleave
      cases hleave
    · exact hb.elim
    · exact hb.elim
  | @joined why _ _ _ hp _ _ hstop =>
    cases why with
    | teardown => exact stays_of_tornDown hstop
    | close =>
      rw [hp] at hleave
      cases hleave
  | closed hp =>
    rw [hp] at hleave
    cases hleave

/-- An answerable step does not close the connection. -/
theorem stays_of_answerable (hs : Serves c h) {i : ServeInput} {e : List ServeEvent}
    (hstep : serve srv c i = some (c', e)) (hb : Writable i) (ha : Answerable srv c i) :
    leaving c'.pc = false := by
  cases i with
  | receive r token =>
    obtain ⟨⟨c₁, o⟩, hq, he⟩ := Option.map_eq_some_iff.mp hstep
    cases he
    exact request_stays ha hq
  | conn i =>
    obtain ⟨⟨c₁, o⟩, hq, he⟩ := Option.map_eq_some_iff.mp hstep
    cases he
    rcases step_cases hq with ⟨j, rfl, hloop⟩ | ⟨j, p, rfl, -, -, hpump⟩
    · by_cases hready : ∃ sps pps info, j = .ready sps pps info
      · obtain ⟨sps, pps, info, rfl⟩ := hready
        exact ready_stays ha.1 ha.2 hq
      · exact loop_stays hs hloop hb ha fun sps pps info he => hready ⟨sps, pps, info, he⟩
    · rw [hpump.pc]
      exact hs.answered.1

/-- A step that leaves the connection open was answerable. -/
theorem answerable_of_stays {i : ServeInput} {e : List ServeEvent}
    (hstep : serve srv c i = some (c', e)) (hl : leaving c'.pc = false) :
    Answerable srv c i := by
  cases i with
  | receive r token =>
    obtain ⟨⟨c₁, o⟩, hq, he⟩ := Option.map_eq_some_iff.mp hstep
    cases he
    obtain ⟨hs, hm, hshort, hinv⟩ := arrives hq hl
    refine ⟨hshort, hs, hm, ?_⟩
    have hw := r.words
    cases hinv with
    | badLine _ hne => exact absurd hw (hne _ _ _)
    | unauthorized _ ht hg =>
      cases hw.symm.trans ht
      exact ⟨(gate_ne_typeError_iff ..).mp (by simp [hg]), by simp [hg]⟩
    | authCrashes _ _ _ hstop => simp [leaving_of_stopped hstop] at hl
    | unknown _ ht hg hn =>
      cases hw.symm.trans ht
      exact ⟨(gate_ne_typeError_iff ..).mp (by simp [hg]), by simp [LooksUp, hn]⟩
    | handles _ ht hg hm hhandler =>
      cases hw.symm.trans ht
      exact ⟨(gate_ne_typeError_iff ..).mp (by simp [hg]), fun _ hlook =>
        (streamFor_ne_valueError_iff ..).mp (handler_parses hm hhandler hl hlook)⟩
    | quits _ hwhy => simp at hwhy
  | conn i =>
    obtain ⟨⟨c₁, o⟩, hq, he⟩ := Option.map_eq_some_iff.mp hstep
    cases he
    rcases step_cases hq with ⟨j, rfl, hloop⟩ | ⟨j, p, rfl, hp, hd, hpump⟩
    · cases hloop with
      | ready _ hd => exact (describe_answer hd).2
      | opened _ hp => simp [Answerable, hp]
      | readyCrashes _ hstop | openedCrashes _ _ hstop | openFails _ hstop | quits _ _ hstop =>
        simp [leaving_of_stopped hstop] at hl
      | _ => trivial
    · trivial

/-! The way to the next request. -/

theorem distance_sent {handler : Option Str} {r : Response} {k : After}
    (hs : Sent c handler r k c' o) : distance c' < 7 := by
  cases hs with
  | written => simp [distance]
  | queued =>
    simp only [distance]
    split
    · omega
    · split <;> omega

theorem distance_stopped {why : Leave} (hs : Stopped c why c' o) : distance c' < 3 := by
  cases hs with
  | joins p hp hd => simp [distance, hd]
  | tornDown | closes => simp [distance]

theorem goesOn_of_loop {i : LoopInput} (hstep : c.loopStep srv i = some (c', o))
    (hb : Writable (.conn (.loop i))) (hd : distance c' < distance c) : GoesOn srv c :=
  .inr ⟨.conn (.loop i), c', o.map .conn, hb, by simp [serve, Conn.step, hstep], hd⟩

theorem goesOn_of_pump {p : Pump} {i : PumpInput} (hp : c.playTask = some p)
    (hstep : c.pumpStep p i = some (c', o)) (hb : Writable (.conn (.pump i)))
    (hd : distance c' < distance c) : GoesOn srv c :=
  .inr ⟨.conn (.pump i), c', o.map .conn, hb, by simp [serve, Conn.step, hp, hstep], hd⟩

/-- Whoever is first in the queue and is not the loop is the pump. -/
theorem pump_of_ne {x : Party} (h : x ≠ .loop) : x = .pump := by
  cases x with
  | loop => exact absurd rfl h
  | pump => rfl

theorem pump_waits (hs : Serves c h) (hu : pumpUse c.playTask = .waits) :
    ∃ p ch packets, c.playTask = some p ∧ p.pc = .locking ch packets := by
  cases hp : c.playTask with
  | none =>
    rw [hp] at hu
    cases hu
  | some p =>
    rw [hp, pumpUse_of_pc] at hu
    cases hpc : p.pc with
    | locking ch packets => exact ⟨p, ch, packets, rfl, hpc⟩
    | crashLocking => exact absurd hpc (hs.pump p hp).1
    | created | getting | draining | done =>
      rw [hpc] at hu
      cases hu

theorem pump_holds (hu : pumpUse c.playTask = .holds) :
    ∃ p, c.playTask = some p ∧ p.pc = .draining := by
  cases hp : c.playTask with
  | none =>
    rw [hp] at hu
    cases hu
  | some p =>
    rw [hp, pumpUse_of_pc] at hu
    cases hpc : p.pc with
    | draining => exact ⟨p, rfl, hpc⟩
    | locking | crashLocking | created | getting | done =>
      rw [hpc] at hu
      cases hu

/-- The turn for the lock comes, and a pump that is ahead goes on. -/
theorem locking_goesOn (hs : Serves c h) {handler : Option Str} {r : Response} {k : After}
    (hp : c.pc = .locking handler r k) : GoesOn srv c := by
  have hlock := hs.lock
  unfold LockAgrees at hlock
  rw [hp] at hlock
  have hwaits : Party.loop ∈ c.lock.waiters := (hlock.waits .loop).mpr rfl
  obtain ⟨x, xs, hx⟩ := List.exists_cons_of_ne_nil (List.ne_nil_of_mem hwaits)
  have hcancel {p : Pump} (hpl : c.playTask = some p) : p.cancelRequested = false :=
    (hs.not_cancelled (by simp [hp]) hpl).2
  cases hh : c.lock.holder with
  | none =>
    by_cases hl : x = .loop
    · have ht : c.lock.atTurn .loop = true := by simp [FifoLock.atTurn, hh, hx, hl]
      refine goesOn_of_loop (i := .acquired) (by simp [loopStep, hp, ht]; rfl) trivial ?_
      simp [distance, hp, ht]
    · -- the pump is first in the queue
      cases pump_of_ne hl
      have ht : c.lock.atTurn .pump = true := by simp [FifoLock.atTurn, hh, hx]
      have hu : pumpUse c.playTask = .waits := (hlock.waits .pump).mp (by simp [hx])
      obtain ⟨p, ch, packets, hpl, hpc⟩ := pump_waits hs hu
      have hq : c.pumpStep p .acquired =
          some (((c.leaveQueue .pump).hold .pump).setPump { p with pc := .draining },
            [.media ch packets]) := by
        simp [pumpStep, hpc, hcancel hpl, ht]
      refine goesOn_of_pump hpl hq trivial ?_
      simp [distance, hp, FifoLock.atTurn, hh, hx, Conn.leaveQueue, Conn.hold, Conn.setPump,
        FifoLock.hold, FifoLock.leaveQueue]
  | some y =>
    have hy : y ≠ .loop := by
      rintro rfl
      have := (hlock.holds .loop).mp hh
      cases this
    cases pump_of_ne hy
    have hu : pumpUse c.playTask = .holds := (hlock.holds .pump).mp hh
    obtain ⟨p, hpl, hpc⟩ := pump_holds hu
    -- the holder does not wait, so that the loop is next
    have hl : x = .loop := by
      cases x with
      | loop => rfl
      | pump =>
        have hw : pumpUse c.playTask = .waits := (hlock.waits .pump).mp (by simp [hx])
        rw [hu] at hw
        cases hw
    have hq : c.pumpStep p .drained = some (c.release.setPump { p with pc := .getting }, []) := by
      simp [pumpStep, hpc, hcancel hpl]
    refine goesOn_of_pump hpl hq trivial ?_
    simp [distance, hp, FifoLock.atTurn, hh, hx, hl, Conn.release, Conn.setPump,
      FifoLock.release]

/-- A pump that was asked to stop ends. -/
theorem cancelled_ends {p : Pump} (hd : p.pc ≠ .done) (hc : p.cancelRequested = true) :
    ∃ q p', c.pumpStep p .cancelled = some q ∧ q.1.pc = c.pc ∧ q.1.playTask = some p' ∧
      p'.pc = .done := by
  have hq : c.pumpStep p .cancelled = some (c.pumpCancelled p) := by
    unfold pumpStep
    cases hpc : p.pc with
    | done => exact absurd hpc hd
    | _ => simp only [hc]
  have hstep := pumpCancelled_step (c := c) hd hc
  generalize c.pumpCancelled p = q at hq hstep
  obtain ⟨c', o⟩ := q
  cases hstep with
  | unstarted => exact ⟨_, _, hq, rfl, rfl, rfl⟩
  | cancelledGetting _ _ hex | cancelledWaiting _ _ hex | cancelledDraining _ _ hex =>
    obtain ⟨hpc, -, hpl⟩ := Exited.stays hex
    exact ⟨_, _, hq, hpc, hpl, rfl⟩

/-- A connection that serves goes on to its next request. -/
theorem Serves.goesOn (hs : Serves c h) : GoesOn srv c := by
  have hleave := hs.answered.1
  cases hp : c.pc with
  | reading => exact .inl hp
  | waitReady url st cseq =>
    obtain ⟨⟨c', o⟩, hq⟩ : ∃ q, c.loopStep srv .notReady = some q :=
      ⟨_, by simp only [loopStep, hp]; rfl⟩
    refine goesOn_of_loop hq trivial ?_
    rw [show distance c = 7 by simp [distance, hp]]
    cases loopStep_inv hq with
    | notReady _ hsent => exact distance_sent hsent
    | quits _ hwhy => simp at hwhy
  | opening port cseq =>
    obtain ⟨⟨c', o⟩, hq⟩ : ∃ q, c.loopStep srv (.opened 0) = some q :=
      ⟨_, by simp only [loopStep, hp]; rfl⟩
    refine goesOn_of_loop hq trivial ?_
    rw [show distance c = 7 by simp [distance, hp]]
    cases loopStep_inv hq with
    | opened _ _ _ hsent => exact distance_sent hsent
    | openedCrashes _ _ hstop => exact (distance_stopped hstop).trans (by omega)
    | quits _ hwhy => simp at hwhy
  | locking handler r k => exact locking_goesOn hs hp
  | draining handler k =>
    obtain ⟨⟨c', o⟩, hq⟩ : ∃ q, c.loopStep srv .drained = some q :=
      ⟨_, by simp only [loopStep, hp]; rfl⟩
    refine goesOn_of_loop hq trivial ?_
    rw [show distance c = 3 by simp [distance, hp]]
    cases loopStep_inv hq with
    | drained | playsOn | subscribes => simp [distance]
    | playCrashes _ _ _ hstop | tearsDown _ hstop | quits _ _ hstop =>
      exact distance_stopped hstop
  | joining why =>
    obtain ⟨p, hpl, hcancel⟩ := hs.joins why hp
    by_cases hd : p.pc = .done
    · cases why with
      | close =>
        rw [hp] at hleave
        cases hleave
      | teardown =>
        refine goesOn_of_loop (i := .joined) (by simp only [loopStep, hp, hpl, if_pos hd]; rfl)
          trivial ?_
        simp [distance, hp, hpl, hd]
    · obtain ⟨q, p', hq, hpc, hpl', hd'⟩ := cancelled_ends (c := c) hd (hcancel hd)
      refine goesOn_of_pump hpl hq trivial ?_
      simp [distance, hp, hpl, hd, hpc, hpl', hd']
  | closing | ended =>
    rw [hp] at hleave
    cases hleave

end

theorem serves_fresh (peer : Option Str) (ssrc : Nat) : Serves (fresh peer ssrc) [] :=
  ⟨lockAgrees_fresh peer ssrc, ⟨rfl, rfl⟩, by simp [fresh], by simp [fresh], by simp [fresh]⟩

/-- While the socket stays writable: every request with well-formed framing gets exactly one
response, with its `CSeq`, and the connection goes on to the next one, in exactly the runs whose
steps are all answerable. -/
theorem answered_iff (srv : Server) (peer : Option Str) (ssrc : Nat) (is : List ServeInput)
    (hw : EveryStep (serve srv) (fun _ _ i _ _ => Writable i) (fresh peer ssrc) is) :
    EveryStep (serve srv) (fun _ h _ c' e => Answered (h ++ e) c' ∧ GoesOn srv c')
        (fresh peer ssrc) is ↔
      EveryStep (serve srv) (fun c _ i _ _ => Answerable srv c i) (fresh peer ssrc) is := by
  refine everyStep_iff Serves (serves_fresh peer ssrc) ?_ ?_ hw
  · intro c h i c' e hs hstep hb ha
    exact hs.step hstep hb (stays_of_answerable hs hstep hb ha)
  · intro c h i c' e hs hstep hb
    constructor
    · rintro ⟨⟨hl, -⟩, -⟩
      exact answerable_of_stays hstep hl
    · intro ha
      have hs' := hs.step hstep hb (stays_of_answerable hs hstep hb ha)
      exact ⟨hs'.answered, hs'.goesOn⟩

/-- An unbalanced bracket is a `ValueError` of `urlparse`. -/
def bracketServer : Server :=
  { hub := ["cam".toList], urlPath := fun url => if '[' ∈ url then none else plainPath url }

def cseqLine : Bytes := encode "CSeq: 2\r".toList

theorem addHeaders_cseqLine : addHeaders [] [cseqLine] = some [("cseq".toList, ['2'])] := by
  decide +kernel

/-- A request with a `CSeq` and no body. -/
def bareRequest (line : Bytes) (method url : Str) (hl : (10 : UInt8) ∉ line)
    (hw : tokens (line ++ [10]) = [method, url, "RTSP/1.0".toList])
    (hf : line.head? ≠ some 0x24) : RawRequest :=
  { line := line
    method := method
    url := url
    version := "RTSP/1.0".toList
    headers := [cseqLine]
    body := []
    line_ok := hl
    words := hw
    first := hf
    headers_ok := by
      intro l hm
      cases List.mem_singleton.mp hm
      exact ⟨by decide +kernel, by decide +kernel, by decide +kernel⟩
    count := by decide
    size := by decide +kernel
    body_le := by decide
    announced := by
      intro hs h
      cases addHeaders_cseqLine.symm.trans h
      rfl }

def describeBracket : RawRequest :=
  bareRequest (encode "DESCRIBE rtsp://[/cam RTSP/1.0\r".toList) "DESCRIBE".toList
    "rtsp://[/cam".toList (by decide +kernel) (by decide +kernel) (by decide +kernel)

/-- The connection closes without an answer. -/
theorem bracket_unanswered :
    ¬ EveryStep (serve bracketServer)
      (fun _ h _ c' e => Answered (h ++ e) c' ∧ GoesOn bracketServer c') (fresh none 1)
      [.receive describeBracket []] := by
  intro h
  have hstep : (serve bracketServer (fresh none 1) (.receive describeBracket [])).map
      (fun q => leaving q.1.pc) = some true := by
    decide +kernel
  obtain ⟨⟨c, e⟩, hs, hl⟩ := Option.map_eq_some_iff.mp hstep
  obtain ⟨⟨hf, -⟩, -⟩ := h [] (.receive describeBracket []) [] rfl _ [] c e rfl hs
  simp only [hf] at hl
  cases hl

def describeCam : RawRequest :=
  bareRequest (encode "DESCRIBE rtsp://h/cam RTSP/1.0\r".toList) "DESCRIBE".toList
    "rtsp://h/cam".toList (by decide +kernel) (by decide +kernel) (by decide +kernel)

def setupCam : RawRequest :=
  bareRequest (encode "SETUP rtsp://h/cam/track0 RTSP/1.0\r".toList) "SETUP".toList
    "rtsp://h/cam/track0".toList (by decide +kernel) (by decide +kernel) (by decide +kernel)

def lookups : List ServeInput :=
  [.receive describeCam [], .conn (.loop (.ready (some [0x67, 1, 2, 3]) (some [0x68]) {})),
    .conn (.loop .drained), .receive setupCam [], .conn (.loop .drained)]

/-- The DESCRIBE gets its answer, and the SETUP, which names no transport, gets one too. -/
theorem answered_iff_lookups :
    ((run (serve bracketServer) (fresh none 1) lookups).map fun q => q.2.filterMap fun
      | .conn (.response r) => some (r.code, cseqOf r)
      | _ => none) = some [(200, ['2']), (461, ['2'])] ∧
    EveryStep (serve bracketServer)
      (fun _ h _ c' e => Answered (h ++ e) c' ∧ GoesOn bracketServer c') (fresh none 1) lookups := by
  have hreceive (c : Conn) {r : RawRequest} (hs : r.Short) (hm : r.headers = [cseqLine])
      (hu : (bracketServer.urlPath r.url).isSome = true) (token : Str) :
      Answerable bracketServer c (.receive r token) := by
    refine ⟨hs, [("cseq".toList, ['2'])], ?_, ?_, fun _ _ => hu⟩
    · rw [RawRequest.headerMap, hm]
      exact addHeaders_cseqLine
    · intro hauth
      cases hauth
  have hcond : ∀ i ∈ lookups, ∀ c, Answerable bracketServer c i := by
    intro i hi c
    simp only [lookups, List.mem_cons, List.not_mem_nil, or_false] at hi
    rcases hi with rfl | rfl | rfl | rfl | rfl
    · exact hreceive c (by decide +kernel) rfl (by decide +kernel) []
    · exact ⟨rfl, rfl⟩
    · trivial
    · exact hreceive c (by decide +kernel) rfl (by decide +kernel) []
    · trivial
  refine ⟨by decide +kernel, ?_⟩
  refine (answered_iff bracketServer none 1 lookups
    (everyStep_of_forall_mem (A := Writable) (by simp [lookups, Writable]))).mpr ?_
  intro p i q hp c _ _ _ _ _
  exact hcond i (by simp [hp]) c

end DvrBridge.Rtsp
