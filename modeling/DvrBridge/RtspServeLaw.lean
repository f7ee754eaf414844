import DvrBridge.RtspServe
import DvrBridge.RtspTeardown

/-! What a connection keeps as long as it stays: the lock, the one response it owes, and the pump
that it may have asked to stop. -/
namespace DvrBridge.Rtsp
open PyText Machine Conn

/-- The first header of every answer. -/
theorem cseqOf_cons {r : Response} {q : Str} {hs : List (Str × Str)}
    (h : r.headers = ("CSeq".toList, q) :: hs) : cseqOf r = q := by
  rw [cseqOf, Response.allHeaders, h, List.append_assoc, List.cons_append, List.lookup_cons_self]
  rfl

theorem cseqOf_ofError (e : RtspError) (q : Str) : cseqOf (.ofError e q) = q := cseqOf_cons rfl

theorem asked_append (h h' : List ServeEvent) : asked (h ++ h') = asked h ++ asked h' :=
  List.filterMap_append

theorem answered_append (h h' : List ServeEvent) : answered (h ++ h') = answered h ++ answered h' :=
  List.filterMap_append

theorem asked_conn (o : List Effect) : asked (o.map .conn) = [] := by
  simp [asked, List.filterMap_map]

/-- Effects without a response. -/
theorem answered_quiet {o : List Effect} (h : ∀ r, .response r ∉ o) :
    answered (o.map .conn) = [] := by
  refine List.filterMap_eq_nil_iff.mpr fun e he => ?_
  obtain ⟨x, hx, rfl⟩ := List.mem_map.mp he
  cases x with
  | response r => exact absurd hx (h r)
  | _ => rfl

theorem quiet_released (c : Conn) : ∀ r, .response r ∉ c.released :=
  fun _ => not_mem_released (by simp) c

/-- What the loop and the pump agree on. -/
structure Serves (c : Conn) (h : List ServeEvent) : Prop where
  lock : c.LockAgrees
  answered : Answered h c
  plays : ∀ handler r, c.pc = .locking handler r .play ∨ c.pc = .draining handler .play →
    c.playTask.isSome = true ∨ c.stream.isSome = true
  pump : ∀ p, c.playTask = some p → p.pc ≠ .crashLocking ∧
    (p.cancelRequested = true → ∃ why, c.pc = .joining why)
  joins : ∀ why, c.pc = .joining why →
    ∃ p, c.playTask = some p ∧ (p.pc ≠ .done → p.cancelRequested = true)

/-- The request loop is at work, away from the lock, and owes one response. -/
structure Works (c : Conn) (h : List ServeEvent) (q : Str) : Prop where
  lock : c.LoopOut
  owes : asked h = Rtsp.answered h ++ [q]
  pump : ∀ p, c.playTask = some p → p.pc ≠ .crashLocking ∧ p.cancelRequested = false

section
variable {srv : Server} {c c' : Conn} {h : List ServeEvent} {o : List Effect} {q : Str}

theorem Works.quiet (hw : Works c h q) (ho : ∀ r, .response r ∉ o) :
    Works c (h ++ o.map .conn) q := by
  refine ⟨hw.lock, ?_, hw.pump⟩
  rw [asked_append, answered_append, asked_conn, answered_quiet ho, List.append_nil,
    List.append_nil]
  exact hw.owes

/-- The one response is written, or waits for the lock. -/
theorem Works.sent (hw : Works c h q) {handler : Option Str} {r : Response} {k : After}
    (hr : cseqOf r = q) (hk : k ≠ .close)
    (hplay : k = .play → c.playTask.isSome = true ∨ c.stream.isSome = true)
    (hs : Sent c handler r k c' o) : Serves c' (h ++ o.map .conn) := by
  have hlock := hw.lock.sent hs
  have hpump : ∀ p, c.playTask = some p → p.pc ≠ .crashLocking ∧
      (p.cancelRequested = true → ∃ why, c'.pc = .joining why) := by
    intro p hp
    obtain ⟨h₁, h₂⟩ := hw.pump p hp
    exact ⟨h₁, fun hc => by simp [h₂] at hc⟩
  have howed : asked (h ++ o.map .conn) = Rtsp.answered h ++ [q] := by
    rw [asked_append, asked_conn, hw.owes, List.append_nil]
  cases hs with
  | written hf =>
    refine ⟨hlock, ⟨?_, ?_⟩, fun handler' r' hpc => ?_, hpump, fun why hpc => by cases hpc⟩
    · cases k <;> first | rfl | exact absurd rfl hk
    · rw [howed, answered_append]
      simp [answered, owed, hr]
    · cases hpc with
      | inl hpc => cases hpc
      | inr hpc =>
        cases hpc
        exact hplay rfl
  | queued hf =>
    refine ⟨hlock, ⟨?_, ?_⟩, fun handler' r' hpc => ?_, hpump, fun why hpc => by cases hpc⟩
    · cases k <;> first | rfl | exact absurd rfl hk
    · rw [howed, answered_append]
      simp [answered, owed, hr]
    · cases hpc with
      | inl hpc =>
        cases hpc
        exact hplay rfl
      | inr hpc => cases hpc

/-- A loop that reads takes the next request. -/
theorem Serves.receives (hs : Serves c h) (hp : c.pc = .reading) (r : RawRequest) :
    Works c (h ++ [.received r]) r.cseq := by
  refine ⟨hs.lock.loopOut (by rw [hp]; rfl), ?_, fun p hpl => ⟨(hs.pump p hpl).1, ?_⟩⟩
  · have ha := hs.answered.2
    rw [hp, show owed .reading = [] from rfl, List.append_nil] at ha
    rw [asked_append, answered_append, ha]
    simp [asked, Rtsp.answered]
  · cases hc : p.cancelRequested with
    | false => rfl
    | true =>
      obtain ⟨why, hj⟩ := (hs.pump p hpl).2 hc
      rw [hp] at hj
      cases hj

/-- A loop that waits for something else than the lock goes on. -/
theorem Serves.resumes (hs : Serves c h) (hp : owed c.pc = [q]) (hu : loopUse c.pc = .out) :
    Works c h q := by
  refine ⟨hs.lock.loopOut hu, hp ▸ hs.answered.2, fun p hpl => ⟨(hs.pump p hpl).1, ?_⟩⟩
  cases hc : p.cancelRequested with
  | false => rfl
  | true =>
    obtain ⟨why, hj⟩ := (hs.pump p hpl).2 hc
    rw [hj] at hp
    cases hp

/-- What handlers answer. -/
theorem handle_answer {m : Method} {url token : Str} {headers : Headers} {c₁ : Conn}
    {r : Response} {k : After} (hm : m ≠ .setup)
    (hh : c.handle srv m url headers q token = (c₁, o, .answer r k)) :
    cseqOf r = q ∧ k ≠ .close ∧ (k = .play → c.stream.isSome = true) := by
  cases m with
  | setup => exact absurd rfl hm
  | options | pause | getParameter | setParameter | teardown =>
    cases hh
    exact ⟨cseqOf_cons rfl, by simp, by simp⟩
  | describe =>
    simp only [handle, onDescribe] at hh
    split at hh <;> cases hh
  | play =>
    simp only [handle, onPlay] at hh
    split at hh
    · cases hh
    · rename_i hst
      cases hh
      refine ⟨cseqOf_cons rfl, by simp, fun _ => ?_⟩
      rw [not_or, Option.isNone_iff_eq_none] at hst
      exact Option.isSome_iff_ne_none.mpr hst.1

theorem setup_answer {url token : Str} {headers : Headers} {c₁ : Conn} {r : Response} {k : After}
    (hs : SetupStep srv c url headers q token c₁ (.answer r k)) : cseqOf r = q ∧ k = .next := by
  generalize ho : Outcome.answer r k = out at hs
  cases hs with
  | tcp =>
    cases ho
    exact ⟨cseqOf_cons rfl, rfl⟩
  | _ => cases ho

theorem describe_answer {url s : Str} {sps pps : Option Bytes} {info : StreamInfo} {r : Response}
    {k : After} (h : describeAnswer url s q sps pps info = .answer r k) :
    (cseqOf r = q ∧ k = .next) ∧ sps.isSome = true ∧ pps.isSome = true := by
  unfold describeAnswer at h
  split at h
  · cases h
    exact ⟨⟨cseqOf_cons rfl, rfl⟩, rfl, rfl⟩
  · cases h

theorem Works.setup (hw : Works c h q) {url token : Str} {headers : Headers} {c₁ : Conn}
    {out : Outcome} (hs : SetupStep srv c url headers q token c₁ out) : Works c₁ h q :=
  ⟨hs.loopOut hw.lock, hw.owes, fun p hp => hw.pump p (hs.same.1 ▸ hp)⟩

theorem Works.withEndpoint (hw : Works c h q) (n : Nat) (u : Option (Nat × Str × Int)) :
    Works { c with opened := n, udp := u } h q :=
  ⟨hw.lock, hw.owes, hw.pump⟩

theorem leaving_of_stopped (hs : Stopped c .close c' o) : leaving c'.pc = true := by
  cases hs <;> rfl

/-- A handler that does not crash leaves its answer written or owed. -/
theorem Works.handled (hw : Works c h q) {m : Method} {url token : Str} {headers : Headers}
    (hs : HandlerStep srv c url headers q token m c' o) (hl : leaving c'.pc = false) :
    Serves c' (h ++ o.map .conn) := by
  cases hs with
  | answers hm hh hsent =>
    obtain ⟨hr, hk, hst⟩ := handle_answer hm hh
    exact hw.sent hr hk (fun hp => .inr (hst hp)) hsent
  | refuses hh hsent => exact hw.sent (cseqOf_ofError _ _) (by simp) (by simp) hsent
  | describeCrashes _ hstop => simp [leaving_of_stopped hstop] at hl
  | @waits s _ =>
    have hq := hw.quiet (o := [.touch s]) (by simp)
    exact ⟨hw.lock, ⟨rfl, hq.owes⟩, by simp, fun p hp => ⟨(hw.pump p hp).1, by simp [hw.pump p hp]⟩,
      by simp⟩
  | setupCrashes _ _ hstop => simp [leaving_of_stopped hstop] at hl
  | setupRefuses _ hset hsent =>
    rw [List.map_append, ← List.append_assoc]
    exact ((hw.setup hset).quiet (quiet_released c)).sent (cseqOf_ofError _ _) (by simp) (by simp)
      hsent
  | setupAnswers _ hset hsent =>
    obtain ⟨hr, hk⟩ := setup_answer hset
    rw [List.map_append, ← List.append_assoc]
    exact ((hw.setup hset).quiet (quiet_released c)).sent hr (by simp [hk]) (by simp [hk]) hsent
  | setupOpens _ hset =>
    have hset' := (hw.setup hset).quiet (quiet_released c)
    exact ⟨hset'.lock, ⟨rfl, hset'.owes⟩, by simp,
      fun p hp => ⟨(hset'.pump p hp).1, by simp [hset'.pump p hp]⟩, by simp⟩

/-- A step of the loop that writes nothing, after the response. -/
theorem Serves.written (hs : Serves c h) (ho : ∀ r, .response r ∉ o) (hp : owed c.pc = [])
    (hp' : owed c'.pc = []) : asked (h ++ o.map .conn) =
      Rtsp.answered (h ++ o.map .conn) ++ owed c'.pc := by
  have ha := hs.answered.2
  rw [hp, List.append_nil] at ha
  rw [asked_append, answered_append, asked_conn, answered_quiet ho, hp', List.append_nil,
    List.append_nil, List.append_nil]
  exact ha

/-- What is left after a response is drained, or after `_stop_play`. -/
theorem Serves.tornDown (hs : Serves c h) (hp : owed c.pc = [])
    {c₁ : Conn} (hlock : c₁.LoopOut) (hpump : ∀ p, c₁.playTask = some p → p.pc ≠ .crashLocking)
    (hstop : Stopped c₁ .teardown c' o) : Serves c' (h ++ o.map .conn) := by
  have hlock' := hlock.stopped hstop
  cases hstop with
  | joins p hpl hd =>
    refine ⟨hlock', ⟨rfl, hs.written (by simp) hp rfl⟩, by simp, fun p' hp' => ?_, fun why _ => ?_⟩
    · cases hp'
      exact ⟨hpump p hpl, fun _ => ⟨_, rfl⟩⟩
    · exact ⟨_, rfl, fun _ => rfl⟩
  | tornDown hd =>
    refine ⟨hlock', ⟨rfl, hs.written (fun r hr => ?_) hp rfl⟩, by simp, by simp, by simp⟩
    rcases List.mem_append.mp hr with hr | hr
    · exact quiet_released _ r hr
    · simp at hr

/-- The loop drains its response and no task was asked to stop. -/
theorem Serves.not_cancelled (hs : Serves c h) (hj : ∀ why, c.pc ≠ .joining why) {p : Pump}
    (hp : c.playTask = some p) : p.pc ≠ .crashLocking ∧ p.cancelRequested = false := by
  refine ⟨(hs.pump p hp).1, ?_⟩
  cases hc : p.cancelRequested with
  | false => rfl
  | true =>
    obtain ⟨why, he⟩ := (hs.pump p hp).2 hc
    exact absurd he (hj why)

theorem Serves.loop (hs : Serves c h) {i : LoopInput} (hstep : LoopStep srv c i c' o)
    (hb : Writable (.conn (.loop i))) (hl : leaving c'.pc = false) :
    Serves c' (h ++ o.map .conn) := by
  have hlock := hs.lock.loopStep hstep
  have hleave := hs.answered.1
  cases hstep with
  | badLine | unauthorized | authCrashes | unknown | handles | malformed | gone => exact hb.elim
  | skipped hp => simpa using hs
  | ready hp hd hsent =>
    obtain ⟨⟨hr, hk⟩, -⟩ := describe_answer hd
    exact (hs.resumes (by rw [hp]; rfl) (by rw [hp]; rfl)).sent hr (by simp [hk]) (by simp [hk])
      hsent
  | readyCrashes _ hstop => simp [leaving_of_stopped hstop] at hl
  | notReady hp hsent =>
    exact (hs.resumes (by rw [hp]; rfl) (by rw [hp]; rfl)).sent (cseqOf_cons rfl) (by simp)
      (by simp) hsent
  | opened hp _ hans hsent =>
    have hw := (hs.resumes (by rw [hp]; rfl) (by rw [hp]; rfl)).quiet (o := [.openUdp c.opened])
      (by simp)
    cases hans
    have hsent' := (hw.withEndpoint _ _).sent (cseqOf_cons rfl) (by simp) (by simp) hsent
    rwa [List.append_assoc] at hsent'
  | openedCrashes _ _ hstop => simp [leaving_of_stopped hstop] at hl
  | openFails _ hstop => simp [leaving_of_stopped hstop] at hl
  | @acquired handler r k hp ht =>
    refine ⟨hlock, ⟨hl, ?_⟩, ?_, fun p hpl => ?_, by simp⟩
    · have ha := hs.answered.2
      rw [hp] at ha
      rw [asked_append, answered_append, asked_conn, ha]
      simp [Rtsp.answered, owed]
    · rintro handler' r' (hpc | hpc)
      · cases hpc
      · cases hpc
        exact hs.plays handler r (.inl hp)
    · obtain ⟨h₁, h₂⟩ := hs.not_cancelled (by simp [hp]) hpl
      exact ⟨h₁, by simp [h₂]⟩
  | drained hp | playsOn hp =>
    refine ⟨hlock, ⟨rfl, hs.written (by simp) (by rw [hp]; rfl) rfl⟩, by simp, fun p hpl => ?_,
      by simp⟩
    obtain ⟨h₁, h₂⟩ := hs.not_cancelled (by simp [hp]) hpl
    exact ⟨h₁, by simp [h₂]⟩
  | subscribes hp hpl hst =>
    refine ⟨hlock, ⟨rfl, hs.written (by simp) (by rw [hp]; rfl) rfl⟩, by simp, fun p hpl => ?_,
      by simp⟩
    cases hpl
    exact ⟨by simp, by simp⟩
  | playCrashes hp hpl hst hstop => simp [leaving_of_stopped hstop] at hl
  | tearsDown hp hstop =>
    exact hs.tornDown (by rw [hp]; rfl) (hs.lock.release (by rw [hp]; rfl))
      (fun p hpl => (hs.pump p hpl).1) hstop
  | quits hp hwhy hstop => simp [leaving_of_stopped hstop] at hl
  | timedOut => exact hb.elim
  | @joined why p _ _ hp hpl hd hstop =>
    cases why with
    | close =>
      rw [hp] at hleave
      cases hleave
    | teardown =>
      exact hs.tornDown (by rw [hp]; rfl) (hs.lock.loopOut (by rw [hp]; rfl))
        (fun p hpl => (hs.pump p hpl).1) hstop
  | closed hp =>
    rw [hp] at hleave
    cases hleave

/-! The pump. -/

/-- A step of the pump leaves the loop where it is. -/
theorem Serves.pumped (hs : Serves c h) {p p' : Pump} (hp : c.playTask = some p)
    (hd : p.pc ≠ .done) (hlock : c'.LockAgrees) (hpc : c'.pc = c.pc)
    (ho : ∀ r, .response r ∉ o) (hp' : c'.playTask = some p') (hcrash : p'.pc ≠ .crashLocking)
    (hcancel : p'.cancelRequested = p.cancelRequested ∨
      p'.pc = .done ∧ p'.cancelRequested = false) : Serves c' (h ++ o.map .conn) := by
  refine ⟨hlock, ⟨hpc ▸ hs.answered.1, ?_⟩, fun handler r hplay => ?_, fun x hx => ?_,
    fun why hj => ⟨p', hp', fun hd' => ?_⟩⟩
  · rw [asked_append, answered_append, asked_conn, answered_quiet ho, List.append_nil,
      List.append_nil, hpc]
    exact hs.answered.2
  · exact .inl (by simp [hp'])
  · cases hp'.symm.trans hx
    refine ⟨hcrash, fun hc => ?_⟩
    rw [hpc]
    rcases hcancel with he | ⟨-, he⟩
    · exact (hs.pump p hp).2 (he ▸ hc)
    · rw [he] at hc
      cases hc
  · obtain ⟨x, hx, hcx⟩ := hs.joins why (hpc ▸ hj)
    cases hp.symm.trans hx
    rcases hcancel with he | ⟨he, -⟩
    · rw [he]
      exact hcx hd
    · exact absurd he hd'

theorem Exited.stays {p : Pump} (hex : Exited c p c' o) :
    c'.pc = c.pc ∧ (∀ r, .response r ∉ o) ∧ c'.playTask = some { p with pc := .done } := by
  cases hex with
  | unsubscribes => exact ⟨rfl, by simp, rfl⟩
  | bare => exact ⟨rfl, by simp, rfl⟩

theorem Serves.pumpStep (hs : Serves c h) {p : Pump} {i : PumpInput} (hp : c.playTask = some p)
    (hd : p.pc ≠ .done) (hstep : PumpStep c p i c' o) (hb : Writable (.conn (.pump i))) :
    Serves c' (h ++ o.map .conn) := by
  have hlock := hs.lock.pumpStep hp hstep
  cases hstep with
  | unstarted => exact hs.pumped hp hd hlock rfl (by simp) rfl (by simp) (.inr ⟨rfl, rfl⟩)
  | cancelledGetting _ _ hex | cancelledWaiting _ _ hex | cancelledDraining _ _ hex =>
    obtain ⟨hpc, ho, hp'⟩ := Exited.stays hex
    exact hs.pumped hp hd hlock hpc ho hp' (by simp) (.inr ⟨rfl, rfl⟩)
  | starts | writes | queues | acquired | drained =>
    exact hs.pumped hp hd hlock rfl (by simp) rfl (by simp) (.inl rfl)
  | sends =>
    exact hs.pumped hp hd hlock rfl (by simp) hp (hs.pump p hp).1 (.inl rfl)
  | drops => exact hs.pumped hp hd hlock rfl (by simp) hp (hs.pump p hp).1 (.inl rfl)
  | lost | crashes | crashWaits => exact hb.elim
  | crashTurn hpc => exact absurd hpc (hs.pump p hp).1

/-! One step. -/

/-- A request that does not arrive closes the connection. -/
theorem arrives {r : RawRequest} {token : Str}
    (hstep : c.step srv (.loop (r.read token)) = some (c', o)) (hl : leaving c'.pc = false) :
    ∃ hs, r.headerMap = some hs ∧ r.Short ∧
      LoopStep srv c (.request (r.line ++ [10]) hs token) c' o := by
  have hinv := loopStep_inv hstep
  have hgone : ¬ LoopStep srv c .gone c' o := by
    intro hg
    cases hg with
    | gone _ hstop => simp [leaving_of_stopped hstop] at hl
    | quits _ _ hstop => simp [leaving_of_stopped hstop] at hl
  rw [r.read_eq] at hinv
  cases hm : r.headerMap with
  | none =>
    rw [hm] at hinv
    exact absurd hinv hgone
  | some hs =>
    simp only [hm] at hinv
    split at hinv
    · exact ⟨hs, rfl, ‹_›, hinv⟩
    · exact absurd hinv hgone

theorem Serves.receive (hs : Serves c h) {r : RawRequest} {token : Str}
    (hstep : c.step srv (.loop (r.read token)) = some (c', o)) (hl : leaving c'.pc = false) :
    Serves c' (h ++ (.received r :: o.map .conn)) := by
  obtain ⟨headers, hm, -, hinv⟩ := arrives hstep hl
  have hq : headers.get "cseq" "0" = r.cseq := by rw [RawRequest.cseq, hm]; rfl
  rw [List.append_cons]
  cases hinv with
  | badLine _ hne => exact absurd r.words (hne _ _ _)
  | unauthorized hp _ _ hsent | unknown hp _ _ _ hsent =>
    exact (hs.receives hp r).sent (hq ▸ cseqOf_ofError _ _) (by simp) (by simp) hsent
  | authCrashes _ _ _ hstop => simp [leaving_of_stopped hstop] at hl
  | @handles _ _ _ _ _ _ m _ o hp _ _ _ hhandler =>
    rw [hq] at hhandler
    have hw := (hs.receives hp r).quiet (o := [.handler m]) (by simp)
    have hserves := hw.handled hhandler hl
    rwa [List.append_assoc] at hserves
  | quits _ hwhy => simp at hwhy

/-- As long as the connection stays it serves. -/
theorem Serves.step (hs : Serves c h) {i : ServeInput} {e : List ServeEvent}
    (hstep : serve srv c i = some (c', e)) (hb : Writable i) (hl : leaving c'.pc = false) :
    Serves c' (h ++ e) := by
  cases i with
  | receive r token =>
    obtain ⟨⟨c₁, o⟩, hq, he⟩ := Option.map_eq_some_iff.mp hstep
    cases he
    exact hs.receive hq hl
  | conn i =>
    obtain ⟨⟨c₁, o⟩, hq, he⟩ := Option.map_eq_some_iff.mp hstep
    cases he
    rcases step_cases hq with ⟨j, rfl, hloop⟩ | ⟨j, p, rfl, hp, hd, hpump⟩
    · exact hs.loop hloop hb hl
    · exact hs.pumpStep hp hd hpump hb

end
end DvrBridge.Rtsp
