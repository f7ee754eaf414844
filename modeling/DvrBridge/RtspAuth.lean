import DvrBridge.RtspSteps

/-! Whether a connection without the credentials reaches the handlers that need them. -/
namespace DvrBridge.Conn
open Machine PyText

/-- The methods that need credentials. -/
def Guarded (m : Method) : Prop := m = .describe ∨ m = .setup ∨ m = .play

/-- The request carries the configured `Authorization` value. -/
def Carries (auth : Str × Str) : ConnInput → Prop
  | .loop (.request _ headers _) =>
    headers.get "authorization" "" = "Basic ".toList ++ credentials auth
  | _ => False

instance (auth : Str × Str) : (i : ConnInput) → Decidable (Carries auth i)
  | .loop (.request _ headers _) => inferInstanceAs
      (Decidable (headers.get "authorization" "" = "Basic ".toList ++ credentials auth))
  | .loop .skipped | .loop (.malformed _) | .loop .gone | .loop (.ready _ _ _) | .loop .notReady
  | .loop (.opened _) | .loop .openFailed | .loop .acquired | .loop .drained | .loop .lost
  | .loop .timedOut | .loop .joined | .loop .closed | .pump _ => isFalse not_false

/-- No effect of a guarded handler: it does not run, no stream is touched or subscribed, no SDP is
sent, no endpoint is made and no media goes out. -/
def Harmless : Effect → Prop
  | .handler m => ¬ Guarded m
  | .response r => r.body = []
  | .touch _ | .subscribe _ _ | .media _ _ | .datagram _ _ _ _ | .openUdp _ => False
  | _ => True

/-- A request for a guarded handler is answered 401, nothing harmful happens and no transport is
set up. -/
def Denies (i : ConnInput) (c' : Conn) (o : List Effect) : Prop :=
  (∀ e ∈ o, Harmless e) ∧ (c'.stream = none ∧ c'.interleaved = none ∧ c'.udp = none) ∧
  match i with
  | .loop (.request line _ _) =>
    ∀ method url v m, tokens line = [method, url, v] → handlerOf method = some m → Guarded m →
      ∃ r, .response r ∈ o ∧ r.code = 401
  | _ => True

/-- A method token that leads to a guarded handler is in upper case, so that the gate knows it, and
its credentials are not refused by `compare_digest`. -/
def GateSees (auth : Str × Str) : ConnInput → Prop
  | .loop (.request line headers _) =>
    ∀ method url v m, tokens line = [method, url, v] → handlerOf method = some m → Guarded m →
      gated method = true ∧ checkAuth auth headers ≠ .typeError
  | _ => True

/-- Nothing was set up: no pump, and the lock is the request loop's own. -/
structure Outside (c : Conn) : Prop where
  noPump : c.playTask = none
  bare : c.stream = none ∧ c.interleaved = none ∧ c.udp = none
  noWaiters : c.lock.waiters = []
  pc : c.pc = .reading ∧ c.lock.holder = none ∨
    (∃ handler k, c.pc = .draining handler k ∧ k ≠ .play) ∨ c.pc = .closing ∨ c.pc = .ended

theorem handlerOf_of_gated {method : Str} (h : gated method = true) :
    ∃ m, handlerOf method = some m ∧ Guarded m := by
  simp only [gated, decide_eq_true_eq] at h
  rcases h with rfl | rfl | rfl
  · exact ⟨.describe, by decide, .inl rfl⟩
  · exact ⟨.setup, by decide, .inr (.inl rfl)⟩
  · exact ⟨.play, by decide, .inr (.inr rfl)⟩

theorem carries_of_pass {auth : Str × Str} {headers : Headers}
    (h : checkAuth auth headers = .pass) :
    headers.get "authorization" "" = "Basic ".toList ++ credentials auth := by
  simp only [checkAuth] at h
  split at h
  · rename_i hb
    split at h
    · split at h
      · rename_i he
        obtain ⟨rest, hr⟩ := List.isPrefixOf_iff_prefix.mp hb
        rw [← hr] at he ⊢
        rw [← he]
        rfl
      · cases h
    · cases h
  · cases h

theorem Outside.free {c : Conn} (h : c.Outside) (hp : c.pc = .reading) : c.lock.free = true := by
  rcases h.pc with ⟨-, hl⟩ | ⟨_, _, hd, -⟩ | hc | hc
  · simp [FifoLock.free, hl, h.noWaiters]
  all_goals simp_all

/-- An answer without a body, sent with the lock free. -/
theorem Outside.sent {c c' : Conn} {handler : Option Str} {r : Response} {k : After}
    {o : List Effect} (hc : c.Outside) (hf : c.lock.free = true) (h : Sent c handler r k c' o)
    (hk : k ≠ .play) (hb : r.body = []) :
    c'.Outside ∧ (∀ e ∈ o, Harmless e) ∧ .response r ∈ o := by
  obtain ⟨rfl, rfl⟩ := h.of_free hf
  exact ⟨⟨hc.noPump, hc.bare, hc.noWaiters, .inr (.inl ⟨handler, k, rfl, hk⟩)⟩,
    by simpa [Harmless], by simp⟩

/-- The connection between two awaits is as outside as before. -/
theorem Outside.release {c : Conn} (h : c.Outside) (hp : c.pc ≠ .reading) : c.release.Outside := by
  refine ⟨h.noPump, h.bare, h.noWaiters, ?_⟩
  rcases h.pc with ⟨hr, -⟩ | hd
  · exact absurd hr hp
  · exact .inr hd

theorem Outside.stopped {c c' : Conn} {why : Leave} {o : List Effect} (hc : c.Outside)
    (hl : why = .teardown → c.lock.holder = none) (h : Stopped c why c' o) :
    c'.Outside ∧ (∀ e ∈ o, Harmless e) ∧ ∀ r, .response r ∉ o := by
  have hmem (e : Effect) (he : Harmless e) (hr : ∀ r, .response r ≠ e) :
      (∀ e' ∈ c.released ++ [e], Harmless e') ∧ ∀ r, .response r ∉ c.released ++ [e] := by
    refine ⟨?_, ?_⟩
    · exact List.forall_mem_append.mpr
        ⟨forall_mem_released (fun _ => trivial) c, List.forall_mem_singleton.mpr he⟩
    · intro r hm
      cases List.mem_append.mp hm with
      | inl hm => exact not_mem_released (by simp) c hm
      | inr hm => exact hr r (List.mem_singleton.mp hm)
  cases h with
  | joins p hpl => simp [hc.noPump] at hpl
  | tornDown =>
    exact ⟨⟨rfl, ⟨rfl, rfl, rfl⟩, hc.noWaiters, .inl ⟨rfl, hl rfl⟩⟩,
      hmem .teardownDone trivial (by simp)⟩
  | closes =>
    exact ⟨⟨rfl, ⟨hc.bare.1, rfl, rfl⟩, hc.noWaiters, .inr (.inr (.inl rfl))⟩,
      hmem .closeWriter trivial (by simp)⟩

/-- A handler that needs no credentials. -/
theorem Outside.handlerStep {srv : Server} {c c' : Conn} {url : Str} {headers : Headers}
    {cseq token : Str} {m : Method} {o : List Effect} (hc : c.Outside) (hp : c.pc = .reading)
    (hm : ¬ Guarded m) (h : HandlerStep srv c url headers cseq token m c' o) :
    c'.Outside ∧ ∀ e ∈ o, Harmless e := by
  have hplain : ∃ r k, c.handle srv m url headers cseq token = (c, [], .answer r k) ∧ k ≠ .play ∧
      r.body = [] := by
    cases m with
    | describe => exact absurd (.inl rfl) hm
    | setup => exact absurd (.inr (.inl rfl)) hm
    | play => exact absurd (.inr (.inr rfl)) hm
    | _ => exact ⟨_, _, rfl, by simp, rfl⟩
  obtain ⟨r, k, hh, hk, hb⟩ := hplain
  cases h with
  | answers _ hh' hsent =>
    rw [hh] at hh'
    cases hh'
    exact ⟨(hc.sent (hc.free hp) hsent hk hb).1, (hc.sent (hc.free hp) hsent hk hb).2.1⟩
  | refuses hh' =>
    rw [hh] at hh'
    cases hh'
  | describeCrashes | waits => exact absurd (.inl rfl) hm
  | setupCrashes | setupRefuses | setupAnswers | setupOpens => exact absurd (.inr (.inl rfl)) hm

section requests
variable {srv : Server} {auth : Str × Str} {c c' : Conn} {o : List Effect} {line : Bytes}
  {headers : Headers} {token : Str}

/-- A request without the credentials that the gate sees for what it is. -/
theorem Outside.request (hauth : srv.auth = some auth) (hc : c.Outside)
    (hno : ¬ Carries auth (.loop (.request line headers token)))
    (hsees : GateSees auth (.loop (.request line headers token)))
    (hs : LoopStep srv c (.request line headers token) c' o) :
    c'.Outside ∧ Denies (.loop (.request line headers token)) c' o := by
  cases hs with
  | badLine hp ht hsent =>
    obtain ⟨hc', ho, -⟩ := hc.sent (hc.free hp) hsent (by simp) rfl
    exact ⟨hc', ho, hc'.bare, fun method url v m he => absurd he (ht method url v)⟩
  | unauthorized hp ht hg hsent =>
    obtain ⟨hc', ho, hr⟩ := hc.sent (hc.free hp) hsent (by simp) rfl
    exact ⟨hc', ho, hc'.bare, fun _ _ _ _ _ _ _ => ⟨_, hr, rfl⟩⟩
  | authCrashes hp ht hg =>
    simp only [gate, hauth] at hg
    split at hg
    · rename_i hgate
      obtain ⟨m, hm, hgm⟩ := handlerOf_of_gated hgate
      exact absurd hg (hsees _ _ _ m ht hm hgm).2
    · cases hg
  | unknown hp ht hg hm hsent =>
    obtain ⟨hc', ho, -⟩ := hc.sent (hc.free hp) hsent (by simp) rfl
    refine ⟨hc', ho, hc'.bare, fun method url v m he hm' => ?_⟩
    rw [ht] at he
    cases he
    rw [hm] at hm'
    cases hm'
  | @handles _ _ _ method url v m _ _ hp ht hg hm hstep =>
    have hfree : ¬ Guarded m := by
      intro hgm
      have hgate := (hsees _ _ _ m ht hm hgm).1
      simp only [gate, hauth, hgate, if_true] at hg
      exact hno (carries_of_pass hg)
    obtain ⟨hc', ho⟩ := hc.handlerStep hp hfree hstep
    refine ⟨hc', ?_, hc'.bare, fun _ _ _ m' he hm' hgm => ?_⟩
    · intro e he
      rcases List.mem_cons.mp he with rfl | he
      · exact hfree
      · exact ho e he
    · rw [ht] at he
      cases he
      rw [hm, Option.some.injEq] at hm'
      exact absurd (hm' ▸ hgm) hfree
  | quits hp hi =>
    rcases hi with ⟨hi, -⟩ | hi | ⟨hi, -⟩ <;> cases hi

/-- A request that the gate does not see reaches its handler, or ends the connection unanswered. -/
theorem gateSees_of_denies (hauth : srv.auth = some auth) (hc : c.Outside)
    (hs : LoopStep srv c (.request line headers token) c' o)
    (hd : Denies (.loop (.request line headers token)) c' o) :
    GateSees auth (.loop (.request line headers token)) := by
  obtain ⟨hharm, -, hans⟩ := hd
  intro method url v m ht hm hgm
  cases hs with
  | badLine _ hn => exact absurd ht (hn method url v)
  | unauthorized _ ht' hg =>
    rw [ht] at ht'
    cases ht'
    simp only [gate, hauth] at hg
    split at hg
    · rename_i hgate
      exact ⟨hgate, by simp [hg]⟩
    · cases hg
  | authCrashes hp _ _ hstop =>
    obtain ⟨r, hr, -⟩ := hans method url v m ht hm hgm
    rcases List.mem_cons.mp hr with hr | hr
    · cases hr
    · exact absurd hr ((hc.stopped (by simp) hstop).2.2 r)
  | unknown _ ht' _ hm' =>
    rw [ht] at ht'
    cases ht'
    rw [hm] at hm'
    cases hm'
  | @handles _ _ _ _ _ _ m' _ _ _ ht' _ hm' =>
    rw [ht] at ht'
    cases ht'
    rw [hm, Option.some.injEq] at hm'
    exact absurd hgm (hm' ▸ hharm (.handler m') List.mem_cons_self)
  | quits hp hi =>
    rcases hi with ⟨hi, -⟩ | hi | ⟨hi, -⟩ <;> cases hi

end requests

/-- Any other step of the request loop. -/
theorem Outside.loopStep {srv : Server} {c c' : Conn} {i : LoopInput} {o : List Effect}
    (hc : c.Outside) (hi : ∀ line headers token, i ≠ .request line headers token)
    (hs : LoopStep srv c i c' o) : c'.Outside ∧ ∀ e ∈ o, Harmless e := by
  have hbusy (hr : c.pc ≠ .reading) (hd : ∀ handler k, c.pc ≠ .draining handler k)
      (hcl : c.pc ≠ .closing ∧ c.pc ≠ .ended) : False := by
    rcases hc.pc with ⟨h, -⟩ | ⟨handler, k, h, -⟩ | h | h
    · exact hr h
    · exact hd handler k h
    · exact hcl.1 h
    · exact hcl.2 h
  have hplay {handler : Option Str} (hp : c.pc = .draining handler .play) : False := by
    rcases hc.pc with ⟨h, -⟩ | ⟨handler, k, h, hk⟩ | h | h
    · simp [hp] at h
    · rw [hp, LoopPc.draining.injEq] at h
      exact hk h.2.symm
    · simp [hp] at h
    · simp [hp] at h
  cases hs with
  | badLine | unauthorized | authCrashes | unknown | handles => exact absurd rfl (hi _ _ _)
  | skipped => exact ⟨hc, by simp⟩
  | malformed hp _ hsent =>
    obtain ⟨hc', ho, -⟩ := hc.sent (hc.free hp) hsent (by simp) rfl
    exact ⟨hc', ho⟩
  | gone hp hstop =>
    obtain ⟨hc', ho, -⟩ := hc.stopped (by simp) hstop
    exact ⟨hc', ho⟩
  | ready hp | readyCrashes hp | notReady hp | opened hp | openedCrashes hp | openFails hp
  | acquired hp | joined hp => exact (hbusy (by simp [hp]) (by simp [hp]) (by simp [hp])).elim
  | playsOn hp | subscribes hp | playCrashes hp => exact (hplay hp).elim
  | drained hp => exact ⟨⟨hc.noPump, hc.bare, hc.noWaiters, .inl ⟨rfl, rfl⟩⟩, by simp⟩
  | tearsDown hp hstop =>
    obtain ⟨hc', ho, -⟩ := (hc.release (by simp [hp])).stopped (fun _ => rfl) hstop
    exact ⟨hc', ho⟩
  | quits hp _ hstop =>
    obtain ⟨hc', ho, -⟩ := (hc.release (by simp [hp])).stopped (by simp) hstop
    exact ⟨hc', ho⟩
  | timedOut hp hsent =>
    have hr := hc.release (by simp [hp])
    have hfree : c.release.lock.free = true := by
      simp [FifoLock.free, Conn.release, FifoLock.release, hc.noWaiters]
    obtain ⟨hc', ho, -⟩ := hr.sent hfree hsent
      (by simp) rfl
    exact ⟨hc', ho⟩
  | closed hp =>
    refine ⟨⟨hc.noPump, hc.bare, hc.noWaiters, .inr (.inr (.inr rfl))⟩, ?_⟩
    simp [Harmless]

theorem Outside.step {srv : Server} {auth : Str × Str} {c c' : Conn} {i : ConnInput}
    {o : List Effect} (hauth : srv.auth = some auth) (hc : c.Outside) (hno : ¬ Carries auth i)
    (hsees : GateSees auth i) (hs : c.step srv i = some (c', o)) :
    c'.Outside ∧ Denies i c' o := by
  rcases step_cases hs with ⟨j, rfl, hl⟩ | ⟨j, p, rfl, hp, -⟩
  · by_cases hj : ∃ line headers token, j = .request line headers token
    · obtain ⟨line, headers, token, rfl⟩ := hj
      exact hc.request hauth hno hsees hl
    · obtain ⟨hc', ho⟩ := hc.loopStep (fun line headers token he => hj ⟨_, _, _, he⟩) hl
      refine ⟨hc', ho, hc'.bare, ?_⟩
      split
      · rename_i he
        exact absurd ⟨_, _, _, ConnInput.loop.inj he⟩ hj
      · trivial
  · simp [hc.noPump] at hp

theorem outside_fresh (peer : Option Str) (ssrc : Nat) : (fresh peer ssrc).Outside :=
  ⟨rfl, ⟨rfl, rfl, rfl⟩, rfl, .inl ⟨rfl, rfl⟩⟩

/-- With credentials configured and no request that carries them, every request for DESCRIBE, SETUP
or PLAY is answered 401 and nothing else happens, if and only if the gate sees every such request:
the method in upper case, and credentials that `compare_digest` takes. -/
theorem denies_iff_gate_sees (srv : Server) (auth : Str × Str) (hauth : srv.auth = some auth)
    (peer : Option Str) (ssrc : Nat) (is : List ConnInput) (hno : ∀ i ∈ is, ¬ Carries auth i) :
    EveryStep (step srv) (fun _ _ i c' o => Denies i c' o) (fresh peer ssrc) is ↔
      EveryStep (step srv) (fun _ _ i _ _ => GateSees auth i) (fresh peer ssrc) is := by
  refine everyStep_iff (fun c _ => c.Outside) (outside_fresh peer ssrc) ?_ ?_
    (everyStep_of_forall_mem hno)
  · intro c _ i c' o hc hs hi hsees
    exact (hc.step hauth hi hsees hs).1
  · intro c _ i c' o hc hs hi
    refine ⟨fun hd => ?_, fun hsees => (hc.step hauth hi hsees hs).2⟩
    rcases step_cases hs with ⟨j, rfl, hl⟩ | ⟨j, p, rfl, hp, -⟩
    · unfold GateSees
      split
      · rename_i he
        rw [ConnInput.loop.injEq] at he
        subst he
        exact gateSees_of_denies hauth hc hl hd
      · trivial
    · simp [hc.noPump] at hp

/-- `user:pass` is configured. -/
def guardedServer : Server :=
  { auth := some ("user".toList, "pass".toList), hub := ["cam".toList], urlPath := plainPath }

theorem lower_case_describe_not_denied :
    ¬ EveryStep (step guardedServer) (fun _ _ i c' o => Denies i c' o) (fresh none 1)
      [request "describe rtsp://h/cam RTSP/1.0" []] := by
  intro h
  have hr : (step guardedServer (fresh none 1) (request "describe rtsp://h/cam RTSP/1.0" [])).map
      (·.2) = some [.handler .describe, .touch "cam".toList] := by
    decide +kernel
  obtain ⟨⟨c', o⟩, hs, ho⟩ := Option.map_eq_some_iff.mp hr
  obtain ⟨hharm, -⟩ := h [] _ [] rfl (fresh none 1) [] c' o rfl hs
  simp only at ho
  exact hharm (.handler .describe) (by simp [ho]) (.inl rfl)

theorem lower_case_describe_iff :
    EveryStep (step guardedServer) (fun _ _ i c' o => Denies i c' o) (fresh none 1)
        [request "describe rtsp://h/cam RTSP/1.0" []] ↔
      EveryStep (step guardedServer)
        (fun _ _ i _ _ => GateSees ("user".toList, "pass".toList) i) (fresh none 1)
        [request "describe rtsp://h/cam RTSP/1.0" []] :=
  denies_iff_gate_sees guardedServer _ rfl none 1 _ (by
    intro i hi
    rw [List.mem_singleton] at hi
    subst hi
    decide +kernel)

end DvrBridge.Conn
