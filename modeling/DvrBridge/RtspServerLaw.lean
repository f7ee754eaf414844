import DvrBridge.RtspServer

/-! What `max_connections` bounds, and what `RTSPServer.stop` leaves behind. -/
namespace DvrBridge
open Machine PyText

theorem Conn.LoopStep.not_ended {srv : Server} {c c' : Conn} {i : LoopInput} {o : List Effect}
    (h : LoopStep srv c i c' o) : c.pc ≠ .ended := by
  intro he
  cases h <;> simp_all

namespace LiveConn

/-- One of the pumps died of its `assert`. -/
def Failed (s : LiveConn) : Prop := ∃ t ∈ s.tasks, t.failed = true

/-- A `close()` that has got past the pump has closed the writer, unless the pump had failed. -/
def Shut (s : LiveConn) (os : List Effect) : Prop :=
  ∀ c ∈ s.closers, (∀ n, c ≠ .joining n) → .closeWriter ∈ os ∨ s.Failed

section
variable {srv : Server} {s s' : LiveConn} {os o : List Effect}

theorem Failed.setPump (h : s.Failed) (n : Nat) (p : Pump) : (s.setPump n p).Failed := by
  obtain ⟨t, ht, hf⟩ := h
  obtain ⟨m, hm⟩ := List.mem_iff_getElem?.mp ht
  have hget : (s.setPump n p).tasks[m]? =
      some (if n = m then { t with pump := p } else t) := by
    rw [LiveConn.setPump, List.getElem?_modify, hm]
    split <;> rfl
  refine ⟨_, List.mem_of_getElem? hget, ?_⟩
  split <;> exact hf

theorem Failed.putTask (h : s.Failed) (p : Option Pump) : (s.putTask p).Failed := by
  unfold LiveConn.putTask
  split
  · exact h
  · split
    · exact h.setPump _ _
    · obtain ⟨t, ht, hf⟩ := h
      exact ⟨t, List.mem_append_left _ ht, hf⟩

theorem stop_keeps : (s.Failed → s.stop.1.Failed) ∧ s.stop.1.conn.pc = s.conn.pc := by
  unfold LiveConn.stop
  split
  · exact ⟨id, rfl⟩
  · split
    · exact ⟨id, rfl⟩
    · split
      · exact ⟨id, rfl⟩
      · exact ⟨fun h => h.setPump _ _, rfl⟩

/-- Failed pumps stay, and a step changes the closing calls only where `RTSPServer.stop` does. -/
theorem step_keeps {i : LiveInput} (hs : s.step srv i = some (s', o)) :
    (s.Failed → s'.Failed) ∧
      ((∀ k j, i ≠ .closer k j) → i ≠ .stop → s'.closers = s.closers) := by
  have hloop (r : Conn × List Effect) : (s.Failed → (s.afterLoop r).1.Failed) ∧
      (s.afterLoop r).1.closers = s.closers :=
    ⟨fun h => Failed.putTask (s := s.leftBy .loop r.1) h r.1.playTask, putTask_closers ..⟩
  cases i with
  | loop i =>
    change s.loopStep srv i = some (s', o) at hs
    unfold LiveConn.loopStep at hs
    split at hs
    · rename_i why _
      obtain ⟨t, -, hs⟩ := Option.bind_eq_some_iff.mp hs
      split at hs
      · cases why with
        | teardown =>
          have := hloop s.atLoop.crash
          cases hs
          exact ⟨this.1, fun _ _ => this.2⟩
        | close =>
          cases hs
          exact ⟨id, fun _ _ => rfl⟩
      · obtain ⟨-, hs⟩ := Option.ite_none_right_eq_some.mp hs
        have := hloop (({ s.atLoop with playTask := none } : Conn).afterStop why)
        rw [Option.some.injEq] at hs
        rw [hs] at this
        exact ⟨this.1, fun _ _ => this.2⟩
    · obtain ⟨r, -, hr⟩ := Option.map_eq_some_iff.mp hs
      have := hloop r
      rw [hr] at this
      exact ⟨this.1, fun _ _ => this.2⟩
  | pump n i =>
    obtain ⟨t, ht, hs⟩ := Option.bind_eq_some_iff.mp hs
    split at hs
    · cases hs
    · split at hs
      · cases hs
        refine ⟨fun _ => ⟨{ t with failed := true }, ?_, rfl⟩, fun _ _ => rfl⟩
        exact List.mem_set (List.getElem?_eq_some_iff.mp ht).1 _
      · obtain ⟨r, -, hr⟩ := Option.map_eq_some_iff.mp hs
        cases hr
        exact ⟨fun h => Failed.setPump (s := s.leftBy _ _) h _ _, fun _ _ => rfl⟩
  | stop =>
    refine ⟨fun h => ?_, fun _ hne => absurd rfl hne⟩
    obtain ⟨rfl, rfl⟩ := Prod.mk.inj (Option.some.inj hs)
    exact stop_keeps.1 h
  | closer k i =>
    refine ⟨fun h => ?_, fun hne _ => absurd rfl (hne k i)⟩
    change s.closerStep k i = some (s', o) at hs
    unfold LiveConn.closerStep at hs
    split at hs
    · obtain ⟨t, -, hs⟩ := Option.bind_eq_some_iff.mp hs
      split at hs
      · cases hs
        exact h
      · obtain ⟨-, hs⟩ := Option.ite_none_right_eq_some.mp hs
        cases hs
        exact h
    · cases hs
      exact h
    · cases hs

theorem Shut.mono (h : s.Shut os) (hc : s'.closers = s.closers) (hf : s.Failed → s'.Failed) :
    s'.Shut (os ++ o) := by
  intro c hm hne
  rw [hc] at hm
  exact (h c hm hne).imp (List.mem_append_left _) hf

/-- A closing call that goes on. -/
theorem Shut.set (h : s.Shut os) {k : Nat} {c : Closer} (ht : s'.tasks = s.tasks)
    (hc : s'.closers = s.closers.set k c) (hone : .closeWriter ∈ os ++ o ∨ s.Failed) :
    s'.Shut (os ++ o) := by
  have hfail : s.Failed → s'.Failed := by
    rintro ⟨t, hm, hf⟩
    exact ⟨t, ht ▸ hm, hf⟩
  intro d hm hne
  rw [hc] at hm
  rcases List.mem_or_eq_of_mem_set hm with hm | rfl
  · exact (h d hm hne).imp (List.mem_append_left _) hfail
  · exact hone.imp_right hfail

theorem closeWriter_mem_release : .closeWriter ∈ s.release.2 := by
  simp [LiveConn.release]

/-- `RTSPServer.stop` adds a closing call. -/
theorem stop_closers : ∃ c, s.stop.1.closers = s.closers ++ [c] ∧
    ((∀ n, c ≠ .joining n) → .closeWriter ∈ s.stop.2) := by
  have hcloses : ∃ c, s.closes.1.closers = s.closers ++ [c] ∧
      ((∀ n, c ≠ .joining n) → .closeWriter ∈ s.closes.2) :=
    ⟨.closing, rfl, fun _ => closeWriter_mem_release⟩
  unfold LiveConn.stop
  split
  · exact hcloses
  · rename_i n _
    split
    · exact hcloses
    · split
      · exact hcloses
      · exact ⟨.joining n, rfl, fun hne => absurd rfl (hne n)⟩

theorem Shut.step {i : LiveInput} (h : s.Shut os) (hs : s.step srv i = some (s', o)) :
    s'.Shut (os ++ o) := by
  obtain ⟨hfail, hsame⟩ := step_keeps hs
  cases i with
  | loop | pump => exact h.mono (hsame (by simp) (by simp)) hfail
  | stop =>
    obtain ⟨c, hc, hw⟩ := stop_closers (s := s)
    obtain ⟨rfl, rfl⟩ := Prod.mk.inj (Option.some.inj hs)
    intro d hm hne
    change d ∈ s.stop.1.closers at hm
    rw [hc, List.mem_append, List.mem_singleton] at hm
    rcases hm with hm | rfl
    · exact (h d hm hne).imp (List.mem_append_left _) hfail
    · exact .inl (List.mem_append_right _ (hw hne))
  | closer k i =>
    change s.closerStep k i = some (s', o) at hs
    unfold LiveConn.closerStep at hs
    split at hs
    · rename_i n _
      obtain ⟨t, ht, hs⟩ := Option.bind_eq_some_iff.mp hs
      split at hs
      · rename_i hf
        cases hs
        exact h.set rfl rfl (.inr ⟨t, List.mem_of_getElem? ht, hf⟩)
      · obtain ⟨-, hs⟩ := Option.ite_none_right_eq_some.mp hs
        cases hs
        exact h.set rfl rfl (.inl (List.mem_append_right _ closeWriter_mem_release))
    · rename_i hk
      cases hs
      have := h .closing (List.mem_of_getElem? hk) (by simp)
      exact h.set rfl rfl (this.imp_left (List.mem_append_left _))
    · cases hs

/-- `run` returns once. -/
theorem gone_step {i : LiveInput} (h : s.gone = true) (hs : s.step srv i = some (s', o)) :
    s'.gone = true := by
  have hpc : s.conn.pc = .ended := of_decide_eq_true h
  refine decide_eq_true ?_
  cases i with
  | loop i =>
    change s.loopStep srv i = some (s', o) at hs
    unfold LiveConn.loopStep at hs
    split at hs
    · rename_i hp
      rw [hpc] at hp
      cases hp
    · obtain ⟨r, hr, -⟩ := Option.map_eq_some_iff.mp hs
      exact absurd hpc (Conn.loopStep_inv hr).not_ended
  | pump n i =>
    obtain ⟨t, ht, hs⟩ := Option.bind_eq_some_iff.mp hs
    split at hs
    · cases hs
    · split at hs
      · cases hs
        exact hpc
      · obtain ⟨⟨c, e⟩, hc, he⟩ := Option.map_eq_some_iff.mp hs
        cases he
        have hstep := (Conn.pumpStep_inv hc).2.untouched.pc
        exact (c.nextFrame_untouched (c.playTask.getD t.pump)).pc.trans (hstep.trans hpc)
  | stop =>
    obtain ⟨rfl, rfl⟩ := Prod.mk.inj (Option.some.inj hs)
    exact stop_keeps.2.trans hpc
  | closer k i =>
    change s.closerStep k i = some (s', o) at hs
    unfold LiveConn.closerStep at hs
    split at hs
    · obtain ⟨t, -, hs⟩ := Option.bind_eq_some_iff.mp hs
      split at hs
      · cases hs
        exact hpc
      · obtain ⟨-, hs⟩ := Option.ite_none_right_eq_some.mp hs
        cases hs
        exact hpc
    · cases hs
      exact hpc
    · cases hs

/-- A closing call stays in the list. -/
theorem closers_ne_nil {i : LiveInput} (h : s.closers ≠ [] ∨ i = .stop)
    (hs : s.step srv i = some (s', o)) : s'.closers ≠ [] := by
  obtain ⟨-, hsame⟩ := step_keeps hs
  cases i with
  | loop | pump =>
    rw [hsame (by simp) (by simp)]
    exact h.resolve_right (by simp)
  | stop =>
    obtain ⟨c, hc, -⟩ := stop_closers (s := s)
    obtain ⟨rfl, rfl⟩ := Prod.mk.inj (Option.some.inj hs)
    change s.stop.1.closers ≠ []
    rw [hc]
    simp
  | closer k i =>
    have hne : s.closers ≠ [] := h.resolve_right (by simp)
    have hset (c : Closer) : s.closers.set k c ≠ [] := by simpa using hne
    change s.closerStep k i = some (s', o) at hs
    unfold LiveConn.closerStep at hs
    split at hs
    · obtain ⟨t, -, hs⟩ := Option.bind_eq_some_iff.mp hs
      split at hs
      · cases hs
        exact hset _
      · obtain ⟨-, hs⟩ := Option.ite_none_right_eq_some.mp hs
        cases hs
        exact hset _
    · cases hs
      exact hset _
    · cases hs

end

/-- A run of the connection by itself. -/
def Reached (srv : Server) (c : LiveConn) (os : List Effect) : Prop :=
  ∃ peer ssrc js, run (step srv) (fresh peer ssrc) js = some (c, os)

end LiveConn

namespace RtspServer
variable {srv : Server} {most : Int} {s s' : RtspServer} {i : ServerInput}
  {h o : List ServerOutput}

/-- A law of the connections that their steps keep. -/
theorem keeps_step {Inv : LiveConn → List Effect → Prop}
    (hk : s.pool.Keeps Inv fun k => ofConn k h) (hs : s.step srv most i = some (s', o))
    (h0 : ∀ peer ssrc, Inv (LiveConn.fresh peer ssrc) [])
    (hstep : ∀ k c c' j es, s.pool.sessions[k]? = some c → (i = .conn k j ∨ j = .stop) →
      Inv c (ofConn k h) → c.step srv j = some (c', es) → Inv c' (ofConn k h ++ es)) :
    s'.pool.Keeps Inv fun k => ofConn k (h ++ o) := by
  -- a step that shows nothing of a connection
  have hquiet {pool : Pool LiveConn} (hp : pool.Keeps Inv fun k => ofConn k h)
      (ho : ∀ k, ofConn k o = []) : pool.Keeps Inv fun k => ofConn k (h ++ o) := by
    simpa only [ofConn_append, ho, List.append_nil] using hp
  have hmove {k : Nat} {j : LiveInput} {pool : Pool LiveConn} {es : List Effect}
      (hij : i = .conn k j ∨ j = .stop)
      (hm : s.pool.move (LiveConn.step srv) LiveConn.gone k j = some (pool, es)) :
      pool.Keeps Inv fun n => ofConn n (h ++ es.map (.conn k)) := by
    refine hk.move hm (fun c c' hc hi hcs => hstep k c c' j es hc hij hi hcs) ?_ fun n hn => ?_
    · simp only [ofConn_append, ofConn_conn, if_true]
    · simp only [ofConn_append, ofConn_conn, if_neg hn, List.append_nil]
  cases step_inv hs with
  | accept => exact hquiet hk fun _ => rfl
  | refuses => exact hquiet hk fun _ => rfl
  | admits _ ha => exact hquiet (hk.enter (h0 _ _) ha) fun _ => rfl
  | conn _ hm => exact hmove (.inl rfl) hm
  | stop => exact hquiet hk fun k => ofConn_found k _
  | close _ hm => exact hmove (.inr rfl) hm

theorem sound_step (hp : s.pool.Sound LiveConn.gone most) (hs : s.step srv most i = some (s', o)) :
    s'.pool.Sound LiveConn.gone most := by
  cases step_inv hs with
  | accept | refuses | stop => exact hp
  | admits _ ha => exact hp.enter rfl ha
  | conn _ hm | close _ hm => exact hp.move (fun _ _ _ _ ho hcs => LiveConn.gone_step ho hcs) hm

/-- Of every step, what `LiveConn.Provided` asks of the connection. -/
def Provided (s : RtspServer) : ServerInput → Prop
  | .conn k i => ∀ c, s.pool.sessions[k]? = some c → c.Provided i
  | _ => True

theorem held_step (hk : s.pool.Keeps LiveConn.Held fun k => ofConn k h)
    (hs : s.step srv most i = some (s', o)) (hi : s.Provided i) :
    s'.pool.Keeps LiveConn.Held fun k => ofConn k (h ++ o) := by
  refine keeps_step hk hs LiveConn.held_fresh fun k c c' j es hc hij hh hcs => hh.step hcs ?_
  rcases hij with rfl | rfl
  · exact hi c hc
  · trivial

/-- The connection budget. Whatever clients and connections do, in any order, at most
`max_connections` connections are served at a time, `_conns` lists exactly these, and each connection
goes through a run of its own. Where each connection meets the conditions under which it owns one
endpoint at most, all of them together own no more endpoints than there are connections. -/
theorem within_budget (srv : Server) (most : Int) (is : List ServerInput) (s : RtspServer)
    (h : List ServerOutput) (hr : run (step srv most) {} is = some (s, h)) :
    s.pool.live.Nodup ∧
    (∀ k, k ∈ s.pool.live ↔ ∃ c, s.pool.sessions[k]? = some c ∧ c.conn.pc ≠ .ended) ∧
    (s.pool.live.length : Int) ≤ max most 0 ∧
    (∀ k c, s.pool.sessions[k]? = some c → LiveConn.Reached srv c (ofConn k h)) ∧
    (EveryStep (step srv most) (fun s _ i _ _ => s.Provided i) {} is →
      ∑ k ∈ Finset.range s.pool.sessions.length, (openEndpoints (ofConn k h)).length ≤
        s.pool.live.length) := by
  have hs : s.pool.Sound LiveConn.gone most :=
    run_invariant' (fun s _ => s.pool.Sound LiveConn.gone most) (Pool.sound_empty ..)
      (fun _ _ _ _ _ hp hs => sound_step hp hs) hr
  refine ⟨hs.nodup, fun k => ?_, hs.bound, ?_, fun hp => ?_⟩
  · rw [hs.mem k]
    simp [LiveConn.gone]
  · have hk : s.pool.Keeps (LiveConn.Reached srv) fun k => ofConn k h := by
      refine run_invariant' (fun s h => s.pool.Keeps (LiveConn.Reached srv) fun k => ofConn k h)
        (Pool.keeps_empty _) (fun s h i s' o hk hs => ?_) hr
      refine keeps_step hk hs (fun peer ssrc => ⟨peer, ssrc, [], rfl⟩) ?_
      rintro k c c' j es - - ⟨peer, ssrc, js, hj⟩ hcs
      exact ⟨peer, ssrc, js ++ [j], (run_snoc_iff ..).mpr ⟨c, _, es, hj, hcs, rfl⟩⟩
    exact hk.inv
  · have hk : s.pool.Keeps LiveConn.Held fun k => ofConn k h :=
      run_invariant (fun s h => s.pool.Keeps LiveConn.Held fun k => ofConn k h)
        (Pool.keeps_empty _) (fun _ _ _ _ _ hk hs hi => held_step hk hs hi) hp hr
    refine hk.sum_le hs (fun es => (openEndpoints es).length) fun c es hh => ?_
    obtain ⟨hone, hended⟩ := hh.ownsOne
    split
    · rename_i hgone
      rw [hended (of_decide_eq_true hgone)]
      rfl
    · omega

instance (s : RtspServer) : DecidablePred s.Provided := fun i =>
  match i with
  | .conn k i =>
    decidable_of_iff (∀ c ∈ s.pool.sessions[k]?, c.Provided i) Iff.rfl
  | .accept | .client _ _ | .stop | .close _ => isTrue trivial

def camera : Server := { hub := ["cam".toList], urlPath := Conn.plainPath }

/-- Two sockets where one connection is served, and a third, once that one has left, with an
endpoint. -/
def crowd : List ServerInput :=
  [.accept, .accept, .client none 1, .client none 2, .conn 0 (.loop .gone), .conn 0 (.loop .closed),
    .accept, .client (some "c".toList) 3, .conn 1 (LiveConn.setup "RTP/AVP;client_port=5000"),
    .conn 1 (.loop (.opened 50000))]

theorem crowd_run : ((run (step camera 1) {} crowd).map fun r =>
    (r.1.pool.live, r.2.take 3, checkEvery (step camera 1)
      (fun s _ i _ _ => decide (s.Provided i)) {} [] crowd)) =
      some ([1], [.refused, .conn 0 .closeWriter, .conn 0 .ended], true) := by
  decide +kernel

theorem within_budget_crowd : ∃ s h, run (step camera 1) {} crowd = some (s, h) ∧
    s.pool.live = [1] ∧
    ∑ k ∈ Finset.range s.pool.sessions.length, (openEndpoints (ofConn k h)).length ≤ 1 := by
  obtain ⟨⟨s, h⟩, hr, he⟩ := Option.map_eq_some_iff.mp crowd_run
  simp only [Prod.mk.injEq] at he
  obtain ⟨hlive, -, hp⟩ := he
  obtain ⟨-, -, -, -, hsum⟩ := within_budget camera 1 crowd s h hr
  refine ⟨s, h, hr, hlive, ?_⟩
  have := hsum (everyStep_of_checkEvery hp)
  rwa [hlive] at this

/-- What is left of a `stop` that has found the connections `found`. -/
def Gathered (found : List Nat) (s : RtspServer) : Prop :=
  ∀ k ∈ found, k ∉ s.closes ∧ ∀ c, s.pool.sessions[k]? = some c → ∀ x ∈ c.closers, x = .ended

/-- `close()` of connection `k` is yet to start, or has been called. -/
def Called (s : RtspServer) (k : Nat) : Prop :=
  k < s.pool.sessions.length ∧
    (k ∈ s.closes ∨ ∃ c, s.pool.sessions[k]? = some c ∧ c.closers ≠ [])

theorem called_move {k n : Nat} {j : LiveInput} {pool : Pool LiveConn} {es : List Effect}
    {closes : List Nat} (hc : s.Called n)
    (hm : s.pool.move (LiveConn.step srv) LiveConn.gone k j = some (pool, es))
    (hcl : n ∈ s.closes → n ∈ closes ∨ (n = k ∧ j = .stop)) :
    Called { s with pool := pool, closes := closes } n := by
  obtain ⟨c, c', hk, hstep, rfl⟩ := Pool.move_eq_some.mp hm
  obtain ⟨hlt, hc⟩ := hc
  refine ⟨by simpa using hlt, ?_⟩
  by_cases hkn : k = n
  · subst hkn
    rcases hc with hn | ⟨d, hd, hne⟩
    · rcases hcl hn with hn | ⟨-, hj⟩
      · exact .inl hn
      · exact .inr ⟨c', List.getElem?_set_self hlt, LiveConn.closers_ne_nil (.inr hj) hstep⟩
    · rw [hk, Option.some.injEq] at hd
      subst hd
      exact .inr ⟨c', List.getElem?_set_self hlt, LiveConn.closers_ne_nil (.inl hne) hstep⟩
  · rcases hc with hn | hc
    · exact .inl ((hcl hn).resolve_right fun he => hkn he.1.symm)
    · exact .inr (by simpa only [List.getElem?_set_ne hkn] using hc)

theorem called_step {n : Nat} (hc : s.Called n) (hs : s.step srv most i = some (s', o)) :
    s'.Called n := by
  cases step_inv hs with
  | accept | refuses => exact hc
  | admits _ ha =>
    obtain ⟨-, rfl⟩ := Pool.enter_eq_some.mp ha
    obtain ⟨hlt, hc⟩ := hc
    refine ⟨by simp; omega, hc.imp_right ?_⟩
    rintro ⟨c, hk, hne⟩
    exact ⟨c, by rw [List.getElem?_append_left hlt, hk], hne⟩
  | conn _ hm => exact called_move hc hm .inl
  | stop => exact ⟨hc.1, hc.2.imp_left (List.mem_append_left _)⟩
  | @close k pool es hk hm =>
    refine called_move hc hm fun hn => ?_
    by_cases hkn : n = k
    · exact .inr ⟨hkn, rfl⟩
    · exact .inl ((List.mem_erase_of_ne hkn).mpr hn)

/-- After `stop` only sockets that were there before are served. -/
theorem stopped_step {most' : Nat} (hl : s.listening = false)
    (hb : s.pool.sessions.length + s.accepted ≤ most') (hs : s.step srv most i = some (s', o)) :
    s'.listening = false ∧ s'.pool.sessions.length + s'.accepted ≤ most' := by
  cases step_inv hs with
  | accept hacc =>
    rw [hl] at hacc
    cases hacc
  | refuses => exact ⟨hl, by simp only; omega⟩
  | admits hn ha =>
    obtain ⟨-, rfl⟩ := Pool.enter_eq_some.mp ha
    refine ⟨hl, ?_⟩
    simp only [List.length_append, List.length_singleton]
    omega
  | conn _ hm | close _ hm =>
    obtain ⟨c, c', -, -, rfl⟩ := Pool.move_eq_some.mp hm
    exact ⟨hl, by simpa using hb⟩
  | stop => exact ⟨rfl, hb⟩

/-- The shutdown law. After `stop` no socket is accepted, and the connections made since then are of
sockets that were there before. Once its `gather` is done, every connection that `stop` found has
closed its writer, but for those that had a pump fail. -/
theorem stop_closes (srv : Server) (most : Int) (is₁ is₂ : List ServerInput)
    (s₁ s₂ : RtspServer) (h₁ h₂ : List ServerOutput)
    (hr₁ : run (step srv most) {} is₁ = some (s₁, h₁))
    (hr₂ : run (step srv most) s₁ (.stop :: is₂) = some (s₂, h₂)) :
    s₂.listening = false ∧
    s₂.pool.sessions.length ≤ s₁.pool.sessions.length + s₁.accepted ∧
    (Gathered s₁.pool.live s₂ → ∀ k ∈ s₁.pool.live, ∃ c, s₂.pool.sessions[k]? = some c ∧
      (.closeWriter ∈ ofConn k (h₁ ++ h₂) ∨ c.Failed)) := by
  have hsound : s₁.pool.Sound LiveConn.gone most :=
    run_invariant' (fun s _ => s.pool.Sound LiveConn.gone most) (Pool.sound_empty ..)
      (fun _ _ _ _ _ hp hs => sound_step hp hs) hr₁
  have hrun : run (step srv most) {} (is₁ ++ .stop :: is₂) = some (s₂, h₁ ++ h₂) :=
    (run_append_iff ..).mpr ⟨s₁, h₁, h₂, hr₁, hr₂, rfl⟩
  have hshut : s₂.pool.Keeps LiveConn.Shut fun k => ofConn k (h₁ ++ h₂) :=
    run_invariant' (fun s h => s.pool.Keeps LiveConn.Shut fun k => ofConn k h)
      (Pool.keeps_empty _) (fun s h i s' o hk hs => keeps_step hk hs
        (fun _ _ _ hc => by cases hc) fun _ _ _ _ _ _ _ hh hcs => hh.step hcs) hrun
  obtain ⟨s, o, o', hs, hr, -⟩ := (run_cons_iff ..).mp hr₂
  cases hs
  have hafter : (s₂.listening = false ∧
      s₂.pool.sessions.length + s₂.accepted ≤ s₁.pool.sessions.length + s₁.accepted) ∧
      ∀ k ∈ s₁.pool.live, s₂.Called k := by
    refine run_invariant' (fun s _ => (s.listening = false ∧
      s.pool.sessions.length + s.accepted ≤ s₁.pool.sessions.length + s₁.accepted) ∧
      ∀ k ∈ s₁.pool.live, s.Called k) ?_ ?_ hr
    · exact ⟨⟨rfl, le_refl _⟩, fun k hk => ⟨hsound.lt hk, .inl (List.mem_append_right _ hk)⟩⟩
    · rintro s h i s' o ⟨⟨hl, hb⟩, hc⟩ hs
      exact ⟨stopped_step hl hb hs, fun k hk => called_step (hc k hk) hs⟩
  obtain ⟨⟨hl, hlen⟩, hcalled⟩ := hafter
  refine ⟨hl, by omega, fun hdone k hk => ?_⟩
  obtain ⟨hno, hended⟩ := hdone k hk
  obtain ⟨c, hc, hne⟩ := (hcalled k hk).2.resolve_left hno
  obtain ⟨x, hx⟩ := List.exists_mem_of_ne_nil _ hne
  have hxe := hended c hc x hx
  exact ⟨c, hc, hshut.inv k c hc x hx (by rw [hxe]; simp)⟩

/-- `stop` while an endpoint is being created for one connection and another is reading. -/
def served : List ServerInput :=
  [.accept, .accept, .accept, .client (some "c".toList) 1, .client none 2,
    .conn 0 (LiveConn.setup "RTP/AVP;client_port=5000")]

def shutdown : List ServerInput :=
  [.close 0, .conn 0 (.loop (.opened 50000)), .conn 0 (.closer 0 .closed), .client none 3, .close 1,
    .conn 1 (.loop .gone), .conn 1 (.closer 0 .closed)]

theorem shutdown_run : ((run (step camera 2) {} served).bind fun r =>
    (run (step camera 2) r.1 (.stop :: shutdown)).map fun q =>
      (r.1.pool.live, q.1.closes, q.1.pool.sessions.map fun c => c.closers)) =
      some ([0, 1], [], [[.ended], [.ended]]) := by
  decide +kernel

theorem stop_closes_served : ∃ s₁ h₁ s₂ h₂, run (step camera 2) {} served = some (s₁, h₁) ∧
    run (step camera 2) s₁ (.stop :: shutdown) = some (s₂, h₂) ∧ s₂.listening = false ∧
    ∀ k ∈ [0, 1], ∃ c, s₂.pool.sessions[k]? = some c ∧
      (.closeWriter ∈ ofConn k (h₁ ++ h₂) ∨ c.Failed) := by
  obtain ⟨⟨s₁, h₁⟩, hr₁, hrest⟩ := Option.bind_eq_some_iff.mp shutdown_run
  obtain ⟨⟨s₂, h₂⟩, hr₂, he⟩ := Option.map_eq_some_iff.mp hrest
  simp only [Prod.mk.injEq] at he
  obtain ⟨hlive, hcloses, hclosers⟩ := he
  have hdone : Gathered s₁.pool.live s₂ := by
    intro k _
    refine ⟨by simp [hcloses], fun c hc x hx => ?_⟩
    have hmem : c.closers ∈ [[Closer.ended], [.ended]] := by
      rw [← hclosers]
      exact List.mem_map_of_mem (List.mem_of_getElem? hc)
    simp only [List.mem_cons, List.not_mem_nil, or_false, or_self] at hmem
    simpa [hmem] using hx
  obtain ⟨hl, -, hall⟩ := stop_closes camera 2 served shutdown s₁ s₂ h₁ h₂ hr₁ hr₂
  exact ⟨s₁, h₁, s₂, h₂, hr₁, hr₂, hl, hlive ▸ hall hdone⟩

end RtspServer
end DvrBridge
