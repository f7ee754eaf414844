import DvrBridge.RtspEndpoints
import DvrBridge.RtspLockView
import DvrBridge.RtspPump

/-! A connection that nobody stops is the connection of `Conn`: the same steps, one by one. -/
namespace DvrBridge
open Machine PyText

namespace Conn
section steps
variable {srv : Server} {c c' : Conn} {o : List Effect}

/-- A running pump has a subscriber to read from. -/
def Fed (c : Conn) : Prop := ∀ p, c.playTask = some p → p.pc ≠ .done → c.sub ≠ none

theorem Fed.loopStep {i : LoopInput} (hf : c.Fed) (h : LoopStep srv c i c' o) : c'.Fed := by
  intro p hp hd
  rcases h.keepsPump with ⟨s, -, -, -, hsub, -, -, -⟩ | hk
  · simp [hsub]
  · have hbusy : ¬ c.Idle := fun hi => hd (hk.idle hi p hp)
    simp only [Idle, not_forall] at hbusy
    obtain ⟨q, hq, hqd⟩ := hbusy
    rw [(hk.running q hq hqd).2.1]
    exact hf q hq hqd

theorem Fed.exited {p : Pump} (h : Exited c p c' o) : c'.Fed := by
  intro q hq hd
  cases h with
  | unsubscribes | bare =>
    cases hq
    exact absurd rfl hd

theorem Fed.pumpStep {p : Pump} {i : PumpInput} (hf : c.Fed) (hp : c.playTask = some p)
    (hr : p.pc ≠ .done) (h : PumpStep c p i c' o) : c'.Fed := by
  cases h with
  | cancelledGetting _ _ hex | cancelledWaiting _ _ hex | cancelledDraining _ _ hex
  | lost _ _ hex | crashes _ _ _ hex | crashTurn _ _ _ hex => exact Fed.exited hex
  | _ => exact fun _ _ _ => hf p hp hr

theorem PumpStep.playTask {p : Pump} {i : PumpInput} (h : PumpStep c p i c' o)
    (hp : c.playTask = some p) : ∃ p', c'.playTask = some p' := by
  cases h with
  | cancelledGetting _ _ hex | cancelledWaiting _ _ hex | cancelledDraining _ _ hex
  | lost _ _ hex | crashes _ _ _ hex | crashTurn _ _ _ hex => cases hex <;> exact ⟨_, rfl⟩
  | sends | drops => exact ⟨p, hp⟩
  | _ => exact ⟨_, rfl⟩

end steps
end Conn

namespace LiveConn

/-- Of the pumps only the one in `play_task` may still run or stand at the lock. -/
structure Unstopped (s : LiveConn) : Prop where
  known : ∀ n, s.playTask = some n → n < s.tasks.length
  others : ∀ n t, s.tasks[n]? = some t → t.failed = false ∧ (s.playTask ≠ some n → t.pump.pc = .done)
  users : ∀ n, s.lock.Has (.pump n) → s.playTask = some n
  awaited : ∀ why, s.conn.pc = .joining why → s.awaited = s.playTask
  closers : s.closers = []
  agrees : s.atLoop.LockAgrees
  fed : s.atLoop.Fed

theorem unstopped_fresh (peer : Option Str) (ssrc : Nat) : (fresh peer ssrc).Unstopped where
  known := by simp [fresh]
  others := by simp [fresh]
  users := by simp [fresh, FifoLock.Has]
  awaited := by simp [fresh, Conn.fresh]
  closers := rfl
  agrees := Conn.lockAgrees_fresh peer ssrc
  fed := by simp [Conn.Fed, fresh, atLoop, seenBy]

section steps
variable {srv : Server} {s : LiveConn} {c : Conn} {o : List Effect}

theorem putTask_task (hk : ∀ n, s.playTask = some n → n < s.tasks.length) (p : Option Pump) :
    (s.putTask p).playTask.bind (s.putTask p).pumpOf = p := by
  cases p with
  | none => rfl
  | some p =>
    cases hm : s.playTask with
    | none => simp [putTask, hm, pumpOf]
    | some n => simp [putTask, hm, pumpOf, setPump, hk n hm]

theorem atLoop_eq (hc : s.conn = c) (hl : s.lock.seenBy .loop = c.lock)
    (ht : s.playTask.bind s.pumpOf = c.playTask) : s.atLoop = c := by
  unfold atLoop seenBy
  rw [hc, hl, ht]

theorem atLoop_afterLoop {i : LoopInput} (h : s.Unstopped)
    (hs : Conn.LoopStep srv s.atLoop i c o) : (s.afterLoop (c, o)).1.atLoop = c := by
  refine atLoop_eq (putTask_conn ..) ?_ (putTask_task (s := s.leftBy .loop c) h.known c.playTask)
  change (putTask _ _).lock.seenBy .loop = c.lock
  rw [putTask_lock]
  exact FifoLock.seenBy_adopt (hs.onlyMoves h.agrees)

/-- A pump at the lock is the `play_task`. -/
theorem playTask_of_has {n : Nat} (hl : c.LockAgrees) (hc : s.lock.seenBy .loop = c.lock)
    (hn : s.lock.Has (.pump n)) : c.playTask ≠ none := by
  intro hnone
  have hsee : FifoLock.seen .loop (.pump n) = Party.pump := rfl
  have huse : Conn.uses (Conn.loopUse c.pc) (Conn.pumpUse c.playTask) .pump = .out := by
    rw [hnone]
    rfl
  rcases hn with hh | hw
  · have hheld : c.lock.holder = some .pump := by
      rw [← hc, FifoLock.seenBy_holder, hh, Option.map_some, hsee]
    cases huse.symm.trans ((hl.holds .pump).mp hheld)
  · have hwaits : Party.pump ∈ c.lock.waiters := by
      rw [← hc, FifoLock.seenBy_waiters, ← hsee]
      exact List.mem_map_of_mem hw
    cases huse.symm.trans ((hl.waits .pump).mp hwaits)

theorem atLoop_playTask {n : Nat} {t : PumpTask} (hn : s.playTask = some n)
    (ht : s.tasks[n]? = some t) : s.atLoop.playTask = some t.pump := by
  simp [atLoop, seenBy, hn, pumpOf, ht]

theorem putTask_same {n : Nat} (hn : s.playTask = some n) (p : Pump) :
    (s.putTask (some p)).playTask = some n := by
  simp [putTask, hn, setPump]

theorem putTask_known {p : Option Pump} (hk : ∀ n, s.playTask = some n → n < s.tasks.length) :
    ∀ n, (s.putTask p).playTask = some n → n < (s.putTask p).tasks.length := by
  intro n hn
  cases p with
  | none => cases hn
  | some p =>
    cases hm : s.playTask with
    | none =>
      simp only [putTask, hm, Option.some.injEq] at hn ⊢
      simp [← hn]
    | some m =>
      simp only [putTask, hm, setPump, List.length_modify] at hn ⊢
      exact hk n (hm.trans hn)

/-- A dropped `play_task` is over; any other pump but the `play_task` was so before. -/
theorem putTask_others {p : Option Pump}
    (ho : ∀ n t, s.tasks[n]? = some t → t.failed = false ∧ (s.playTask ≠ some n → t.pump.pc = .done))
    (hd : p = none → ∀ n t, s.playTask = some n → s.tasks[n]? = some t → t.pump.pc = .done) :
    ∀ n t, (s.putTask p).tasks[n]? = some t →
      t.failed = false ∧ ((s.putTask p).playTask ≠ some n → t.pump.pc = .done) := by
  intro n t ht
  cases p with
  | none =>
    refine ⟨(ho n t ht).1, fun _ => ?_⟩
    by_cases hn : s.playTask = some n
    · exact hd rfl n t hn ht
    · exact (ho n t ht).2 hn
  | some p =>
    cases hm : s.playTask with
    | none =>
      simp only [putTask, hm] at ht ⊢
      by_cases hlast : n = s.tasks.length
      · subst hlast
        rw [List.getElem?_concat_length, Option.some.injEq] at ht
        subst ht
        exact ⟨rfl, fun hne => absurd rfl hne⟩
      · have hlen : n < s.tasks.length := by
          have := (List.getElem?_eq_some_iff.mp ht).1
          rw [List.length_append, List.length_singleton] at this
          omega
        rw [List.getElem?_append_left hlen] at ht
        exact ⟨(ho n t ht).1, fun _ => (ho n t ht).2 (by simp [hm])⟩
    | some m =>
      simp only [putTask, hm, setPump] at ht ⊢
      rw [List.getElem?_modify] at ht
      obtain ⟨t', ht', rfl⟩ := Option.map_eq_some_iff.mp ht
      have hold := ho n t' ht'
      rw [hm] at hold
      by_cases hmn : m = n
      · rw [if_pos hmn]
        exact ⟨hold.1, fun hne => absurd (congrArg some hmn) hne⟩
      · rw [if_neg hmn]
        exact hold

theorem Unstopped.afterLoop {i : LoopInput} (h : s.Unstopped)
    (hs : Conn.LoopStep srv s.atLoop i c o) : (s.afterLoop (c, o)).1.Unstopped := by
  have hat := atLoop_afterLoop h hs
  have hagrees := h.agrees.loopStep hs
  have hkept (n : Nat) (hn : (s.afterLoop (c, o)).1.lock.Has (.pump n)) :
      s.playTask = some n := by
    have hlock : (s.afterLoop (c, o)).1.lock = s.lock.adopt .loop c.lock := putTask_lock ..
    rw [hlock] at hn
    exact h.users n ((FifoLock.has_adopt hn).resolve_left (by simp))
  refine ⟨putTask_known h.known, putTask_others h.others ?_, ?_, fun _ _ => rfl, ?_, ?_, ?_⟩
  · intro hnone n t hn ht
    by_contra hd
    have hrun : s.atLoop.playTask = some t.pump := atLoop_playTask hn ht
    rcases hs.keepsPump with ⟨_, _, _, hp, _⟩ | hk
    · rw [hnone] at hp
      cases hp
    · obtain ⟨⟨p, hp, -⟩, -⟩ := hk.running t.pump hrun hd
      rw [hnone] at hp
      cases hp
  · intro n hn
    have hp := hkept n hn
    have hc : c.playTask ≠ none :=
      playTask_of_has hagrees (congrArg Conn.lock hat) hn
    obtain ⟨p, hsome⟩ := Option.ne_none_iff_exists'.mp hc
    change (putTask _ c.playTask).playTask = some n
    rw [hsome]
    exact putTask_same (s := s.leftBy .loop c) hp p
  · exact (putTask_closers ..).trans h.closers
  · rw [hat]
    exact hagrees
  · rw [hat]
    exact h.fed.loopStep hs

/-- The request loop steps as that of `Conn`. -/
theorem Unstopped.loopStep_eq (h : s.Unstopped) (i : LoopInput) :
    s.loopStep srv i = (s.atLoop.loopStep srv i).map s.afterLoop := by
  unfold LiveConn.loopStep
  split
  · rename_i why hp
    have hpc : s.atLoop.pc = .joining why := hp
    unfold loopJoined Conn.loopStep
    rw [h.awaited why hp, hpc]
    cases hn : s.playTask with
    | none => simp [atLoop, seenBy, hn]
    | some n =>
      have hlen := h.known n hn
      have ht : s.tasks[n]? = some s.tasks[n] := List.getElem?_eq_getElem hlen
      simp only [Option.bind_some, ht, (h.others n _ ht).1, atLoop_playTask hn ht,
        Bool.false_eq_true, if_false]
      split <;> rfl
  · rfl

theorem pumpStep_done {n : Nat} {t : PumpTask} (i : PumpInput) (ht : s.tasks[n]? = some t)
    (hd : t.pump.pc = .done) : s.pumpStep n i = none := by
  have hnone : (s.seenBy (.pump n) (some t.pump)).pumpStep t.pump i = none := by
    simp [Conn.pumpStep, hd]
  simp [LiveConn.pumpStep, ht, hd, hnone]

/-- So does its one running pump. -/
theorem Unstopped.pumpStep_eq {n : Nat} {t : PumpTask} (h : s.Unstopped) (i : PumpInput)
    (hn : s.playTask = some n) (ht : s.tasks[n]? = some t) (hd : t.pump.pc ≠ .done) :
    s.pumpStep n i = (s.atLoop.pumpStep t.pump i).map (s.afterPump n t.pump) := by
  have hview : s.seenBy (.pump n) (some t.pump) = s.atLoop := by
    have hlock := FifoLock.seenBy_pump fun m hm =>
      Option.some.inj ((h.users m hm).symm.trans hn)
    rw [← atLoop_playTask hn ht]
    unfold atLoop seenBy
    rw [hlock]
  have hsub : s.conn.sub ≠ none := h.fed t.pump (atLoop_playTask hn ht) hd
  simp only [LiveConn.pumpStep, ht, Option.bind_some, (h.others n t ht).1, hview]
  split
  · contradiction
  · split
    · exact absurd ‹_› hsub
    · rfl

theorem Conn.nextFrame_fed {p : Pump} (hf : c.Fed) (hp : c.playTask = some p) :
    c.nextFrame p = (c, []) := by
  unfold Conn.nextFrame
  refine if_neg ?_
  rintro ⟨hpc, hsub⟩
  exact hf p hp (by simp [hpc]) hsub

theorem Unstopped.afterPump {n : Nat} {t : PumpTask} {i : PumpInput} (h : s.Unstopped)
    (hn : s.playTask = some n) (ht : s.tasks[n]? = some t) (hd : t.pump.pc ≠ .done)
    (hs : Conn.PumpStep s.atLoop t.pump i c o) :
    ∃ s', s.afterPump n t.pump (c, o) = (s', o) ∧ s'.atLoop = c ∧ s'.Unstopped := by
  have hp := atLoop_playTask hn ht
  obtain ⟨p, hcp⟩ := hs.playTask hp
  have hagrees := h.agrees.pumpStep hp hs
  have hfed := h.fed.pumpStep hp hd hs
  have honly (m : Nat) (hm : (s.lock.adopt (.pump n) c.lock).Has (.pump m)) : m = n := by
    rcases FifoLock.has_adopt hm with he | hm
    · exact Writer.pump.inj he
    · exact Option.some.inj ((h.users m hm).symm.trans hn)
  have hview : s.lock.seenBy (.pump n) = s.atLoop.lock :=
    FifoLock.seenBy_pump fun m hm => Option.some.inj ((h.users m hm).symm.trans hn)
  have hlock : (s.lock.adopt (.pump n) c.lock).seenBy .loop = c.lock := by
    rw [← FifoLock.seenBy_pump honly]
    refine FifoLock.seenBy_adopt ?_
    rw [hview]
    exact hs.onlyMoves h.agrees hp
  have hat : ((s.leftBy (.pump n) c).setPump n p).atLoop = c := by
    refine atLoop_eq rfl hlock ?_
    simp [setPump, leftBy, pumpOf, hn, ht, hcp]
  refine ⟨(s.leftBy (.pump n) c).setPump n p, ?_, hat, ?_⟩
  · simp [LiveConn.afterPump, hcp, Conn.nextFrame_fed hfed hcp]
  · have hput : (s.leftBy (.pump n) c).setPump n p = (s.leftBy (.pump n) c).putTask (some p) := by
      simp [putTask, leftBy, hn]
    refine ⟨hput ▸ putTask_known h.known, hput ▸ putTask_others h.others (by simp), ?_, ?_,
      h.closers, ?_, ?_⟩
    · exact fun m hm => (honly m hm) ▸ hn
    · exact fun why hw => h.awaited why (hs.pc.symm.trans hw)
    · rw [hat]
      exact hagrees
    · rw [hat]
      exact hfed

/-- Only the `play_task` steps. -/
theorem Unstopped.running {n : Nat} {i : PumpInput} {r : LiveConn × List Effect}
    (h : s.Unstopped) (hs : s.pumpStep n i = some r) :
    ∃ t, s.tasks[n]? = some t ∧ s.playTask = some n ∧ t.pump.pc ≠ .done := by
  obtain ⟨t, ht, -⟩ := Option.bind_eq_some_iff.mp hs
  have hd : t.pump.pc ≠ .done := by
    intro hd
    rw [pumpStep_done i ht hd] at hs
    cases hs
  refine ⟨t, ht, ?_, hd⟩
  by_contra hn
  exact hd ((h.others n t ht).2 hn)

theorem Unstopped.forth {i : LiveInput} {s' : LiveConn} (h : s.Unstopped) (hi : i ≠ .stop)
    (hs : s.step srv i = some (s', o)) :
    s'.Unstopped ∧ ∃ j, s.atLoop.step srv j = some (s'.atLoop, o) := by
  cases i with
  | loop i =>
    have hs : s.loopStep srv i = some (s', o) := hs
    rw [h.loopStep_eq] at hs
    obtain ⟨⟨c, e⟩, hc, he⟩ := Option.map_eq_some_iff.mp hs
    obtain ⟨rfl, rfl⟩ := Prod.mk.inj he
    have hstep := Conn.loopStep_inv hc
    have hat := atLoop_afterLoop h hstep
    exact ⟨h.afterLoop hstep, .loop i, hc.trans (congrArg (fun d => some (d, e)) hat.symm)⟩
  | pump n i =>
    have hs : s.pumpStep n i = some (s', o) := hs
    obtain ⟨t, ht, hn, hd⟩ := h.running hs
    rw [h.pumpStep_eq i hn ht hd] at hs
    obtain ⟨⟨c, e⟩, hc, he⟩ := Option.map_eq_some_iff.mp hs
    obtain ⟨s₁, hs₁, hat, hun⟩ := h.afterPump hn ht hd (Conn.pumpStep_inv hc).2
    rw [hs₁] at he
    obtain ⟨rfl, rfl⟩ := Prod.mk.inj he
    refine ⟨hun, .pump i, ?_⟩
    rw [hat, Conn.step, atLoop_playTask hn ht]
    exact hc
  | stop => exact absurd rfl hi
  | closer k i => simp [LiveConn.step, closerStep, h.closers] at hs

theorem Unstopped.back {j : ConnInput} {d : Conn} (h : s.Unstopped)
    (hs : s.atLoop.step srv j = some (d, o)) :
    ∃ i s', i ≠ .stop ∧ s.step srv i = some (s', o) ∧ s'.atLoop = d ∧ s'.Unstopped := by
  cases j with
  | loop i =>
    have hc : s.atLoop.loopStep srv i = some (d, o) := hs
    have hstep := Conn.loopStep_inv hc
    refine ⟨.loop i, (s.afterLoop (d, o)).1, by simp, ?_, atLoop_afterLoop h hstep,
      h.afterLoop hstep⟩
    change s.loopStep srv i = _
    rw [h.loopStep_eq, hc]
    rfl
  | pump i =>
    obtain ⟨p, hp, hc⟩ := Option.bind_eq_some_iff.mp hs
    obtain ⟨n, hn, hpump⟩ := Option.bind_eq_some_iff.mp hp
    obtain ⟨t, ht, rfl⟩ := Option.map_eq_some_iff.mp hpump
    obtain ⟨hd, hstep⟩ := Conn.pumpStep_inv hc
    obtain ⟨s₁, hs₁, hat, hun⟩ := h.afterPump hn ht hd hstep
    refine ⟨.pump n i, s₁, by simp, ?_, hat, hun⟩
    change s.pumpStep n i = _
    rw [h.pumpStep_eq i hn ht hd, hc, Option.map_some, hs₁]

/-- A pump that starts finds its subscriber. -/
theorem Unstopped.provided {i : LiveInput} {r : LiveConn × List Effect} (h : s.Unstopped)
    (hs : s.step srv i = some r)
    (hpeer : ∀ port, i = .loop (.opened port) → s.conn.peer ≠ none) : s.Provided i := by
  cases i with
  | loop i =>
    cases i with
    | opened port => exact hpeer port rfl
    | _ => trivial
  | pump n i =>
    cases i with
    | start =>
      obtain ⟨t, ht, hn, hd⟩ := h.running (i := .start) hs
      exact .inr (h.fed t.pump (atLoop_playTask hn ht) hd)
    | _ => trivial
  | stop | closer k i => trivial

end steps

/-- As long as `RTSPServer.stop` calls no `close()`, the runs of the connection with all its tasks
are exactly the runs of `Conn`, with the same effects. -/
theorem unstopped_iff (srv : Server) (peer : Option Str) (ssrc : Nat) (c : Conn)
    (os : List Effect) :
    (∃ is s, (∀ i ∈ is, i ≠ .stop) ∧ run (step srv) (fresh peer ssrc) is = some (s, os) ∧
      s.atLoop = c) ↔
      ∃ js, run (Conn.step srv) (Conn.fresh peer ssrc) js = some (c, os) :=
  run_abstraction Unstopped atLoop (fun i : LiveInput => i ≠ .stop)
    (fun _ _ _ _ h hi hs => h.forth hi hs) (fun _ _ _ _ h hs => h.back hs)
    (unstopped_fresh peer ssrc)

/-- Without a `close()` from `RTSPServer.stop` it is enough that the peer has an address. -/
theorem unstopped_owns_one (srv : Server) (peer : Option Str) (ssrc : Nat) (is : List LiveInput)
    (hstop : ∀ i ∈ is, i ≠ .stop)
    (hpeer : EveryStep (step srv) (fun s _ i _ _ => ∀ port, i = .loop (.opened port) →
      s.conn.peer ≠ none) (fresh peer ssrc) is) :
    EveryStep (step srv) (fun _ h _ s o => s.OwnsOne (h ++ o)) (fresh peer ssrc) is := by
  have hstep {s s' : LiveConn} {h o : List Effect} {i : LiveInput}
      (hinv : s.Unstopped ∧ s.Held h) (hs : s.step srv i = some (s', o))
      (hi : i ≠ .stop ∧ ∀ port, i = .loop (.opened port) → s.conn.peer ≠ none) :
      s'.Unstopped ∧ s'.Held (h ++ o) :=
    ⟨(hinv.1.forth hi.1 hs).1, hinv.2.step hs (hinv.1.provided hs hi.2)⟩
  exact everyStep_of_invariant (fun s h => s.Unstopped ∧ s.Held h)
    ⟨unstopped_fresh peer ssrc, held_fresh peer ssrc⟩ (fun _ _ _ _ _ h hs hi => hstep h hs hi)
    (fun _ _ _ _ _ h hs hi => (hstep h hs hi).2.ownsOne)
    ((everyStep_of_forall_mem hstop).and hpeer)

end LiveConn
end DvrBridge
