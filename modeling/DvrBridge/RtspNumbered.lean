import DvrBridge.RtspLock
import DvrBridge.RtspWindows

/-! The sequence numbers between the request loop and the pump: what is announced, made, waiting and
written, and what a step of the request loop does to it. -/
namespace DvrBridge.Conn
open PyText Mark FifoLock

/-- Where the numbers stand when `n` is the next one that TCP is to carry. -/
def Feeds (c : Conn) (n : Nat) : PumpPc → Prop
  | .created | .getting => c.packetizer.seq = n
  | .locking _ packets =>
    Follows nextSeq (some n) (frameMarks packets) (some c.packetizer.seq) ∧ c.interleaved ≠ none
  | .draining => c.packetizer.seq = n ∧ c.interleaved ≠ none
  -- only once the TCP connection is lost
  | .crashLocking | .done => False

/-- A pump goes on with the numbers of its window; without one no window is open, or the one that
`idle` tells of. -/
def Flows (c : Conn) (idle next : Option Nat) : Prop :=
  match c.playTask with
  | none => next = idle
  | some p => p.cancelRequested = false ∧ ∃ n, next = some n ∧ c.Feeds n p.pc

/-- A pump that is there has been asked to stop, or is over. -/
def Halted (c : Conn) : Prop := ∀ p, c.playTask = some p → p.cancelRequested = true ∨ p.pc = .done

/-- An answer and what follows it belong to the last request. -/
def Tagged (last : Option Method) (r : Response) : After → Prop
  | .play => r.code = 200 ∧ last = some .play
  | .teardown => r.code = 200 ∧ last = some .teardown
  | .next | .close => answerMark last r = []

/-- What a waiting answer to PLAY has announced: the packets that wait before it come first. -/
def promised (c : Conn) (next : Option Nat) : Option Nat :=
  if c.lock.waiters.head? = some .loop then next else some c.packetizer.seq

/-- The open window where the request loop is. -/
def Counts (c : Conn) (last : Option Method) (next : Option Nat) : LoopPc → Prop
  | .reading | .draining _ .next | .draining _ .close => c.Flows none next
  | .waitReady _ _ _ => last = some .describe ∧ c.Flows none next
  | .opening _ _ => last = some .setup ∧ c.Flows none next
  | .locking _ r k => Tagged last r k ∧ c.playTask ≠ none ∧ c.interleaved ≠ none ∧
      c.Flows none next ∧ (k = .play → announced r = c.promised next)
  | .draining _ .play => c.Flows (some c.packetizer.seq) next
  -- the window is closed while the pump still runs, but the request loop holds the lock
  | .draining _ .teardown => next = none
  | .joining .teardown => next = none ∧ c.Halted
  | .joining .close | .closing | .ended => c.Halted

structure Numbered (c : Conn) (last : Option Method) (next : Option Nat) : Prop where
  lock : c.LockAgrees
  seq : c.packetizer.seq < 2 ^ 16
  counts : c.Counts last next c.pc

/-- A step writes its marks in order. -/
def Goes (last : Option Method) (next : Option Nat) (c' : Conn) (o : List Effect) : Prop :=
  ∃ next', Follows nextSeq next (marks last o) next' ∧ c'.Counts (asked last o) next' c'.pc

section
variable {srv : Server} {c c' : Conn} {last : Option Method} {next : Option Nat} {o : List Effect}

theorem marks_released (last : Option Method) (c : Conn) (o : List Effect) :
    marks last (c.released ++ o) = marks last o ∧ asked last (c.released ++ o) = asked last o := by
  unfold released releaseTransport
  split <;> exact ⟨rfl, rfl⟩

theorem Goes.released (h : Goes last next c' o) (c : Conn) :
    Goes last next c' (c.released ++ o) := by
  unfold Goes
  rw [(marks_released last c o).1, (marks_released last c o).2]
  exact h

theorem answerMark_of_code {r : Response} (h : r.code ≠ 200) : answerMark last r = [] :=
  if_neg h

/-- A live pump that uses the lock serves an interleaved channel. -/
theorem Flows.interleaved {p : Pump} (h : c.Flows none next) (hp : c.playTask = some p)
    (hu : pumpUse (some p) ≠ .out) : c.interleaved ≠ none := by
  unfold Flows at h
  rw [hp] at h
  obtain ⟨-, n, -, hf⟩ := h
  obtain ⟨pc, b⟩ := p
  cases pc with
  | locking ch packets => exact hf.2
  | draining => exact hf.2
  | crashLocking => exact absurd hf id
  | created | getting | done => exact absurd rfl hu

/-- Nothing waits for the lock before a pump that is elsewhere. -/
theorem Flows.next_of_not_waits {p : Pump} (h : c.Flows none next) (hp : c.playTask = some p)
    (hu : pumpUse (some p) ≠ .waits) : next = some c.packetizer.seq := by
  unfold Flows at h
  rw [hp] at h
  obtain ⟨-, n, rfl, hf⟩ := h
  obtain ⟨pc, b⟩ := p
  cases pc with
  | locking ch packets | crashLocking => exact absurd rfl hu
  | draining => exact congrArg some hf.1.symm
  | created | getting => exact congrArg some (Eq.symm hf)
  | done => exact absurd hf id

theorem LoopOut.pumpUses {p : Pump} (h : c.LoopOut) (hp : c.playTask = some p)
    (hf : c.lock.free = false) : pumpUse (some p) ≠ .out := by
  intro hu
  have : c.lock.free = true := by
    refine h.free_of_out fun x => ?_
    cases x with
    | loop => rfl
    | pump => rw [hp]; exact hu
  simp [this] at hf

/-- An answer that queues up comes after all packets made so far. -/
theorem LoopOut.promised {p : Pump} (hl : c.LoopOut) (h : c.Flows none next)
    (hp : c.playTask = some p) : (c.queueUp .loop).promised next = some c.packetizer.seq := by
  have hloop : Party.loop ∉ c.lock.waiters := fun hm => by simpa [uses] using (hl.waits _).mp hm
  have hpump : Party.pump ∈ c.lock.waiters ↔ pumpUse (some p) = .waits := by
    rw [← hp]
    exact hl.waits .pump
  unfold Conn.promised
  cases hw : c.lock.waiters with
  | nil =>
    have hu : pumpUse (some p) ≠ .waits := fun hu => by simpa [hw] using hpump.mpr hu
    rw [h.next_of_not_waits hp hu]
    exact ite_self _
  | cons x l =>
    rw [if_neg]
    · rfl
    · intro hx
      have hx' : x = .loop := by simpa [queueUp, FifoLock.queueUp, hw] using hx
      simp [hw, hx'] at hloop

/-- With a pump it is the pump's numbers that count. -/
theorem Flows.of_pump {p : Pump} {idle idle' : Option Nat} (h : c.Flows idle next)
    (hp : c.playTask = some p) : c.Flows idle' next := by
  unfold Flows at h ⊢
  rw [hp] at h ⊢
  exact h

theorem Flows.of_none {idle : Option Nat} (h : c.Flows idle next) (hp : c.playTask = none) :
    next = idle := by
  unfold Flows at h
  rwa [hp] at h

theorem Flows.of_none_eq (hp : c.playTask = none) : c.Flows next next := by
  unfold Flows
  rw [hp]

theorem Flows.next_of_pump {p : Pump} {idle : Option Nat} (h : c.Flows idle next)
    (hp : c.playTask = some p) : ∃ n, next = some n := by
  unfold Flows at h
  rw [hp] at h
  obtain ⟨-, n, hn, -⟩ := h
  exact ⟨n, hn⟩

/-- What an answer does to the windows when it is written. -/
theorem Flows.answered {r : Response} {k : After} (h : c.Flows none next) (ht : Tagged last r k)
    (ha : k = .play → announced r = some (next.getD c.packetizer.seq)) (handler : Option Str)
    (l : FifoLock Party) :
    Goes last next { c with lock := l, pc := .draining handler k } [.response r] := by
  unfold Goes
  rw [show marks last [.response r] = answerMark last r from List.append_nil _]
  cases k with
  | next | close =>
    rw [show answerMark last r = [] from ht]
    exact ⟨next, .nil, h⟩
  | teardown =>
    obtain ⟨hc, rfl⟩ := ht
    simp only [answerMark, hc, if_true]
    exact ⟨none, .closes .nil, rfl⟩
  | play =>
    obtain ⟨hc, rfl⟩ := ht
    simp only [answerMark, hc, if_true, ha rfl]
    by_cases hn : c.playTask = none
    · obtain rfl := h.of_none hn
      exact ⟨_, .opens .nil, .of_none_eq hn⟩
    · obtain ⟨p, hp⟩ := Option.ne_none_iff_exists'.mp hn
      obtain ⟨n, rfl⟩ := h.next_of_pump hp
      exact ⟨_, .again .nil, h.of_pump hp⟩

theorem Flows.sent {handler : Option Str} {r : Response} {k : After} (h : c.Flows none next)
    (hl : c.LoopOut) (ht : Tagged last r k)
    (ha : k = .play → announced r = some c.packetizer.seq) (hs : Sent c handler r k c' o) :
    Goes last next c' o := by
  cases hs with
  | written hf =>
    refine h.answered ht (fun hk => ?_) handler _
    rw [ha hk]
    cases hp : c.playTask with
    | none =>
      obtain rfl := h.of_none hp
      rfl
    | some p =>
      have hu : pumpUse (some p) ≠ .waits := by
        intro hu
        have hm := (hl.waits .pump).mpr (by rw [hp]; exact hu)
        simp only [free, Bool.and_eq_true, List.isEmpty_iff] at hf
        simp [hf.2] at hm
      rw [h.next_of_not_waits hp hu]
      rfl
  | queued hf =>
    cases hp : c.playTask with
    | none => simp [hl.free hp] at hf
    | some p =>
      have hi : c.interleaved ≠ none := h.interleaved hp (hl.pumpUses hp hf)
      have hpr := hl.promised h hp
      exact ⟨next, .nil, ht, by simp [queueUp, hp], hi, h, fun hk => (ha hk).trans hpr.symm⟩

theorem Stopped.goes {why : Leave} (hw : why = .teardown → next = none)
    (hs : Stopped c why c' o) : Goes last next c' o := by
  cases hs with
  | joins p =>
    have hh : Halted { c with playTask := some { p with cancelRequested := true },
                              pc := .joining why } := by
      rintro q ⟨⟩
      exact .inl rfl
    cases why with
    | teardown => exact ⟨next, .nil, hw rfl, hh⟩
    | close => exact ⟨next, .nil, hh⟩
  | tornDown =>
    refine Goes.released ?_ c
    rw [hw rfl]
    exact ⟨none, .nil, rfl⟩
  | closes =>
    refine Goes.released ⟨next, .nil, ?_⟩ c
    rintro q ⟨⟩

/-- An answer that opens and closes nothing. -/
theorem Flows.sentPlain {handler : Option Str} {r : Response} {k : After} (h : c.Flows none next)
    (hl : c.LoopOut) (hk : k = .next ∨ k = .close) (hr : answerMark last r = [])
    (hs : Sent c handler r k c' o) : Goes last next c' o := by
  rcases hk with rfl | rfl
  · exact h.sent (k := .next) hl hr (fun hk => After.noConfusion hk) hs
  · exact h.sent (k := .close) hl hr (fun hk => After.noConfusion hk) hs

theorem Stopped.leaves (hs : Stopped c .close c' o) : Goes last next c' o :=
  hs.goes fun hw => Leave.noConfusion hw

/-- Without a pump a SETUP finds no window open. -/
theorem SetupStep.flows {c₁ : Conn} {url cseq token : Str} {headers : Headers} {out : Outcome}
    (h : SetupStep srv c url headers cseq token c₁ out) (hn : c.playTask = none)
    (hf : c.Flows none next) : c₁.Flows none next := by
  unfold Flows at hf ⊢
  rw [show c₁.playTask = none by cases h <;> exact hn]
  simpa only [hn] using hf

theorem SetupStep.answers_next {c₁ : Conn} {url cseq token : Str} {headers : Headers}
    {r : Response} {k : After} (h : SetupStep srv c url headers cseq token c₁ (.answer r k)) :
    k = .next := by
  generalize ho : Outcome.answer r k = out at h
  cases h with
  | tcp => exact (Outcome.answer.inj ho).2
  | _ => cases ho

/-- An answer is for the handler that gives it, and PLAY announces the packetizer's number. -/
theorem handle_tagged {c₁ : Conn} {m : Method} {url cseq token : Str} {headers : Headers}
    {e : List Effect} {r : Response} {k : After} (hm : m ≠ .setup)
    (h : c.handle srv m url headers cseq token = (c₁, e, .answer r k)) :
    Tagged (some m) r k ∧ (k = .play → announced r = some c.packetizer.seq) := by
  cases m with
  | setup => exact absurd rfl hm
  | options | pause | getParameter | setParameter =>
    cases h
    exact ⟨rfl, nofun⟩
  | teardown =>
    cases h
    exact ⟨⟨rfl, rfl⟩, nofun⟩
  | describe =>
    simp only [handle, onDescribe] at h
    split at h <;> cases h
  | play =>
    obtain ⟨hc, rfl, ha⟩ := announced_onPlay (congrArg (·.2.2) h)
    exact ⟨⟨hc, rfl⟩, fun _ => ha⟩

theorem Flows.handlerStep {m : Method} {url cseq token : Str} {headers : Headers}
    (h : c.Flows none next) (hl : c.LoopOut)
    (hs : HandlerStep srv c url headers cseq token m c' o) : Goes (some m) next c' o := by
  cases hs with
  | answers hm hh hsent =>
    obtain ⟨ht, ha⟩ := handle_tagged hm hh
    exact h.sent hl ht ha hsent
  | @refuses _ e _ _ hh hsent =>
    have hc : e.code ≠ 200 := fun hc => by
      have := handle_raise_code hh
      simp [hc] at this
    exact h.sentPlain hl (.inl rfl) (answerMark_of_code hc) hsent
  | describeCrashes _ hstop => exact (hstop.leaves : Goes (some .describe) next c' _)
  | waits => exact ⟨next, .nil, rfl, h⟩
  | setupCrashes _ _ hstop =>
    have hg : Goes (some .setup) next c' (.crashed :: _) := hstop.leaves
    exact hg.released c
  | @setupRefuses _ _ e _ hn hset hsent =>
    have hc : e.code ≠ 200 := fun hc => by
      have := hset.code
      simp [hc] at this
    have hr : answerMark (some .setup) (.ofError e cseq) = [] := answerMark_of_code hc
    exact ((hset.flows hn h).sentPlain (hset.loopOut hl) (.inl rfl) hr hsent).released c
  | @setupAnswers _ _ r _ _ hn hset hsent =>
    obtain rfl := hset.answers_next
    have hr : answerMark (some .setup) r = [] := ite_self _
    exact ((hset.flows hn h).sentPlain (hset.loopOut hl) (.inl rfl) hr hsent).released c
  | @setupOpens c₁ port hn hset =>
    have hg : Goes (some .setup) next { c₁ with pc := .opening port cseq } [] :=
      ⟨next, .nil, rfl, hset.flows hn h⟩
    have := hg.released c
    rwa [List.append_nil] at this

theorem describeAnswer_next {url s cseq : Str} {sps pps : Option Bytes} {info : StreamInfo}
    {r : Response} {k : After} (h : describeAnswer url s cseq sps pps info = .answer r k) :
    k = .next := by
  unfold describeAnswer at h
  split at h <;> cases h
  rfl

theorem Numbered.counts_at {pc : LoopPc} (h : c.Numbered last next) (hp : c.pc = pc) :
    c.Counts last next pc :=
  hp ▸ h.counts

theorem Numbered.loopStep {i : LoopInput} (h : c.Numbered last next)
    (hf : (ConnInput.loop i).drainFails = false) (hs : LoopStep srv c i c' o) :
    Goes last next c' o := by
  have hread (hp : c.pc = .reading) : c.Flows none next ∧ c.LoopOut :=
    ⟨h.counts_at hp, h.lock.loopOut (by rw [hp]; rfl)⟩
  have hfail {r : Response} {handler : Option Str} {k : After} {c' : Conn} {o : List Effect}
      (hp : c.pc = .reading) (hk : k = .next ∨ k = .close) (hc : r.code ≠ 200)
      (hs : Sent c handler r k c' o) : Goes last next c' o :=
    (hread hp).1.sentPlain (hread hp).2 hk (answerMark_of_code hc) hs
  cases hs with
  | badLine hp _ hsent => exact hfail hp (.inl rfl) (by decide) hsent
  | unauthorized hp _ _ hsent =>
    exact hfail hp (.inl rfl) (show RtspError.unauthorized.code ≠ 200 by decide) hsent
  | unknown hp _ _ _ hsent =>
    exact hfail hp (.inl rfl) (show RtspError.notImplemented.code ≠ 200 by decide) hsent
  | malformed hp he hsent =>
    refine hfail hp (.inr rfl) ?_ hsent
    simp only [List.mem_cons, List.not_mem_nil, or_false] at he
    rcases he with rfl | rfl | rfl <;> decide
  | authCrashes _ _ _ hstop | readyCrashes _ hstop | openFails _ hstop =>
    exact (hstop.leaves : Goes last next c' _)
  | playCrashes _ _ _ hstop | openedCrashes _ _ hstop =>
    exact (hstop.leaves : Goes last next c' _)
  | gone _ hstop | quits _ _ hstop => exact hstop.leaves
  | handles hp _ _ _ hstep => exact (hread hp).1.handlerStep (hread hp).2 hstep
  | skipped => exact ⟨next, .nil, h.counts⟩
  | ready hp hd hsent =>
    obtain ⟨rfl, hfl⟩ := h.counts_at hp
    obtain rfl := describeAnswer_next hd
    exact hfl.sentPlain (h.lock.loopOut (by rw [hp]; rfl)) (.inl rfl) (ite_self _) hsent
  | notReady hp hsent =>
    obtain ⟨rfl, hfl⟩ := h.counts_at hp
    exact hfl.sentPlain (h.lock.loopOut (by rw [hp]; rfl)) (.inl rfl) (ite_self _) hsent
  | @opened port _ _ host _ _ _ _ hp _ ha hsent =>
    obtain ⟨rfl, hfl⟩ := h.counts_at hp
    obtain rfl := (Outcome.answer.inj ha).2
    have hl := h.lock.loopOut (by rw [hp]; rfl)
    have hfl' : Flows { c with opened := c.opened + 1, udp := some (c.opened, host, port) } none
        next := hfl
    exact (hfl'.sentPlain (hl.withEndpoint _ _) (.inl rfl) (ite_self _) hsent :
      Goes (some .setup) next c' _)
  | @acquired handler r k hp ht =>
    obtain ⟨htag, hne, -, hfl, ha⟩ := h.counts_at hp
    refine hfl.answered htag (fun hk => ?_) handler _
    simp only [atTurn, Bool.and_eq_true, decide_eq_true_eq] at ht
    rw [ha hk, promised, if_pos ht.2]
    obtain ⟨p, hpl⟩ := Option.ne_none_iff_exists'.mp hne
    obtain ⟨n, rfl⟩ := hfl.next_of_pump hpl
    rfl
  | drained hp => exact ⟨next, .nil, h.counts_at hp⟩
  | playsOn hp hpl => exact ⟨next, .nil, Flows.of_pump (h.counts_at hp) hpl⟩
  | subscribes hp hn =>
    have hfl : c.Flows (some c.packetizer.seq) next := h.counts_at hp
    obtain rfl := hfl.of_none hn
    exact ⟨_, .nil, rfl, _, rfl, rfl⟩
  | tearsDown hp hstop => exact hstop.goes fun _ => h.counts_at hp
  | timedOut => cases hf
  | joined hp _ _ hstop =>
    refine hstop.goes fun hw => ?_
    subst hw
    exact (h.counts_at hp).1
  | closed hp =>
    exact ⟨next, .nil, h.counts_at hp⟩

end
end DvrBridge.Conn
