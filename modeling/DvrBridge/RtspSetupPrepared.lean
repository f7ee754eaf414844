import DvrBridge.RtspLock
import DvrBridge.RtspSetup

/-! The transport of a session is the one that was announced last, as long as failed SETUPs change
nothing. -/
namespace DvrBridge.Conn
open PyText

/-- The session has the transport that was announced last. -/
def Announced (c : Conn) : Option Response → Prop
  | none => c.interleaved = none ∧ c.udp = none
  | some r => c.stream.isSome = true ∧ (c.interleaved = none → c.udp ≠ none) ∧
      (∀ ch hi, c.interleaved = some (ch, hi) → Announces r "interleaved" ch) ∧
      ∀ e host port, c.udp = some (e, host, port) →
        c.peer = some host ∧ Announces r "client_port" port

/-- Where the transport may be another one: in the middle of a SETUP, and at the end. -/
def settled : LoopPc → Bool
  | .opening _ _ | .closing | .ended => false
  | _ => true

/-- An answer that the request loop still owes. -/
def Log.Expects (l : Log) : LoopPc → Prop
  | .opening _ _ => l.handling = some .setup
  | .waitReady _ _ _ => l.handling ≠ some .setup
  | .locking _ r _ => l.handling = some .setup → r.code ≠ 200
  | _ => True

/-- Packets that wait for the lock are for the channel of the session. -/
def PumpPlaced (c : Conn) : Prop :=
  ∀ p ch packets, c.playTask = some p → p.pc = .locking ch packets →
    ∃ hi, c.interleaved = some (ch, hi)

structure Prepared (c : Conn) (l : Log) : Prop where
  announced : settled c.pc = true → c.Announced l.setup
  unsettled : settled c.pc = false → c.playTask = none
  opening : ∀ port cseq, c.pc = .opening port cseq → c.stream.isSome = true ∧ c.interleaved = none
  expects : l.Expects c.pc
  pump : c.PumpPlaced

theorem PumpPlaced.of_none {c : Conn} (hn : c.playTask = none) : c.PumpPlaced :=
  fun p _ _ hp => by simp [hn] at hp

theorem Announced.same {c c' : Conn} {s : Option Response} (h : c.Announced s)
    (hs : SameSession c c') (hp : c'.peer = c.peer) : c'.Announced s := by
  obtain ⟨h₁, h₂, h₃, -⟩ := hs
  cases s with
  | none => exact ⟨h₂.trans h.1, h₃.trans h.2⟩
  | some r => simpa only [Announced, h₁, h₂, h₃, hp] using h

/-- An answer that is no SETUP's 200 leaves everything as it is. -/
theorem Sent.prepared {c c' : Conn} {l : Log} {handler : Option Str} {r : Response} {k : After}
    {o : List Effect} (hs : Sent c handler r k c' o) (ha : c.Announced l.setup)
    (hp : c.PumpPlaced) (hr : l.handling = some .setup → r.code ≠ 200) :
    Prepared c' (l.after o) := by
  cases hs with
  | written =>
    refine ⟨fun _ => ?_, by simp [settled], by simp, trivial, hp⟩
    rw [Log.after_cons, Log.after_nil, l.add_response hr]
    exact ha
  | queued => exact ⟨fun _ => ha, by simp [settled], by simp, hr, hp⟩

/-- The 200 of a SETUP is written at once. -/
theorem Sent.prepared_setup {c c' : Conn} {l : Log} {handler : Option Str} {r : Response}
    {k : After} {o : List Effect} (hs : Sent c handler r k c' o) (hf : c.lock.free = true)
    (hh : l.handling = some .setup) (hr : r.code = 200) (ha : c.Announced (some r))
    (hn : c.playTask = none) : Prepared c' (l.after o) := by
  obtain ⟨rfl, rfl⟩ := hs.of_free hf
  refine ⟨fun _ => ?_, by simp [settled], by simp, trivial, .of_none hn⟩
  have : (l.after [.response r]).setup = some r := by simp [Log.add, hh, hr]
  rw [this]
  exact ha

theorem Stopped.prepared {c c' : Conn} {l : Log} {why : Leave} {o : List Effect}
    (hs : Stopped c why c' o) (ha : c.playTask ≠ none → c.Announced l.setup)
    (hp : c.PumpPlaced) : Prepared c' (l.after o) := by
  cases hs with
  | joins p hpl =>
    refine ⟨fun _ => ha (by simp [hpl]), by simp [settled], by simp, trivial, ?_⟩
    rintro q ch packets ⟨⟩ hq
    exact hp p ch packets hpl hq
  | tornDown =>
    rw [Log.after_append, Log.after_released]
    exact ⟨fun _ => ⟨rfl, rfl⟩, by simp [settled], by simp, trivial, .of_none rfl⟩
  | closes => exact ⟨by simp [settled], fun _ => rfl, by simp, trivial, .of_none rfl⟩

theorem SetupStep.frame {srv : Server} {c c₁ : Conn} {url : Str} {headers : Headers}
    {cseq token : Str} {out : Outcome} (h : SetupStep srv c url headers cseq token c₁ out) :
    c₁.playTask = c.playTask ∧ c₁.peer = c.peer ∧ c₁.lock = c.lock := by
  cases h <;> exact ⟨rfl, rfl, rfl⟩

section requests
variable {srv : Server} {c c' : Conn} {l : Log} {o : List Effect} {url cseq token : Str}
  {headers : Headers}

/-- The 200 of a SETUP over TCP. -/
theorem SetupStep.prepared_tcp {c₁ : Conn} {r : Response} {k : After}
    (hset : SetupStep srv c url headers cseq token c₁ (.answer r k)) (hl : c.LoopOut)
    (hn : c.playTask = none) (hh : l.handling = some .setup) (hs : Sent c₁ (some cseq) r k c' o) :
    Prepared c' (l.after o) := by
  have hf := hl.free hn
  rw [← hset.frame.2.2] at hf
  have hn₁ := hset.frame.1.trans hn
  generalize ho : Outcome.answer r k = out at hset
  cases hset with
  | tcp =>
    obtain ⟨h200, hann⟩ := setupAnswer_announces ho.symm (interleavedTransport_field _ _)
    refine hs.prepared_setup hf hh h200 ⟨rfl, by simp, ?_, by simp [placed, cleared]⟩ hn₁
    rintro ch hi ⟨⟩
    exact hann
  | _ => cases ho

/-- A SETUP over UDP that opens its endpoint. -/
theorem SetupStep.prepared_udp {c₁ : Conn} {port : Int}
    (hset : SetupStep srv c url headers cseq token c₁ (.openUdp port))
    (hn : c.playTask = none) (hh : l.handling = some .setup) :
    Prepared { c₁ with pc := .opening port cseq } l := by
  have hn₁ := hset.frame.1.trans hn
  refine ⟨by simp [settled], fun _ => hn₁, ?_, hh, .of_none hn₁⟩
  rintro _ _ ⟨⟩
  generalize ho : Outcome.openUdp port = out at hset
  cases hset with
  | udp => exact ⟨rfl, rfl⟩
  | _ => cases ho

/-- What a handled request leaves. -/
theorem Prepared.handlerStep {m : Method} (hl : c.LoopOut) (ha : c.Announced l.setup)
    (hp : c.PumpPlaced) (hC : m = .setup → LeavesSession srv c url headers token)
    (hs : HandlerStep srv c url headers cseq token m c' o) :
    Prepared c' (l.after (.handler m :: o)) := by
  rw [Log.after_cons]
  have ha' : c.Announced (l.add (.handler m)).setup := ha
  cases hs with
  | answers hm _ hsent =>
    exact hsent.prepared ha' hp fun hh => absurd (Option.some.inj hh) hm
  | refuses hr hsent =>
    refine hsent.prepared ha' hp fun _ h200 => ?_
    have hcode : 200 ∈ [400, 404, 455, 461] := h200 ▸ handle_raise_code hr
    simp at hcode
  | describeCrashes _ hstop => exact hstop.prepared (fun _ => ha') hp
  | waits => exact ⟨fun _ => ha', by simp [settled], by simp, by simp [Log.Expects, Log.add], hp⟩
  | setupCrashes hn hset hstop =>
    rw [Log.after_append, Log.after_released]
    have hn₁ := hset.frame.1.trans hn
    exact hstop.prepared (fun hne => absurd hn₁ hne) (.of_none hn₁)
  | setupRefuses hn hset hsent =>
    rw [Log.after_append, Log.after_released]
    have hsame := (hset.sameSession_iff hn).mpr (hC rfl)
    refine hsent.prepared (ha'.same hsame hset.frame.2.1) (.of_none (hset.frame.1.trans hn)) ?_
    intro _ h200
    have hcode : 200 ∈ [400, 404, 461] := h200 ▸ hset.code
    simp at hcode
  | setupAnswers hn hset hsent =>
    rw [Log.after_append, Log.after_released]
    exact hset.prepared_tcp hl hn rfl hsent
  | setupOpens hn hset =>
    rw [Log.after_released]
    exact hset.prepared_udp hn rfl

/-- What a step of the request loop leaves. -/
theorem Prepared.loopStep {i : LoopInput} (h : Prepared c l) (hl : c.LockAgrees)
    (hC : c.SetupsLeave srv (.loop i)) (hs : LoopStep srv c i c' o) :
    Prepared c' (l.after o) := by
  have hann (hp : settled c.pc = true) : c.Announced l.setup := h.announced hp
  cases hs with
  | badLine hp _ hs | unauthorized hp _ _ hs | unknown hp _ _ _ hs | notReady hp hs =>
    exact hs.prepared (hann (by rw [hp]; rfl)) h.pump fun _ => by
      simp [Response.ofError, RtspError.unauthorized, RtspError.notImplemented]
  | malformed hp he hs =>
    refine hs.prepared (hann (by rw [hp]; rfl)) h.pump fun _ h200 => ?_
    have hcode : 200 ∈ [400, 413, 431] := h200 ▸ List.mem_map_of_mem (f := RtspError.code) he
    simp at hcode
  | authCrashes hp _ _ hs | gone hp hs | readyCrashes hp hs | joined hp _ _ hs =>
    exact hs.prepared (fun _ => hann (by rw [hp]; rfl)) h.pump
  | @handles _ _ _ method url v m _ _ hp ht hg hm hstep =>
    refine Prepared.handlerStep (hl.loopOut (by rw [hp]; rfl)) (hann (by rw [hp]; rfl)) h.pump
      ?_ hstep
    rintro rfl
    exact hC method url v ht hg hm
  | skipped => exact h
  | ready hp _ hs =>
    have he := h.expects
    rw [hp] at he
    exact hs.prepared (hann (by rw [hp]; rfl)) h.pump fun hh => absurd hh he
  | @opened port serverPort _ host _ _ _ _ hp hpeer hans hs =>
    have hn := h.unsettled (by rw [hp]; rfl)
    have hh := h.expects
    rw [hp] at hh
    obtain ⟨hst, hin⟩ := h.opening _ _ hp
    obtain ⟨h200, ha⟩ := setupAnswer_announces hans (udpTransport_field c port serverPort)
    have hf := (hl.loopOut (by rw [hp]; rfl)).free hn
    refine hs.prepared_setup (l := l) hf hh h200 ⟨hst, by simp, by simp [hin], ?_⟩ hn
    rintro _ _ _ ⟨⟩
    exact ⟨hpeer, ha⟩
  | openedCrashes hp _ hs =>
    have hn := h.unsettled (by rw [hp]; rfl)
    exact hs.prepared (l := l) (fun hne => absurd hn hne) h.pump
  | openFails hp hs =>
    have hn := h.unsettled (by rw [hp]; rfl)
    exact hs.prepared (l := l) (fun hne => absurd hn hne) h.pump
  | @acquired _ r _ hp =>
    have hr := h.expects
    rw [hp] at hr
    refine ⟨fun _ => ?_, by simp [settled], by simp, trivial, h.pump⟩
    rw [Log.after_cons, Log.after_nil, l.add_response hr]
    exact hann (by rw [hp]; rfl)
  | drained hp | playsOn hp =>
    exact ⟨fun _ => hann (by rw [hp]; rfl), by simp [settled], by simp, trivial, h.pump⟩
  | subscribes hp =>
    refine ⟨fun _ => hann (by rw [hp]; rfl), by simp [settled], by simp, trivial, ?_⟩
    rintro _ _ _ ⟨⟩ ⟨⟩
  | playCrashes hp _ _ hs | tearsDown hp hs | quits hp _ hs =>
    exact hs.prepared (l := l) (fun _ => hann (by rw [hp]; rfl)) h.pump
  | timedOut hp hs =>
    exact hs.prepared (l := l) (hann (by rw [hp]; rfl)) h.pump fun _ => by simp
  | closed hp => exact ⟨by simp [settled], fun _ => h.unsettled (by rw [hp]; rfl), by simp,
      trivial, h.pump⟩

/-- While there is a pump the transport is the announced one. -/
theorem Prepared.settled (h : Prepared c l) (hne : c.playTask ≠ none) :
    Conn.settled c.pc = true := by
  by_contra hns
  exact hne (h.unsettled (by simpa using hns))

/-- A step of the pump: its own place changes, and the log does not. -/
theorem Prepared.pumps {q : Pump} (h : Prepared c l) (hne : c.playTask ≠ none)
    (hs : SameSession c c') (hpe : c'.peer = c.peer) (hpc : c'.pc = c.pc)
    (hq : c'.playTask = some q)
    (hw : ∀ ch packets, q.pc = .locking ch packets → ∃ hi, c.interleaved = some (ch, hi)) :
    Prepared c' l := by
  have hset := h.settled hne
  refine ⟨fun _ => (h.announced hset).same hs hpe, fun hns => ?_, fun port cseq hp => ?_, ?_, ?_⟩
  · simp [hpc, hset] at hns
  · rw [hs.1, hs.2.1]
    exact h.opening port cseq (hpc ▸ hp)
  · rw [hpc]
    exact h.expects
  · intro p ch packets hp hl
    cases hq.symm.trans hp
    rw [hs.2.1]
    exact hw ch packets hl

theorem Prepared.exited {p : Pump} (h : Prepared c l) (hne : c.playTask ≠ none)
    (hs : Exited c p c' o) : Prepared c' (l.after o) := by
  cases hs <;>
    exact h.pumps hne ⟨rfl, rfl, rfl, rfl⟩ rfl rfl rfl (by simp)

theorem Prepared.withLock {lock : FifoLock Party} (h : Prepared c l) :
    Prepared { c with lock := lock } l :=
  ⟨h.announced, h.unsettled, h.opening, h.expects, h.pump⟩

/-- What a step of the pump leaves. -/
theorem Prepared.pumpStep {p : Pump} {i : PumpInput} (h : Prepared c l)
    (hp : c.playTask = some p) (hs : PumpStep c p i c' o) : Prepared c' (l.after o) := by
  have hne : c.playTask ≠ none := by simp [hp]
  cases hs with
  | cancelledGetting _ _ hex => exact h.exited hne hex
  | cancelledWaiting _ _ hex => exact Prepared.exited (c := c.leaveQueue _) h.withLock hne hex
  | cancelledDraining _ _ hex | lost _ _ hex =>
    exact Prepared.exited (c := c.release) h.withLock hne hex
  | crashes _ _ _ hex =>
    rw [Log.after_cons]
    exact Prepared.exited (c := c.release) (l := l) h.withLock hne hex
  | crashTurn _ _ _ hex =>
    rw [Log.after_cons]
    exact Prepared.exited (c := c.leaveQueue _) (l := l) h.withLock hne hex
  | unstarted | starts | writes | acquired | drained | crashWaits =>
    exact h.pumps hne ⟨rfl, rfl, rfl, rfl⟩ rfl rfl rfl (by simp)
  | queues _ _ hin =>
    refine h.pumps hne ⟨rfl, rfl, rfl, rfl⟩ rfl rfl rfl ?_
    rintro _ _ ⟨⟩
    exact ⟨_, hin⟩
  | sends =>
    rw [Log.after_datagrams]
    exact h.pumps hne ⟨rfl, rfl, rfl, rfl⟩ rfl rfl hp fun ch packets hl => h.pump p ch packets hp hl
  | drops => exact h

theorem Prepared.step {i : ConnInput} (h : Prepared c l) (hl : c.LockAgrees)
    (hs : c.step srv i = some (c', o)) (hC : c.SetupsLeave srv i) : Prepared c' (l.after o) := by
  rcases step_cases hs with ⟨j, rfl, hj⟩ | ⟨j, p, rfl, hp, -, hps⟩
  · exact h.loopStep hl hC hj
  · exact h.pumpStep hp hps

end requests

end DvrBridge.Conn
