import DvrBridge.RtspStop

/-! The endpoints that the effects of a connection leave open, and the one it has stored: a step of
the request loop keeps the two equal, a pump touches neither. -/
namespace DvrBridge
open PyText

/-- The open endpoints after an effect. -/
def Effect.track (endpoints : List Nat) : Effect → List Nat
  | .openUdp e => e :: endpoints
  | .closeUdp e => endpoints.erase e
  | _ => endpoints

def openEndpoints (os : List Effect) : List Nat := os.foldl Effect.track []

/-- An effect that opens and closes nothing. -/
def Effect.Quiet : Effect → Prop
  | .openUdp _ | .closeUdp _ => False
  | _ => True

def LoopPc.isOpening : LoopPc → Bool
  | .opening _ _ => true
  | _ => false

theorem Effect.Quiet.track_eq {e : Effect} (h : e.Quiet) (l : List Nat) : e.track l = l := by
  cases e with
  | openUdp n | closeUdp n => exact h.elim
  | _ => rfl

theorem track_quiet {o : List Effect} (h : ∀ e ∈ o, e.Quiet) (l : List Nat) :
    o.foldl Effect.track l = l := by
  induction o with
  | nil => rfl
  | cons e o ih =>
    obtain ⟨he, ho⟩ := List.forall_mem_cons.mp h
    rw [List.foldl_cons, he.track_eq]
    exact ih ho

namespace Conn

/-- The endpoint that is stored. -/
def endpoints (c : Conn) : List Nat := (c.udp.map (·.1)).toList

/-- While an endpoint is being created no other is stored, and there is no `play_task`. -/
def Vacant (c : Conn) : Prop := c.udp = none ∧ c.playTask = none

theorem track_released (c : Conn) : c.released.foldl Effect.track c.endpoints = [] := by
  unfold released releaseTransport endpoints
  cases c.udp with
  | none => rfl
  | some u => simp [Effect.track]

/-- What a step of the request loop does to the endpoints. -/
structure Balanced (c c' : Conn) (o : List Effect) : Prop where
  ledger : o.foldl Effect.track c.endpoints = c'.endpoints
  opening : c'.pc.isOpening = true → c'.Vacant
  left : c'.pc = .closing ∨ c'.pc = .ended → c'.udp = none
  kept : c'.udp = none ∨ c'.udp = c.udp ∨ c'.playTask = none

section steps
variable {srv : Server} {c c' : Conn} {o : List Effect}

/-- A step that leaves the endpoint alone and goes on. -/
theorem Balanced.of_same (hu : c'.udp = c.udp) (ho : ∀ e ∈ o, e.Quiet)
    (hn : c'.pc.isOpening = false) (hl : c'.pc ≠ .closing ∧ c'.pc ≠ .ended) :
    Balanced c c' o := by
  refine ⟨?_, by simp [hn], ?_, .inr (.inl hu)⟩
  · rw [track_quiet ho, endpoints, endpoints, hu]
  · rintro (h | h)
    · exact absurd h hl.1
    · exact absurd h hl.2

theorem Balanced.cons {e : Effect} (h : Balanced c c' o) (he : e.Quiet) :
    Balanced c c' (e :: o) := by
  refine ⟨?_, h.opening, h.left, h.kept⟩
  rw [List.foldl_cons, he.track_eq]
  exact h.ledger

/-- A step after `_release_transport`. -/
theorem Balanced.after_release {c₁ : Conn} (h : Balanced c₁ c' o) (hu : c₁.udp = none) :
    Balanced c c' (c.released ++ o) := by
  refine ⟨?_, h.opening, h.left, ?_⟩
  · rw [List.foldl_append, track_released]
    have := h.ledger
    rwa [endpoints, hu] at this
  · rcases h.kept with hk | hk | hk
    · exact .inl hk
    · exact .inl (hk.trans hu)
    · exact .inr (.inr hk)

theorem Sent.balanced {handler : Option Str} {r : Response} {k : After}
    (h : Sent c handler r k c' o) : Balanced c c' o := by
  cases h with
  | written => exact .of_same rfl (by simp [Effect.Quiet]) rfl (by simp)
  | queued => exact .of_same rfl (by simp) rfl (by simp)

theorem Stopped.balanced {why : Leave} (h : Stopped c why c' o) : Balanced c c' o := by
  cases h with
  | joins => exact .of_same rfl (by simp) rfl (by simp)
  | tornDown | closes =>
    refine ⟨?_, by simp [LoopPc.isOpening], fun _ => rfl, .inl rfl⟩
    rw [List.foldl_append, track_released]
    rfl

theorem SetupStep.noEndpoint {url cseq token : Str} {headers : Headers} {out : Outcome}
    (h : SetupStep srv c url headers cseq token c' out) : c'.udp = none := by
  cases h <;> rfl

theorem HandlerStep.balanced {url cseq token : Str} {headers : Headers} {m : Method}
    (h : HandlerStep srv c url headers cseq token m c' o) : Balanced c c' o := by
  cases h with
  | answers _ _ hs => exact hs.balanced
  | refuses _ hs => exact hs.balanced
  | describeCrashes _ hs => exact hs.balanced.cons trivial
  | waits => exact .of_same rfl (by simp [Effect.Quiet]) rfl (by simp)
  | setupCrashes _ hset hs =>
    have hb := hs.balanced.cons (e := .crashed) trivial
    exact hb.after_release hset.noEndpoint
  | setupRefuses _ hset hs => exact hs.balanced.after_release hset.noEndpoint
  | setupAnswers _ hset hs => exact hs.balanced.after_release hset.noEndpoint
  | @setupOpens c₁ port hp hset =>
    have hu := hset.noEndpoint
    have hpl : c₁.playTask = none := by
      rw [← hp]
      cases hset
      rfl
    refine ⟨?_, fun _ => ⟨hu, hpl⟩, by simp, .inl hu⟩
    rw [track_released, endpoints]
    simp [hu]

theorem LoopStep.balanced {i : LoopInput} (h : LoopStep srv c i c' o)
    (hopen : c.pc.isOpening = true → c.Vacant) (hleft : c.pc = .closing → c.udp = none)
    (hpeer : ∀ port, i = .opened port → c.peer ≠ none) : Balanced c c' o := by
  -- the lock is not part of the balance
  have hrel {o : List Effect} (h : Balanced c.release c' o) : Balanced c c' o :=
    ⟨h.ledger, h.opening, h.left, h.kept⟩
  cases h with
  | badLine _ _ hs | unauthorized _ _ _ hs | unknown _ _ _ _ hs | malformed _ _ hs
  | ready _ _ hs | notReady _ hs => exact hs.balanced
  | authCrashes _ _ _ hs | readyCrashes _ hs | openFails _ hs =>
    exact hs.balanced.cons trivial
  | handles _ _ _ _ hs => exact hs.balanced.cons trivial
  | skipped hp => exact .of_same rfl (by simp) (by simp [hp, LoopPc.isOpening]) (by simp [hp])
  | gone _ hs | joined _ _ _ hs => exact hs.balanced
  | opened hp _ _ hs =>
    obtain ⟨hu, hpl⟩ := hopen (by simp [hp, LoopPc.isOpening])
    have hb := hs.balanced
    have he : Effect.track c.endpoints (.openUdp c.opened) = [c.opened] := by
      simp [Effect.track, endpoints, hu]
    refine ⟨?_, hb.opening, hb.left, .inr (.inr ?_)⟩
    · rw [List.foldl_cons, he]
      exact hb.ledger
    · rw [hs.session]
      exact hpl
  | @openedCrashes _ serverPort _ _ _ _ hn => exact absurd hn (hpeer serverPort rfl)
  | acquired => exact .of_same rfl (by simp [Effect.Quiet]) rfl (by simp)
  | drained | playsOn => exact .of_same rfl (by simp) rfl (by simp)
  | subscribes => exact .of_same rfl (by simp [Effect.Quiet]) rfl (by simp)
  | playCrashes _ _ _ hs => exact (hrel hs.balanced).cons trivial
  | tearsDown _ hs => exact hrel hs.balanced
  | quits _ _ hs => exact hrel hs.balanced
  | timedOut _ hs => exact hrel hs.balanced
  | closed hp =>
    have hu := hleft hp
    refine ⟨?_, by simp [LoopPc.isOpening], fun _ => hu, .inl hu⟩
    exact track_quiet (by simp [Effect.Quiet]) _

/-- What a step of a pump leaves alone. -/
structure Untouched (c c' : Conn) (o : List Effect) : Prop where
  udp : c'.udp = c.udp
  pc : c'.pc = c.pc
  quiet : ∀ e ∈ o, e.Quiet

theorem Exited.untouched {p : Pump} (h : Exited c p c' o) : Untouched c c' o := by
  cases h with
  | unsubscribes => exact ⟨rfl, rfl, by simp [Effect.Quiet]⟩
  | bare => exact ⟨rfl, rfl, by simp⟩

theorem Untouched.cons {e : Effect} (h : Untouched c c' o) (he : e.Quiet) :
    Untouched c c' (e :: o) :=
  ⟨h.udp, h.pc, List.forall_mem_cons.mpr ⟨he, h.quiet⟩⟩

theorem PumpStep.untouched {p : Pump} {i : PumpInput} (h : PumpStep c p i c' o) :
    Untouched c c' o := by
  have hlock {l : FifoLock Party} {o : List Effect}
      (h : Untouched { c with lock := l } c' o) : Untouched c c' o := ⟨h.udp, h.pc, h.quiet⟩
  cases h with
  | unstarted | starts | queues | drops | drained | crashWaits => exact ⟨rfl, rfl, by simp⟩
  | writes | acquired => exact ⟨rfl, rfl, by simp [Effect.Quiet]⟩
  | sends => exact ⟨rfl, rfl, by simp [Effect.Quiet]⟩
  | cancelledGetting _ _ hex => exact hex.untouched
  | cancelledWaiting _ _ hex | cancelledDraining _ _ hex | lost _ _ hex =>
    exact hlock hex.untouched
  | crashes _ _ _ hex | crashTurn _ _ _ hex => exact hlock (hex.untouched.cons trivial)

theorem pumpCrash_untouched (c : Conn) (p : Pump) :
    Untouched c (c.pumpCrash p).1 (c.pumpCrash p).2 := by
  unfold pumpCrash
  split
  · exact (pumpExit_exited c p).untouched.cons trivial
  · exact ⟨rfl, rfl, by simp⟩

theorem nextFrame_untouched (c : Conn) (p : Pump) :
    Untouched c (c.nextFrame p).1 (c.nextFrame p).2 := by
  unfold nextFrame
  split
  · exact pumpCrash_untouched c p
  · exact ⟨rfl, rfl, by simp⟩

end steps
end Conn

end DvrBridge
