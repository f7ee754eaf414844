import DvrBridge.RtspTeardown

/-! What the request loop does to the media pump: it starts one for a PLAY, and else only asks a
running one to stop. -/
namespace DvrBridge.Conn
open PyText

/-- An effect that concerns neither a subscriber nor the media. -/
def Aside : Effect → Prop
  | .subscribe _ _ | .unsubscribe _ _ | .media _ _ => False
  | _ => True

/-- A running pump stays where it is, and a pump that is over stays so. -/
structure KeepsPump (c c' : Conn) (o : List Effect) : Prop where
  made : c'.made = c.made
  aside : ∀ e ∈ o, Aside e
  running : ∀ p, c.playTask = some p → p.pc ≠ .done →
    (∃ p', c'.playTask = some p' ∧ p'.pc = p.pc) ∧ c'.sub = c.sub ∧ c'.stream = c.stream ∧
      c'.interleaved = c.interleaved ∧ .closeWriter ∉ o
  idle : c.Idle → c'.Idle

section
variable {srv : Server} {c c' : Conn} {o : List Effect}

theorem KeepsPump.cons (h : KeepsPump c c' o) {e : Effect} (he : Aside e)
    (hw : e ≠ .closeWriter) : KeepsPump c c' (e :: o) := by
  refine ⟨h.made, List.forall_mem_cons.mpr ⟨he, h.aside⟩, fun p hp hd => ?_, h.idle⟩
  obtain ⟨ht, hs, hst, hi, hc⟩ := h.running p hp hd
  exact ⟨ht, hs, hst, hi, List.not_mem_cons_of_ne_of_not_mem hw.symm hc⟩

/-- A step that leaves the fields of the pump alone. -/
theorem KeepsPump.of_same (ht : c'.playTask = c.playTask) (hm : c'.made = c.made)
    (hs : c'.sub = c.sub) (hst : c'.stream = c.stream) (hi : c'.interleaved = c.interleaved)
    (ho : ∀ e ∈ o, Aside e) (hw : .closeWriter ∉ o) : KeepsPump c c' o :=
  ⟨hm, ho, fun p hp _ => ⟨⟨p, ht.trans hp, rfl⟩, hs, hst, hi, hw⟩, fun h p hp => h p (ht ▸ hp)⟩

/-- The lock and the endpoints are no matter. -/
theorem KeepsPump.of_with {l : FifoLock Party} {n : Nat} {u : Option (Nat × Str × Int)}
    (h : KeepsPump { c with lock := l, opened := n, udp := u } c' o) : KeepsPump c c' o :=
  ⟨h.made, h.aside, h.running, h.idle⟩

/-- A step without a pump. -/
theorem KeepsPump.of_none (hn : c.playTask = none) (hn' : c'.playTask = none)
    (hm : c'.made = c.made) (ho : ∀ e ∈ o, Aside e) : KeepsPump c c' o :=
  ⟨hm, ho, fun p hp => by simp [hn] at hp, fun _ p hp => by simp [hn'] at hp⟩

theorem aside_released (c : Conn) : ∀ e ∈ c.released, Aside e :=
  forall_mem_released (fun _ => trivial) c

theorem Sent.keepsPump {handler : Option Str} {r : Response} {k : After}
    (h : Sent c handler r k c' o) : KeepsPump c c' o := by
  cases h with
  | written => exact .of_same rfl rfl rfl rfl rfl (by simp [Aside]) (by simp)
  | queued => exact .of_same rfl rfl rfl rfl rfl (by simp) (by simp)

theorem Stopped.keepsPump {why : Leave} (h : Stopped c why c' o) : KeepsPump c c' o := by
  cases h with
  | joins p hp hd =>
    refine ⟨rfl, by simp, fun q hq _ => ?_, fun hi => absurd (hi p hp) hd⟩
    cases hp.symm.trans hq
    exact ⟨⟨_, rfl, rfl⟩, rfl, rfl, rfl, by simp⟩
  | tornDown hi =>
    exact ⟨rfl, List.forall_mem_append.mpr ⟨aside_released c, by simp [Aside]⟩,
      fun p hp hd => absurd (hi p hp) hd, fun _ p hp => by cases hp⟩
  | closes hi =>
    exact ⟨rfl, List.forall_mem_append.mpr ⟨aside_released c, by simp [Aside]⟩,
      fun p hp hd => absurd (hi p hp) hd, fun _ p hp => by cases hp⟩

theorem SetupStep.made {url cseq token : Str} {headers : Headers} {out : Outcome}
    (h : SetupStep srv c url headers cseq token c' out) : c'.made = c.made := by
  cases h <;> rfl

/-- What follows on a SETUP, which needs that there is no pump. -/
theorem KeepsPump.setup {c₁ : Conn} {url cseq token : Str} {headers : Headers} {out : Outcome}
    (hn : c.playTask = none) (hs : SetupStep srv c url headers cseq token c₁ out)
    (h : KeepsPump c₁ c' o) (hn' : c'.playTask = none) : KeepsPump c c' (c.released ++ o) :=
  .of_none hn hn' (h.made.trans hs.made) (List.forall_mem_append.mpr ⟨aside_released c, h.aside⟩)

theorem Sent.playTask {handler : Option Str} {r : Response} {k : After}
    (h : Sent c handler r k c' o) : c'.playTask = c.playTask := by
  cases h <;> rfl

theorem Stopped.playTask {why : Leave} (h : Stopped c why c' o) (hn : c.playTask = none) :
    c'.playTask = none := by
  cases h with
  | joins p hp => simp [hn] at hp
  | tornDown | closes => rfl

theorem HandlerStep.keepsPump {url cseq token : Str} {headers : Headers} {m : Method}
    (h : HandlerStep srv c url headers cseq token m c' o) : KeepsPump c c' o := by
  cases h with
  | answers _ _ hs | refuses _ hs => exact hs.keepsPump
  | describeCrashes _ hs => exact hs.keepsPump.cons trivial (by simp)
  | waits => exact .of_same rfl rfl rfl rfl rfl (by simp [Aside]) (by simp)
  | setupCrashes hn hstep hs =>
    have hn₁ := hstep.same.1.trans hn
    exact .setup hn hstep (hs.keepsPump.cons trivial (by simp)) (hs.playTask hn₁)
  | setupRefuses hn hstep hs | setupAnswers hn hstep hs =>
    exact .setup hn hstep hs.keepsPump (hs.playTask.trans (hstep.same.1.trans hn))
  | setupOpens hn hstep =>
    exact .of_none hn (hstep.same.1.trans hn) hstep.made (aside_released c)

/-- A step of the request loop subscribes for a new pump, or keeps the one there is. -/
theorem LoopStep.keepsPump {i : LoopInput} (h : LoopStep srv c i c' o) :
    (∃ s, c.stream = some s ∧ o = [.subscribe s c.made] ∧ c'.playTask = some {} ∧
      c'.sub = some c.made ∧ c'.stream = some s ∧ c'.interleaved = c.interleaved ∧
      c'.made = c.made + 1) ∨ KeepsPump c c' o := by
  cases h with
  | @subscribes _ s _ _ hst => exact .inl ⟨s, hst, rfl, rfl, rfl, hst, rfl, rfl⟩
  | badLine _ _ hs | unauthorized _ _ _ hs | unknown _ _ _ _ hs | malformed _ _ hs
  | ready _ _ hs | notReady _ hs => exact .inr hs.keepsPump
  | authCrashes _ _ _ hs | readyCrashes _ hs | openFails _ hs =>
    exact .inr (hs.keepsPump.cons trivial (by simp))
  | handles _ _ _ _ hs => exact .inr (hs.keepsPump.cons trivial (by simp))
  | gone _ hs | joined _ _ _ hs => exact .inr hs.keepsPump
  | skipped => exact .inr (.of_same rfl rfl rfl rfl rfl (by simp) (by simp))
  | opened _ _ _ hs => exact .inr (hs.keepsPump.of_with.cons trivial (by simp))
  | openedCrashes _ _ hs =>
    have h : KeepsPump c c' _ := hs.keepsPump.of_with
    exact .inr ((h.cons (e := .crashed) trivial (by simp)).cons trivial (by simp))
  | acquired => exact .inr (.of_same rfl rfl rfl rfl rfl (by simp [Aside]) (by simp))
  | drained | playsOn => exact .inr (.of_same rfl rfl rfl rfl rfl (by simp) (by simp))
  | playCrashes _ _ _ hs => exact .inr (hs.keepsPump.of_with.cons trivial (by simp))
  | tearsDown _ hs | quits _ _ hs => exact .inr hs.keepsPump.of_with
  | timedOut _ hs => exact .inr hs.keepsPump.of_with
  | closed => exact .inr (.of_same rfl rfl rfl rfl rfl (by simp [Aside]) (by simp))

end
end DvrBridge.Conn
