import DvrBridge.FakeDvrPlay
import DvrBridge.StreamCopyLaw

/-! The whole bridge: the devices' ends of the connections, the drivers that read them, the
supervisor and the hub that relay the frames, and one connection to the server. -/
namespace DvrBridge
open H264 NetDvr3 Machine

structure Bridge where
  sys : System
  /-- the connection of each driver, by its number -/
  lines : Nat → Dialogue := fun _ => {}

inductive BridgeInput where
  /-- what no driver does -/
  | system (i : SystemInput)
  /-- the device's end of the connection of a driver -/
  | device (n : Nat) (i : SimInput)
  /-- the generator of task `t`; the clock is read when it yields -/
  | driver (t : Nat) (i : DialogueInput) (now₁ now₂ : ℚ)
  /-- the connection is refused, or an `OSError` ends it -/
  | lost (t : Nat) (now₁ now₂ : ℚ)

inductive BridgeOutput where
  /-- of the driver with this number -/
  | line (n : Nat) (o : ParserOutput)
  | system (o : SystemOutput)
  deriving DecidableEq

def BridgeInput.Read : BridgeInput → Prop
  | .system i => i.Read
  | _ => True

/-- What a driver hands to the supervisor. -/
def SystemInput.fromDriver : SystemInput → Bool
  | .hub (.run _ _ _ (.frame _ _)) | .hub (.run _ _ _ .failed) => true
  | _ => false

namespace Bridge

/-- The driver yields a frame, or raises. -/
def handed (t : Nat) (now₁ now₂ : ℚ) (info : StreamInfo) : List ParserOutput → Option SystemInput
  | [] => none
  | .frame f :: _ => some (.hub (.run t now₁ now₂ (.frame f info)))
  | .raised :: _ => some (.hub (.run t now₁ now₂ .failed))

/-- Task `t`, when its generator may run. -/
def reader (b : Bridge) (t : Nat) : Option RunTask :=
  (b.sys.world.tasks[t]?).bind fun k =>
    if k.pc = .next ∧ k.cancelRequested = false then some k else none

variable (d : FakeDvr) (pkt : Bytes) (srv : Server) (name : Str)

/-- A step; `pkt` is the start packet that the drivers send. -/
def step (b : Bridge) : BridgeInput → Option (Bridge × List BridgeOutput)
  | .system i =>
    if i.fromDriver then none
    else (b.sys.step srv name i).map fun r => ({ b with sys := r.1 }, r.2.map .system)
  | .device n i =>
    (d.dialogue pkt (b.lines n) (.sim i)).map fun r =>
      ({ b with lines := Function.update b.lines n r.1 }, r.2.map (.line n))
  | .driver t i now₁ now₂ =>
    if i.ofDriver then
      (b.reader t).bind fun k =>
        let n := k.driver.serial
        (d.dialogue pkt (b.lines n) i).bind fun r =>
          let b' := { b with lines := Function.update b.lines n r.1 }
          match handed t now₁ now₂ r.1.feed.parser.info r.2 with
          | none => some (b', r.2.map (.line n))
          | some j =>
            (b.sys.step srv name j).map fun q =>
              ({ b' with sys := q.1 }, r.2.map (.line n) ++ q.2.map .system)
    else none
  | .lost t now₁ now₂ =>
    (b.sys.step srv name (.hub (.run t now₁ now₂ .failed))).map fun r =>
      ({ b with sys := r.1 }, r.2.map .system)

def fresh (alwaysOn : Bool) (linger : ℚ) (peer : Option Str) (ssrc : Nat) : Bridge :=
  { sys := System.fresh alwaysOn linger peer ssrc }

/-! The histories of the parts. -/

def systemOf (h : List BridgeOutput) : List SystemOutput :=
  h.flatMap fun
    | .system o => [o]
    | _ => []

def ofLine (n : Nat) : BridgeOutput → List ParserOutput
  | .line m o => if m = n then [o] else []
  | _ => []

/-- The frames that the drivers have yielded, with the numbers of the drivers. -/
def yields (h : List BridgeOutput) : List (Nat × VideoFrame) :=
  h.filterMap fun
    | .line n (.frame f) => some (n, f)
    | _ => none

/-- The frames that were handed to `_on_frame`. -/
def handedOver (h : List SystemOutput) : List VideoFrame :=
  h.filterMap fun
    | .delivered f => some f
    | _ => none

section
variable (h h' : List BridgeOutput) (n : Nat) (o : List ParserOutput) (os : List SystemOutput)

@[simp] theorem systemOf_append : systemOf (h ++ h') = systemOf h ++ systemOf h' :=
  List.flatMap_append

@[simp] theorem yields_append : yields (h ++ h') = yields h ++ yields h' := List.filterMap_append

@[simp] theorem systemOf_line : systemOf (o.map (.line n)) = [] := by
  simp [systemOf, List.flatMap_map]

@[simp] theorem systemOf_system : systemOf (os.map .system) = os := by
  simp [systemOf, List.flatMap_map]

@[simp] theorem yields_system : yields (os.map .system) = [] := by
  simp [yields, List.filterMap_map]

theorem ofLine_line (m : Nat) : (o.map (BridgeOutput.line m)).flatMap (ofLine n) =
    if m = n then o else [] := by
  rw [List.flatMap_map]
  split
  · rename_i he
    simp [ofLine, he]
  · rename_i hne
    simp [ofLine, hne]

theorem ofLine_system : (os.map BridgeOutput.system).flatMap (ofLine n) = [] := by
  simp [ofLine, List.flatMap_map]

end

/-- What a step is for the parts. -/
inductive BridgeStep (b : Bridge) : BridgeInput → Bridge → List BridgeOutput → Prop
  | system {i : SystemInput} {s : System} {o : List SystemOutput} : i.fromDriver = false →
      b.sys.step srv name i = some (s, o) → BridgeStep b (.system i) ⟨s, b.lines⟩ (o.map .system)
  | device {n : Nat} {i : SimInput} {l : Dialogue} :
      d.dialogue pkt (b.lines n) (.sim i) = some (l, []) →
      BridgeStep b (.device n i) ⟨b.sys, Function.update b.lines n l⟩ []
  | silent {t : Nat} {k : RunTask} {i : DialogueInput} {l : Dialogue} {now₁ now₂ : ℚ} :
      b.reader t = some k → d.dialogue pkt (b.lines k.driver.serial) i = some (l, []) →
      BridgeStep b (.driver t i now₁ now₂)
        ⟨b.sys, Function.update b.lines k.driver.serial l⟩ []
  | yields {t : Nat} {k : RunTask} {i : DialogueInput} {l : Dialogue} {f : VideoFrame} {s : System}
      {o : List SystemOutput} {now₁ now₂ : ℚ} :
      b.reader t = some k → d.dialogue pkt (b.lines k.driver.serial) i = some (l, [.frame f]) →
      b.sys.step srv name (.hub (.run t now₁ now₂ (.frame f l.feed.parser.info))) = some (s, o) →
      BridgeStep b (.driver t i now₁ now₂) ⟨s, Function.update b.lines k.driver.serial l⟩
        (.line k.driver.serial (.frame f) :: o.map .system)
  | raises {t : Nat} {k : RunTask} {i : DialogueInput} {l : Dialogue} {s : System}
      {o : List SystemOutput} {now₁ now₂ : ℚ} :
      b.reader t = some k → d.dialogue pkt (b.lines k.driver.serial) i = some (l, [.raised]) →
      b.sys.step srv name (.hub (.run t now₁ now₂ .failed)) = some (s, o) →
      BridgeStep b (.driver t i now₁ now₂) ⟨s, Function.update b.lines k.driver.serial l⟩
        (.line k.driver.serial .raised :: o.map .system)
  | lost {t : Nat} {s : System} {o : List SystemOutput} {now₁ now₂ : ℚ} :
      b.sys.step srv name (.hub (.run t now₁ now₂ .failed)) = some (s, o) →
      BridgeStep b (.lost t now₁ now₂) ⟨s, b.lines⟩ (o.map .system)

end Bridge

namespace Bridge
variable {d : FakeDvr} {pkt : Bytes} {srv : Server} {name : Str} {b b' : Bridge} {i : BridgeInput}
  {h o : List BridgeOutput}

theorem step_inv (hs : b.step d pkt srv name i = some (b', o)) :
    BridgeStep d pkt srv name b i b' o := by
  cases i with
  | system i =>
    obtain ⟨hf, hs⟩ := Option.ite_none_left_eq_some.mp hs
    obtain ⟨r, hr, he⟩ := Option.map_eq_some_iff.mp hs
    cases he
    exact .system (by simpa using hf) hr
  | device n i =>
    obtain ⟨⟨l, os⟩, hr, he⟩ := Option.map_eq_some_iff.mp hs
    cases he
    rcases FakeDvr.dialogue_output hr with rfl | ⟨hd, -⟩
    · exact .device hr
    · cases hd
  | driver t i now₁ now₂ =>
    obtain ⟨-, hs⟩ := Option.ite_none_right_eq_some.mp hs
    obtain ⟨k, hk, hs⟩ := Option.bind_eq_some_iff.mp hs
    obtain ⟨⟨l, os⟩, hr, hs⟩ := Option.bind_eq_some_iff.mp hs
    rcases FakeDvr.dialogue_output hr with rfl | ⟨-, ⟨f, rfl⟩ | rfl⟩
    · cases hs
      exact .silent hk hr
    · obtain ⟨q, hq, he⟩ := Option.map_eq_some_iff.mp hs
      cases he
      exact .yields hk hr hq
    · obtain ⟨q, hq, he⟩ := Option.map_eq_some_iff.mp hs
      cases he
      exact .raises hk hr hq
  | lost t now₁ now₂ =>
    obtain ⟨r, hr, he⟩ := Option.map_eq_some_iff.mp hs
    cases he
    exact .lost hr

end Bridge
end DvrBridge
