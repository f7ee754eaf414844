import DvrBridge.RtspServer
import DvrBridge.StreamSystem
import Mathlib.Data.Nat.Pairing

/-! The daemon that `_serve` runs: the streams of the hub and the server, all of whose connections
use the same streams. -/
namespace DvrBridge
open Machine

structure Daemon where
  worlds : Str → World
  server : RtspServer := {}

inductive DaemonInput where
  /-- the supervisor of a stream or its driver, `start_always_on` or `stop` of the hub -/
  | hub (name : Str) (i : Input)
  /-- the server; `now` is the clock at the calls of the connections on the streams -/
  | server (i : ServerInput) (now : ℚ)
  /-- pump `m` of connection `k` takes the next item off its queue -/
  | get (k m : Nat) (now : ℚ)
  /-- the woken DESCRIBE of connection `k` goes on -/
  | resumed (k : Nat) (now : ℚ)
  /-- the `wait_ready` of connection `k` times out -/
  | timedOut (k : Nat) (now : ℚ)

inductive DaemonOutput where
  /-- a frame of a driver, handed to `_on_frame` of the stream -/
  | delivered (name : Str) (f : VideoFrame)
  | server (o : ServerOutput)
  deriving DecidableEq

/-- Subscriber `x` of connection `k`, among those of all connections. -/
def subscriber (k x : Nat) : Nat := Nat.pair k x

/-- The calls that only connections make. -/
def Input.ofUser : Input → Bool
  | .subscribe _ _ | .unsubscribe _ _ | .get _ => true
  | .waitReady _ _ | .resumed _ | .waitTimeout _ => true
  | .touch _ | .stop | .stopResumed _ | .run _ _ _ _ => false

/-- What a connection only gets from a stream: an item of its queue, or the end of its wait. -/
def LiveInput.handed : LiveInput → Bool
  | .pump _ (.frame _) | .loop (.ready _ _ _) | .loop .notReady => true
  | _ => false

def ServerInput.handed : ServerInput → Bool
  | .conn _ i => i.handed
  | _ => false

namespace Daemon

/-- The call that an effect of connection `k` is; a DESCRIBE calls `wait_ready`. -/
def request (k : Nat) (now : ℚ) : Effect → Option (Str × Input)
  | .subscribe s x => some (s, .subscribe (subscriber k x) now)
  | .unsubscribe s x => some (s, .unsubscribe (subscriber k x) now)
  | .touch s => some (s, .waitReady k now)
  | _ => none

def call (k : Nat) (now : ℚ) (ws : Str → World) (e : Effect) : Option (Str → World) :=
  match request k now e with
  | none => some ws
  | some (s, i) => ((ws s).step i).map fun r => Function.update ws s r.1

def calls (now : ℚ) : (Str → World) → List ServerOutput → Option (Str → World)
  | ws, [] => some ws
  | ws, .conn k e :: o => (call k now ws e).bind fun ws => calls now ws o
  | ws, _ :: o => calls now ws o

def conn? (d : Daemon) (k : Nat) : Option LiveConn := d.server.pool.sessions[k]?

/-- The stream that the DESCRIBE of connection `k` waits for. -/
def awaited (d : Daemon) (k : Nat) : Option Str :=
  (d.conn? k).bind fun c =>
    match c.conn.pc with
    | .waitReady _ s _ => some s
    | _ => none

variable (srv : Server) (most : Int)

/-- A step of the server, with the calls on the streams. -/
def serve (d : Daemon) (i : ServerInput) (now : ℚ) : Option (Daemon × List DaemonOutput) :=
  (d.server.step srv most i).bind fun r =>
    (calls now d.worlds r.2).map fun ws => (⟨ws, r.1⟩, r.2.map .server)

/-- Connection `k` after its `wait_ready` has returned. -/
def goOn (d : Daemon) (k : Nat) (s : Str) (now : ℚ) : Option (Daemon × List DaemonOutput) :=
  let st := (d.worlds s).stream
  d.serve srv most (.conn k (.loop (.ready st.sps st.pps st.info))) now

/-- The connection that has just begun to wait for a stream that is ready: it does not suspend. -/
def served (before after : Daemon) : ServerInput → Option (Nat × Str)
  | .conn k _ =>
    if before.awaited k = none then
      (after.awaited k).bind fun s =>
        if (after.worlds s).stream.ready then some (k, s) else none
    else none
  | _ => none

def move (d : Daemon) (s : Str) (w : World) : Daemon :=
  { d with worlds := Function.update d.worlds s w }

theorem move_self (d : Daemon) (s : Str) (w : World) : (d.move s w).worlds s = w :=
  Function.update_self ..

theorem move_of_ne {s name : Str} (h : s ≠ name) (d : Daemon) (w : World) :
    (d.move s w).worlds name = d.worlds name :=
  Function.update_of_ne h.symm ..

def step (d : Daemon) : DaemonInput → Option (Daemon × List DaemonOutput)
  | .hub name i =>
    if i.ofUser then none
    else ((d.worlds name).step i).map fun r =>
      (d.move name r.1, (delivered i).map (.delivered name))
  | .server i now =>
    if i.handed then none
    else (d.serve srv most i now).bind fun r =>
      match served d r.1 i with
      | none => some r
      | some (k, s) => (r.1.goOn srv most k s now).map fun q => (q.1, r.2 ++ q.2)
  | .get k m now =>
    (d.conn? k).bind fun c => c.conn.stream.bind fun s => c.conn.sub.bind fun x =>
      ((d.worlds s).head? (subscriber k x)).bind fun item =>
        (d.move s ((d.worlds s).get (subscriber k x))).serve srv most
          (.conn k (.pump m (.frame item))) now
  | .resumed k now =>
    (d.awaited k).bind fun s => ((d.worlds s).step (.resumed k)).bind fun r =>
      (d.move s r.1).goOn srv most k s now
  | .timedOut k now =>
    (d.awaited k).bind fun s => ((d.worlds s).step (.waitTimeout k)).bind fun r =>
      (d.move s r.1).serve srv most (.conn k (.loop .notReady)) now

/-- Before the first client; `streams` are the parameters of the streams. -/
def fresh (streams : Str → Bool × ℚ) : Daemon :=
  { worlds := fun name => World.fresh (streams name).1 (streams name).2 }

/-! The histories of the parts. -/

def serverOf (h : List DaemonOutput) : List ServerOutput :=
  h.flatMap fun
    | .server o => [o]
    | _ => []

/-- What connection `k` has done. -/
def effectsOf (k : Nat) (h : List DaemonOutput) : List Effect := RtspServer.ofConn k (serverOf h)

/-- The frames that the stream has relayed: those with a NAL. -/
def framesOf (name : Str) (h : List DaemonOutput) : List VideoFrame :=
  h.filterMap fun
    | .delivered s f => if s = name ∧ frameNals f.payload ≠ [] then some f else none
    | _ => none

section
variable (h h' : List DaemonOutput) (o : List ServerOutput)

@[simp] theorem serverOf_append : serverOf (h ++ h') = serverOf h ++ serverOf h' :=
  List.flatMap_append

@[simp] theorem serverOf_server : serverOf (o.map .server) = o := by
  simp [serverOf, List.flatMap_map]

@[simp] theorem serverOf_delivered (name : Str) (fs : List VideoFrame) :
    serverOf (fs.map (.delivered name)) = [] := by
  simp [serverOf, List.flatMap_map]

@[simp] theorem effectsOf_append (k : Nat) :
    effectsOf k (h ++ h') = effectsOf k h ++ effectsOf k h' := by
  simp [effectsOf]

@[simp] theorem framesOf_append (name : Str) :
    framesOf name (h ++ h') = framesOf name h ++ framesOf name h' := List.filterMap_append

@[simp] theorem framesOf_server (name : Str) : framesOf name (o.map .server) = [] := by
  simp [framesOf, List.filterMap_map]

end

/-- Requests are what `_read_request` hands on, and `stop` of the server closes no connection. -/
def Serving : DaemonInput → Prop
  | .server (.close _) _ => False
  | .server (.conn _ (.loop i)) _ => i.Read
  | _ => True

/-- A connection goes on, by this input of the server, or one is made. -/
inductive Move (d : Daemon) : Option ServerInput → Daemon → List DaemonOutput → Prop
  /-- the wait of connection `k` is over -/
  | wakes {k : Nat} {s : Str} {i : Input} {w : World} : i = .resumed k ∨ i = .waitTimeout k →
      (d.worlds s).step i = some (w, []) → Move d none (d.move s w) []
  | serves {i : ServerInput} {now : ℚ} {d' : Daemon} {o : List DaemonOutput} :
      Serving (.server i now) → (∀ k m item, i ≠ .conn k (.pump m (.frame item))) →
      d.serve srv most i now = some (d', o) → Move d (some i) d' o
  | gets {k m x : Nat} {s : Str} {c : LiveConn} {item : HubFrame} {now : ℚ} {d' : Daemon}
      {o : List DaemonOutput} :
      d.conn? k = some c → c.conn.stream = some s → c.conn.sub = some x →
      (d.worlds s).head? (subscriber k x) = some item →
      (d.move s ((d.worlds s).get (subscriber k x))).serve srv most
        (.conn k (.pump m (.frame item))) now = some (d', o) →
      Move d (some (.conn k (.pump m (.frame item)))) d' o

/-- A pump is cancelled only by an input that says so. -/
def Cancels (i : DaemonInput) (j : Option ServerInput) : Prop :=
  ∀ k m, j = some (.conn k (.pump m .cancelled)) →
    ∃ now, i = .server (.conn k (.pump m .cancelled)) now

/-- What a step is before connections are closed from outside. -/
inductive Moves (d : Daemon) : DaemonInput → Daemon → List DaemonOutput → Prop
  | hub {name : Str} {i : Input} {w : World} {o : List Relay} : i.ofUser = false →
      (d.worlds name).step i = some (w, o) →
      Moves d (.hub name i) (d.move name w) ((delivered i).map (.delivered name))
  | one {i : DaemonInput} {j : Option ServerInput} {d' : Daemon} {o : List DaemonOutput} :
      Cancels i j → Move srv most d j d' o → Moves d i d' o
  /-- a request loop goes on at once -/
  | two {i : DaemonInput} {j : Option ServerInput} {k : Nat} {r : LoopInput} {d₁ d₂ : Daemon}
      {o₁ o₂ : List DaemonOutput} : Cancels i j → Move srv most d j d₁ o₁ →
      Move srv most d₁ (some (.conn k (.loop r))) d₂ o₂ → Moves d i d₂ (o₁ ++ o₂)

section
variable {srv : Server} {most : Int} {d d' : Daemon} {i : DaemonInput} {o : List DaemonOutput}

theorem move_of_goOn {k : Nat} {s : Str} {now : ℚ} (h : d.goOn srv most k s now = some (d', o)) :
    ∃ r, Move srv most d (some (.conn k (.loop r))) d' o := by
  refine ⟨_, .serves ?_ (by simp) h⟩
  exact trivial

theorem step_moves (hs : d.step srv most i = some (d', o)) (hi : Serving i) :
    Moves srv most d i d' o := by
  cases i with
  | hub name i =>
    obtain ⟨hu, hs⟩ := Option.ite_none_left_eq_some.mp hs
    obtain ⟨⟨w, os⟩, hw, he⟩ := Option.map_eq_some_iff.mp hs
    cases he
    exact .hub (by simpa using hu) hw
  | server i now =>
    obtain ⟨hh, hs⟩ := Option.ite_none_left_eq_some.mp hs
    obtain ⟨⟨d₁, o₁⟩, h₁, hs⟩ := Option.bind_eq_some_iff.mp hs
    have hframe : ∀ k m item, i ≠ .conn k (.pump m (.frame item)) := by
      rintro k m item rfl
      exact hh rfl
    have hfirst : Move srv most d (some i) d₁ o₁ := .serves hi hframe h₁
    have hcancels : Cancels (.server i now) (some i) := by
      rintro k m h
      cases h
      exact ⟨now, rfl⟩
    split at hs
    · cases hs
      exact .one hcancels hfirst
    · obtain ⟨⟨d₂, o₂⟩, h₂, he⟩ := Option.map_eq_some_iff.mp hs
      cases he
      obtain ⟨r, hsecond⟩ := move_of_goOn h₂
      exact .two hcancels hfirst hsecond
  | get k m now =>
    obtain ⟨c, hc, hs⟩ := Option.bind_eq_some_iff.mp hs
    obtain ⟨s, hst, hs⟩ := Option.bind_eq_some_iff.mp hs
    obtain ⟨x, hx, hs⟩ := Option.bind_eq_some_iff.mp hs
    obtain ⟨item, hitem, hs⟩ := Option.bind_eq_some_iff.mp hs
    exact .one (by simp [Cancels]) (.gets hc hst hx hitem hs)
  | resumed k now =>
    obtain ⟨s, -, hs⟩ := Option.bind_eq_some_iff.mp hs
    obtain ⟨⟨w, os⟩, hw, hs⟩ := Option.bind_eq_some_iff.mp hs
    obtain ⟨hm, he⟩ := Option.ite_none_right_eq_some.mp hw
    cases he
    obtain ⟨r, hsecond⟩ := move_of_goOn hs
    exact .two (by simp [Cancels]) (.wakes (.inl rfl) (if_pos hm)) hsecond
  | timedOut k now =>
    obtain ⟨s, -, hs⟩ := Option.bind_eq_some_iff.mp hs
    obtain ⟨⟨w, os⟩, hw, hs⟩ := Option.bind_eq_some_iff.mp hs
    obtain ⟨hm, he⟩ := Option.ite_none_right_eq_some.mp hw
    cases he
    refine .two (r := .notReady) (by simp [Cancels]) (.wakes (.inr rfl) (if_pos hm))
      (.serves ?_ (by simp) hs)
    exact trivial

/-- Invariant rule: what the streams and every move keep, every run keeps. -/
theorem run_moves (P : Daemon → List DaemonOutput → Prop) {h : List DaemonOutput} (h0 : P d [])
    (hhub : ∀ d h name i w o, P d h → Input.ofUser i = false →
      (d.worlds name).step i = some (w, o) →
      P (d.move name w) (h ++ (delivered i).map (.delivered name)))
    (hmove : ∀ d h j d' o, P d h → Move srv most d j d' o → P d' (h ++ o))
    {is : List DaemonInput} (hi : ∀ i ∈ is, Serving i)
    (hr : run (step srv most) d is = some (d', h)) : P d' h := by
  refine run_invariant (Q := fun _ _ i _ _ => Serving i) P h0 ?_ (everyStep_of_forall_mem hi) hr
  intro d h i d' o hp hs hi
  cases step_moves hs hi with
  | hub hu hw => exact hhub d h _ _ _ _ hp hu hw
  | one _ hm => exact hmove d h _ d' o hp hm
  | two _ h₁ h₂ =>
    rw [← List.append_assoc]
    exact hmove _ _ _ _ _ (hmove _ _ _ _ _ hp h₁) h₂

end

end Daemon
end DvrBridge
