import DvrBridge.AccessUnits
import DvrBridge.RtspPump
import DvrBridge.RtspTidy

/-! A stream of the hub, with everybody who uses it, and one connection to the server. The
connection's subscribers are objects of the stream; its pump reads their queues. -/
namespace DvrBridge
open Machine

structure System where
  world : World
  conn : Conn

inductive SystemInput where
  /-- the supervisor, a driver or another user of the stream -/
  | hub (i : Input)
  /-- the connection; `now` is the clock at its calls on the stream -/
  | conn (i : ConnInput) (now : ℚ)
  /-- the pump takes the next item off its queue -/
  | get

inductive SystemOutput where
  /-- a frame of a driver, handed to `_on_frame` -/
  | delivered (f : VideoFrame)
  | hub (o : World.FanOutput)
  | conn (e : Effect)
  deriving DecidableEq

/-- The frames in an input of the stream. -/
def delivered : Input → List VideoFrame
  | .run _ _ _ (.frame f _) => [f]
  | _ => []

/-- The requests are what `_read_request` hands on. -/
def SystemInput.Read : SystemInput → Prop
  | .conn i _ => i.Read
  | _ => True

namespace System

/-- Others act for their own subscribers only, whose identities are no numbers of the connection. -/
def others (made : Nat) : Input → Bool
  | .subscribe x _ | .unsubscribe x _ | .get x => decide (made ≤ x)
  | _ => true

/-- The pump reads this stream. -/
def reads (name : Str) (c : Conn) : ConnInput → Bool
  | .pump (.frame _) => decide (c.stream = some name)
  | _ => false

/-- A call of the connection on the stream `name`. The rest of a DESCRIBE's `wait_ready` is left
open: its answer may hold any parameter sets. -/
def call (name : Str) (now : ℚ) (w : World) : Effect → Option World
  | .subscribe s x => if s = name then (w.step (.subscribe x now)).map (·.1) else some w
  | .unsubscribe s x => if s = name then (w.step (.unsubscribe x now)).map (·.1) else some w
  | .touch s => if s = name then (w.step (.touch now)).map (·.1) else some w
  | _ => some w

def calls (name : Str) (now : ℚ) : World → List Effect → Option World
  | w, [] => some w
  | w, e :: es => (call name now w e).bind fun w => calls name now w es

def step (srv : Server) (name : Str) (s : System) :
    SystemInput → Option (System × List SystemOutput)
  | .hub i =>
    if others s.conn.made i then
      (s.world.step i).map fun r =>
        ({ s with world := r.1 },
          (delivered i).map .delivered ++ (s.world.observe i r.2).map .hub)
    else none
  | .conn i now =>
    if reads name s.conn i then none
    else
      (s.conn.step srv i).bind fun r =>
        (calls name now s.world r.2).map fun w => (⟨w, r.1⟩, r.2.map .conn)
  | .get =>
    if s.conn.stream = some name then
      s.conn.sub.bind fun n => (s.world.head? n).bind fun item =>
        (s.conn.step srv (.pump (.frame item))).map fun r =>
          (⟨s.world.get n, r.1⟩, [.read n item].map .hub ++ r.2.map .conn)
    else none

def fresh (alwaysOn : Bool) (linger : ℚ) (peer : Option Str) (ssrc : Nat) : System :=
  ⟨World.fresh alwaysOn linger, Conn.fresh peer ssrc⟩

/-! The histories of the parts. -/

def hubOf (h : List SystemOutput) : List World.FanOutput :=
  h.filterMap fun
    | .hub o => some o
    | _ => none

def connOf (h : List SystemOutput) : List Effect :=
  h.filterMap fun
    | .conn e => some e
    | _ => none

/-- The frames that were relayed: those with a NAL. -/
def frames (h : List SystemOutput) : List VideoFrame :=
  h.filterMap fun
    | .delivered f => if frameNals f.payload = [] then none else some f
    | _ => none

section
variable (h h' : List SystemOutput) (o : List World.FanOutput) (es : List Effect)

@[simp] theorem hubOf_append : hubOf (h ++ h') = hubOf h ++ hubOf h' := List.filterMap_append

@[simp] theorem connOf_append : connOf (h ++ h') = connOf h ++ connOf h' := List.filterMap_append

@[simp] theorem frames_append : frames (h ++ h') = frames h ++ frames h' := List.filterMap_append

@[simp] theorem hubOf_hub : hubOf (o.map .hub) = o := by
  rw [hubOf, List.filterMap_map]
  exact List.filterMap_some

@[simp] theorem hubOf_conn : hubOf (es.map .conn) = [] := by
  simp [hubOf, List.filterMap_map]

@[simp] theorem connOf_hub : connOf (o.map .hub) = [] := by
  simp [connOf, List.filterMap_map]

@[simp] theorem connOf_conn : connOf (es.map .conn) = es := by
  rw [connOf, List.filterMap_map]
  exact List.filterMap_some

@[simp] theorem frames_hub : frames (o.map .hub) = [] := by
  simp [frames, List.filterMap_map]

@[simp] theorem frames_conn : frames (es.map .conn) = [] := by
  simp [frames, List.filterMap_map]

end

@[simp] theorem hubOf_delivered (fs : List VideoFrame) : hubOf (fs.map .delivered) = [] := by
  simp [hubOf, List.filterMap_map]

@[simp] theorem connOf_delivered (fs : List VideoFrame) : connOf (fs.map .delivered) = [] := by
  simp [connOf, List.filterMap_map]

/-- What a step of the system is for its parts. -/
inductive SystemStep (srv : Server) (name : Str) (s : System) :
    SystemInput → System → List SystemOutput → Prop
  | hub {i : Input} {w : World} {o : List Relay} : others s.conn.made i = true →
      World.HubStep s.world w i o →
      SystemStep srv name s (.hub i) ⟨w, s.conn⟩
        ((delivered i).map .delivered ++ (s.world.observe i o).map .hub)
  | conn {i : ConnInput} {now : ℚ} {c : Conn} {es : List Effect} {w : World} :
      reads name s.conn i = false → s.conn.step srv i = some (c, es) →
      calls name now s.world es = some w → SystemStep srv name s (.conn i now) ⟨w, c⟩ (es.map .conn)
  | get {n : Nat} {item : HubFrame} {c : Conn} {es : List Effect} :
      s.conn.stream = some name → s.conn.sub = some n → s.world.head? n = some item →
      s.conn.step srv (.pump (.frame item)) = some (c, es) →
      SystemStep srv name s .get ⟨s.world.get n, c⟩ ([.read n item].map .hub ++ es.map .conn)

theorem step_inv {srv : Server} {name : Str} {s s' : System} {i : SystemInput}
    {o : List SystemOutput} (h : s.step srv name i = some (s', o)) :
    SystemStep srv name s i s' o := by
  cases i with
  | hub i =>
    simp only [step, Option.ite_none_right_eq_some, Option.map_eq_some_iff] at h
    obtain ⟨ho, ⟨w, os⟩, hw, he⟩ := h
    cases he
    exact .hub ho (World.hubStep_of_step hw)
  | conn i now =>
    simp only [step, Option.ite_none_left_eq_some, Bool.not_eq_true, Option.bind_eq_some_iff,
      Option.map_eq_some_iff] at h
    obtain ⟨hr, ⟨c, es⟩, hc, w, hw, he⟩ := h
    cases he
    exact .conn hr hc hw
  | get =>
    simp only [step, Option.ite_none_right_eq_some, Option.bind_eq_some_iff,
      Option.map_eq_some_iff] at h
    obtain ⟨hst, n, hn, item, hi, ⟨c, es⟩, hc, he⟩ := h
    cases he
    exact .get hst hn hi hc

/-- What an effect of the connection does to the stream. -/
inductive CallStep (name : Str) (w w' : World) : Effect → Prop
  | subscribes {x : Nat} : x ∉ w.objects → w'.stream.subs = w.stream.subs ++ [{ id := x }] →
      w'.objects = x :: w.objects → World.SetsStay w.stream w'.stream →
      CallStep name w w' (.subscribe name x)
  | unsubscribes {x : Nat} : w'.stream.subs = w.stream.subs.filter (·.id ≠ x) →
      w'.objects = w.objects → World.SetsStay w.stream w'.stream →
      CallStep name w w' (.unsubscribe name x)
  | quiet {e : Effect} : World.Quiet w w' → (∀ x, e ≠ .subscribe name x) →
      (∀ x, e ≠ .unsubscribe name x) → CallStep name w w' e

theorem call_step {name : Str} {now : ℚ} {w w' : World} {e : Effect}
    (h : call name now w e = some w') : CallStep name w w' e := by
  have hquiet : World.Quiet w w := ⟨rfl, rfl, World.setsStay_refl _⟩
  unfold call at h
  split at h
  · split at h
    · rename_i s x hs
      subst hs
      obtain ⟨r, hr, rfl⟩ := Option.map_eq_some_iff.mp h
      simp only [World.step, Option.ite_none_right_eq_some, Option.some.injEq] at hr
      obtain ⟨⟨-, hx⟩, rfl⟩ := hr
      obtain ⟨tasks, task, he⟩ := w.subscribe_eq x now
      rw [he]
      exact .subscribes hx rfl rfl (World.setsStay_refl _)
    · rename_i s x hs
      cases h
      refine .quiet hquiet (fun y he => ?_) (by simp)
      cases he
      exact hs rfl
  · split at h
    · rename_i s x hs
      subst hs
      obtain ⟨r, hr, rfl⟩ := Option.map_eq_some_iff.mp h
      simp only [World.step, Option.ite_none_right_eq_some, Option.some.injEq] at hr
      obtain ⟨-, rfl⟩ := hr
      exact .unsubscribes rfl rfl (World.setsStay_refl _)
    · rename_i s x hs
      cases h
      refine .quiet hquiet (by simp) fun y he => ?_
      cases he
      exact hs rfl
  · split at h
    · obtain ⟨r, hr, rfl⟩ := Option.map_eq_some_iff.mp h
      simp only [World.step, Option.ite_none_right_eq_some, Option.some.injEq] at hr
      obtain ⟨-, rfl⟩ := hr
      exact .quiet (World.quiet_touch w now) (by simp) (by simp)
    · cases h
      exact .quiet hquiet (by simp) (by simp)
  · rename_i hs hu _
    cases h
    exact .quiet hquiet (fun x he => hs name x he) fun x he => hu name x he

/-- Invariant rule for the calls of one step. -/
theorem calls_induction {name : Str} {now : ℚ} {P : World → Prop} {w w' : World}
    {es : List Effect} (h0 : P w)
    (hstep : ∀ w w' e, e ∈ es → P w → CallStep name w w' e → P w')
    (h : calls name now w es = some w') : P w' := by
  induction es generalizing w with
  | nil =>
    cases h
    exact h0
  | cons e es ih =>
    obtain ⟨v, hv, hw⟩ := Option.bind_eq_some_iff.mp h
    have hP := hstep w v e (List.mem_cons_self ..) h0 (call_step hv)
    exact ih hP (fun a b d hd => hstep a b d (List.mem_cons_of_mem e hd)) hw

/-! What holds of the whole history of a system. -/

structure Sound (s : System) (h : List SystemOutput) : Prop where
  fan : s.world.FanInv (hubOf h)
  tidy : s.conn.Tidy
  clean : Conn.AllClean (connOf h)
  cached : Stream.Cached (nalsOf (frames h)) s.world.stream

theorem nalsOf_append (fs gs : List VideoFrame) : nalsOf (fs ++ gs) = nalsOf fs ++ nalsOf gs :=
  List.flatMap_append

theorem cached_setsStay {past : List Bytes} {s s' : Stream} (h : Stream.Cached past s)
    (hs : World.SetsStay s s') : Stream.Cached past s' := by
  rcases hs with ⟨hs, hp⟩ | ⟨hs, hp⟩
  · exact ⟨hs ▸ h.sps, hp ▸ h.pps⟩
  · exact ⟨.inl hs, .inl hp⟩

/-- A frame that is not relayed has no NAL. -/
theorem frames_quiet {i : Input} (h : ∀ t now₁ now₂ f info,
    i = .run t now₁ now₂ (.frame f info) → frameNals f.payload = []) :
    frames ((delivered i).map .delivered) = [] := by
  unfold delivered
  split
  · rename_i t now₁ now₂ f info
    simp [frames, h t now₁ now₂ f info rfl]
  · rfl

theorem Sound.hub {s : System} {h : List SystemOutput} {i : Input} {w : World} {o : List Relay}
    (hs : s.Sound h) (hw : World.HubStep s.world w i o) :
    Sound ⟨w, s.conn⟩
      (h ++ ((delivered i).map .delivered ++ (s.world.observe i o).map .hub)) := by
  refine ⟨?_, hs.tidy, ?_, ?_⟩
  · simpa using hs.fan.observed hw
  · simpa using hs.clean
  · have hstay (hf : frames ((delivered i).map .delivered) = [])
        (hk : World.SetsStay s.world.stream w.stream) : Stream.Cached (nalsOf (frames
          (h ++ ((delivered i).map .delivered ++ (s.world.observe i o).map .hub)))) w.stream := by
      simpa [hf] using cached_setsStay hs.cached hk
    cases hw with
    | quiet hq _ hf => exact hstay (frames_quiet hf) hq.sets
    | @relays t now₁ now₂ f info conn item hn _ _ _ _ hsps hpps =>
      have hf : frames ((delivered (.run t now₁ now₂ (.frame f info))).map .delivered) = [f] := by
        simp [delivered, frames, hn]
      obtain ⟨hsps', hpps'⟩ := hs.cached.cacheSets (frameNals f.payload)
      have hone : nalsOf [f] = frameNals f.payload := List.flatMap_singleton ..
      rw [frames_append, frames_append, hf, frames_hub, List.append_nil, nalsOf_append, hone]
      exact ⟨hsps ▸ hsps', hpps ▸ hpps'⟩
    | gets _ _ hw => exact hstay rfl (.inl ⟨by rw [hw]; rfl, by rw [hw]; rfl⟩)
    | subscribes _ _ _ hk => exact hstay rfl hk
    | unsubscribes _ _ hk => exact hstay rfl hk

theorem Sound.calls {s : System} {h : List SystemOutput} {name : Str} {now : ℚ} {w : World}
    {es : List Effect} (hs : s.Sound h) (hw : calls name now s.world es = some w) :
    w.FanInv (hubOf h) ∧ Stream.Cached (nalsOf (frames h)) w.stream := by
  refine calls_induction (P := fun w =>
    w.FanInv (hubOf h) ∧ Stream.Cached (nalsOf (frames h)) w.stream) ⟨hs.fan, hs.cached⟩ ?_ hw
  rintro v v' e - ⟨hf, hc⟩ hstep
  cases hstep with
  | subscribes hx hsubs hobj hk => exact ⟨hf.subscribe hx hsubs hobj, cached_setsStay hc hk⟩
  | unsubscribes hsubs hobj hk => exact ⟨hf.unsubscribe hsubs hobj, cached_setsStay hc hk⟩
  | quiet hq => exact ⟨hf.congr hq.subs hq.objects, cached_setsStay hc hq.sets⟩

theorem Sound.step {srv : Server} {name : Str} {s s' : System} {h o : List SystemOutput}
    {i : SystemInput} (hs : s.Sound h) (hstep : s.step srv name i = some (s', o))
    (hi : i.Read) : s'.Sound (h ++ o) := by
  cases step_inv hstep with
  | hub _ hw => exact hs.hub hw
  | conn _ hc hw =>
    obtain ⟨hf, hk⟩ := hs.calls hw
    obtain ⟨ht, hclean⟩ := hs.tidy.step hc hi
    refine ⟨by simpa using hf, ht, ?_, by simpa using hk⟩
    simpa using Conn.allClean_append.mpr ⟨hs.clean, hclean⟩
  | @get n item c es _ _ hhead hc =>
    obtain ⟨ht, hclean⟩ := hs.tidy.step hc trivial
    refine ⟨?_, ht, ?_, ?_⟩
    · rw [hubOf_append, hubOf_append, hubOf_hub, hubOf_conn, List.append_nil]
      exact hs.fan.get hhead
    · rw [connOf_append, connOf_append, connOf_hub, connOf_conn, List.nil_append]
      exact Conn.allClean_append.mpr ⟨hs.clean, hclean⟩
    · rw [frames_append, frames_append, frames_hub, frames_conn, List.append_nil, List.append_nil]
      exact ⟨hs.cached.sps, hs.cached.pps⟩

theorem sound_fresh (alwaysOn : Bool) (linger : ℚ) (peer : Option Str) (ssrc : Nat) :
    (fresh alwaysOn linger peer ssrc).Sound [] :=
  ⟨World.fanInv_fresh alwaysOn linger, Conn.tidy_fresh peer ssrc, Conn.allClean_nil,
    ⟨.inl rfl, .inl rfl⟩⟩

end System
end DvrBridge
