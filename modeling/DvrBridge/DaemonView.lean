import DvrBridge.Daemon
import DvrBridge.RtspUnstopped
import DvrBridge.StreamCopyLaw
import DvrBridge.StreamView

/-! The daemon as one of its connections sees it: a stream, with the other connections among its
other users. -/
namespace DvrBridge
open Machine

namespace LiveConn
variable {srv : Server} {s s' : LiveConn} {o : List Effect}

/-- What an input is for the connection without its closed pumps. -/
def plain : LiveInput → Option ConnInput
  | .loop i => some (.loop i)
  | .pump _ i => some (.pump i)
  | .stop | .closer _ _ => none

/-- An unstopped connection steps as `Conn` by the same input. -/
theorem Unstopped.plain_step {i : LiveInput} (h : s.Unstopped) (hi : i ≠ .stop)
    (hs : s.step srv i = some (s', o)) :
    s'.Unstopped ∧ ∃ j, plain i = some j ∧ s.atLoop.step srv j = some (s'.atLoop, o) := by
  cases i with
  | loop i =>
    have hloop : s.loopStep srv i = some (s', o) := hs
    rw [h.loopStep_eq] at hloop
    obtain ⟨⟨c, e⟩, hc, he⟩ := Option.map_eq_some_iff.mp hloop
    obtain ⟨rfl, rfl⟩ := Prod.mk.inj he
    have hat := atLoop_afterLoop h (Conn.loopStep_inv hc)
    refine ⟨(h.forth hi hs).1, .loop i, rfl, ?_⟩
    exact hc.trans (congrArg (fun d => some (d, e)) hat.symm)
  | pump n i =>
    have hpump : s.pumpStep n i = some (s', o) := hs
    obtain ⟨t, ht, hn, hd⟩ := h.running hpump
    rw [h.pumpStep_eq i hn ht hd] at hpump
    obtain ⟨⟨c, e⟩, hc, he⟩ := Option.map_eq_some_iff.mp hpump
    obtain ⟨s₁, hs₁, hat, -⟩ := h.afterPump hn ht hd (Conn.pumpStep_inv hc).2
    rw [hs₁] at he
    obtain ⟨rfl, rfl⟩ := Prod.mk.inj he
    refine ⟨(h.forth hi hs).1, .pump i, rfl, ?_⟩
    rw [hat, Conn.step, atLoop_playTask hn ht]
    exact hc
  | stop => exact absurd rfl hi
  | closer k i => simp [LiveConn.step, closerStep, h.closers] at hs

end LiveConn

namespace Conn

/-- The subscriber that a running pump reads is one of those that were made. -/
def Counted (c : Conn) : Prop :=
  ∀ p, c.playTask = some p → p.pc ≠ .done → ∀ x, c.sub = some x → x < c.made

/-- The subscribers in these effects are among the first `n`. -/
def Below (n : Nat) (es : List Effect) : Prop :=
  ∀ s x, .subscribe s x ∈ es ∨ .unsubscribe s x ∈ es → x < n

section
variable {srv : Server} {c c' : Conn} {i : ConnInput} {es : List Effect}

theorem counted_fresh (peer : Option Str) (ssrc : Nat) : (fresh peer ssrc).Counted :=
  fun _ hp => by cases hp

theorem Exited.below {p : Pump} (h : Exited c p c' es) (hc : ∀ x, c.sub = some x → x < c.made) :
    c'.Counted ∧ Below c'.made es := by
  cases h with
  | unsubscribes hx =>
    refine ⟨fun q hq hd => ?_, fun s y hm => ?_⟩
    · cases hq
      exact absurd rfl hd
    · rcases hm with hm | hm
      · simp at hm
      · simp only [List.mem_singleton, Effect.unsubscribe.injEq] at hm
        obtain ⟨-, rfl⟩ := hm
        exact hc _ hx
  | bare =>
    refine ⟨fun q hq hd => ?_, fun s y hm => by simp at hm⟩
    cases hq
    exact absurd rfl hd

theorem Counted.step (hc : c.Counted) (hs : c.step srv i = some (c', es)) :
    c'.Counted ∧ Below c'.made es := by
  rcases step_cases hs with ⟨j, rfl, hl⟩ | ⟨j, p, rfl, hp, hd, hps⟩
  · rcases hl.keepsPump with ⟨s, -, rfl, -, hsub, -, -, hm⟩ | hk
    · refine ⟨fun _ _ _ x hx => ?_, fun t x hx => ?_⟩
      · rw [hsub, Option.some.injEq] at hx
        omega
      · rcases hx with hx | hx
        · simp only [List.mem_singleton, Effect.subscribe.injEq] at hx
          omega
        · simp at hx
    · refine ⟨fun q hq hd x hx => ?_, fun t x hx => ?_⟩
      · have hbusy : ¬ c.Idle := fun hi => hd (hk.idle hi q hq)
        simp only [Idle, not_forall] at hbusy
        obtain ⟨p, hp, hpd⟩ := hbusy
        obtain ⟨-, hsub, -⟩ := hk.running p hp hpd
        rw [hk.made]
        exact hc p hp hpd x (hsub ▸ hx)
      · rcases hx with hx | hx
        · exact (hk.aside _ hx).elim
        · exact (hk.aside _ hx).elim
  · have hsub := hc p hp hd
    have hsame (hm : c'.made = c.made) (hx : c'.sub = c.sub) (hes : ∀ e ∈ es, ∀ s x,
        e ≠ .subscribe s x ∧ e ≠ .unsubscribe s x) : c'.Counted ∧ Below c'.made es := by
      refine ⟨fun _ _ _ x h => hm ▸ hsub x (hx ▸ h), fun s x h => ?_⟩
      rcases h with h | h
      · exact absurd rfl (hes _ h s x).1
      · exact absurd rfl (hes _ h s x).2
    have hcons (e : Effect) (he : ∀ s x, e ≠ .subscribe s x ∧ e ≠ .unsubscribe s x)
        {o : List Effect} (h : c'.Counted ∧ Below c'.made o) :
        c'.Counted ∧ Below c'.made (e :: o) := by
      refine ⟨h.1, fun s x hm => h.2 s x ?_⟩
      rcases hm with hm | hm
      · exact .inl ((List.mem_cons.mp hm).resolve_left (he s x).1.symm)
      · exact .inr ((List.mem_cons.mp hm).resolve_left (he s x).2.symm)
    cases hps with
    | cancelledGetting _ _ hex | cancelledWaiting _ _ hex | cancelledDraining _ _ hex
    | lost _ _ hex => exact hex.below hsub
    | crashes _ _ _ hex | crashTurn _ _ _ hex => exact hcons _ (by simp) (hex.below hsub)
    | sends => exact hsame rfl rfl (by simp)
    | _ => exact hsame rfl rfl (by simp)

end
end Conn

namespace Daemon
open DvrBridge.System RtspServer

/-! The numbers: those of connection `k` are its own, all others come after `n`. -/

def number (k n y : Nat) : Nat :=
  if y.unpair.1 = k ∧ y.unpair.2 < n then y.unpair.2 else n + y

theorem number_own {k n x : Nat} (h : x < n) : number k n (subscriber k x) = x := by
  simp [number, subscriber, h]

theorem le_number_other {j k : Nat} (n x : Nat) (h : j ≠ k) : n ≤ number k n (subscriber j x) := by
  simp [number, subscriber, h]

theorem number_injective (k n : Nat) : Function.Injective (number k n) := by
  intro y z h
  unfold number at h
  split_ifs at h with hy hz hz
  · rw [← Nat.pair_unpair y, ← Nat.pair_unpair z, hy.1, hz.1, h]
  · omega
  · omega
  · omega

/-- The view of connection `k`, which has made fewer than `n` subscribers; it sees no waits. -/
def view (k n : Nat) : View where
  obj := number k n
  wait := fun _ => none
  obj_inj := number_injective k n
  wait_inj := fun _ _ _ h => by cases h

/-- Connection `k`; `c` before there is one. -/
def plainConn (k : Nat) (c : Conn) (d : Daemon) : Conn := ((d.conn? k).map LiveConn.atLoop).getD c

/-- The stream `name` and connection `k`. Of the waits in `wait_ready` none is seen, not even that
of connection `k`. -/
def sight (name : Str) (k n : Nat) (c : Conn) (d : Daemon) : System :=
  ⟨(d.worlds name).seen (view k n), d.plainConn k c⟩

/-- What a step of the server is. -/
inductive ServeStep (srv : Server) (d : Daemon) (now : ℚ) :
    ServerInput → Daemon → List DaemonOutput → Prop
  | quiet {i : ServerInput} {server : RtspServer} {os : List ServerOutput} :
      (∀ k j, i ≠ .conn k j) → (∀ k, ofConn k os = []) →
      server.pool.sessions = d.server.pool.sessions →
      ServeStep srv d now i ⟨d.worlds, server⟩ (os.map .server)
  | admits {server : RtspServer} {peer : Option Str} {ssrc : Nat} :
      server.pool.sessions = d.server.pool.sessions ++ [LiveConn.fresh peer ssrc] →
      ServeStep srv d now (.client peer ssrc) ⟨d.worlds, server⟩ []
  | moves {k : Nat} {j : LiveInput} {l l' : LiveConn} {es : List Effect} {ws : Str → World}
      {server : RtspServer} : j ≠ .stop → d.conn? k = some l → l.step srv j = some (l', es) →
      calls now d.worlds (es.map (.conn k)) = some ws →
      server.pool.sessions = d.server.pool.sessions.set k l' →
      ServeStep srv d now (.conn k j) ⟨ws, server⟩ ((es.map (.conn k)).map .server)

section
variable {srv : Server} {most : Int} {d d' : Daemon} {o : List DaemonOutput} {now : ℚ}
  {ws ws' : Str → World} {name : Str} {k n : Nat}

theorem calls_quiet {os : List ServerOutput} (h : ∀ k e, .conn k e ∉ os) :
    calls now ws os = some ws := by
  induction os with
  | nil => rfl
  | cons e os ih =>
    have hrest := ih fun k e hm => h k e (List.mem_cons_of_mem _ hm)
    cases e with
    | conn k e => exact absurd (List.mem_cons_self ..) (h k e)
    | refused | found => exact hrest

theorem serve_step {i : ServerInput} (h : d.serve srv most i now = some (d', o))
    (hi : ∀ k, i ≠ .close k) : ServeStep srv d now i d' o := by
  obtain ⟨⟨server, os⟩, hs, h⟩ := Option.bind_eq_some_iff.mp h
  obtain ⟨ws, hws, he⟩ := Option.map_eq_some_iff.mp h
  cases he
  cases RtspServer.step_inv hs with
  | accept | refuses =>
    rw [calls_quiet (by simp)] at hws
    cases hws
    exact .quiet (by simp) (fun _ => rfl) rfl
  | admits _ hp =>
    obtain ⟨-, rfl⟩ := Pool.enter_eq_some.mp hp
    cases hws
    exact .admits rfl
  | conn hj hm =>
    obtain ⟨l, l', hl, hstep, rfl⟩ := Pool.move_eq_some.mp hm
    exact .moves hj hl hstep hws rfl
  | stop =>
    rw [calls_quiet (by simp)] at hws
    cases hws
    exact .quiet (by simp) (fun j => ofConn_found j _) rfl
  | close => exact absurd rfl (hi _)

/-! The calls. -/

theorem calls_cons {j : Nat} {e : Effect} {es : List Effect}
    (h : calls now ws ((e :: es).map (.conn j)) = some ws') :
    ∃ ws₁, call j now ws e = some ws₁ ∧ calls now ws₁ (es.map (.conn j)) = some ws' :=
  Option.bind_eq_some_iff.mp h

/-- A call on the stream, or on another. -/
theorem call_cases {j : Nat} {e : Effect} (h : call j now ws e = some ws') (name : Str) :
    (ws' name = ws name ∧ ∀ i, request j now e ≠ some (name, i)) ∨
      ∃ i o, request j now e = some (name, i) ∧ (ws name).step i = some (ws' name, o) := by
  unfold call at h
  split at h
  · rename_i hr
    cases h
    exact .inl ⟨rfl, by simp [hr]⟩
  · rename_i s i hr
    obtain ⟨⟨w, o⟩, hw, he⟩ := Option.map_eq_some_iff.mp h
    subst he
    by_cases hs : s = name
    · subst hs
      exact .inr ⟨i, o, hr, by rw [Function.update_self, hw]⟩
    · refine .inl ⟨Function.update_of_ne (Ne.symm hs) _ _, fun i' hi => ?_⟩
      rw [hr] at hi
      cases hi
      exact hs rfl

/-- The calls of the connection itself. -/
theorem own_calls {es : List Effect} (hb : Conn.Below n es)
    (h : calls now ws (es.map (.conn k)) = some ws') :
    System.calls name now ((ws name).seen (view k n)) es =
      some ((ws' name).seen (view k n)) := by
  induction es generalizing ws with
  | nil =>
    cases h
    rfl
  | cons e es ih =>
    obtain ⟨ws₁, hcall, hrest⟩ := calls_cons h
    have hb' : Conn.Below n es := fun s x hm => hb s x
      (hm.imp (List.mem_cons_of_mem e) (List.mem_cons_of_mem e))
    refine Option.bind_eq_some_iff.mpr ⟨_, ?_, ih hb' hrest⟩
    rcases call_cases hcall name with ⟨hsame, hno⟩ | ⟨i, o, hr, hstep⟩
    · rw [hsame]
      unfold System.call
      split
      · rename_i s x
        rw [if_neg fun hs => hno _ (by rw [request, hs])]
      · rename_i s x
        rw [if_neg fun hs => hno _ (by rw [request, hs])]
      · rename_i s
        rw [if_neg fun hs => hno _ (by rw [request, hs])]
      · rfl
    · -- a wait is a `touch` under the view
      have htake {j : Input} {e : Effect} (hj : i.seen (view k n) = some j)
          (he : ∀ w : World, System.call name now w e = (w.step j).map (·.1)) :
          System.call name now ((ws name).seen (view k n)) e =
            some ((ws₁ name).seen (view k n)) := by
        rcases World.step_seen (v := view k n) hstep with ⟨hi, -⟩ | ⟨j', hj', hseen⟩
        · rw [hj] at hi
          cases hi
        · rw [hj, Option.some.injEq] at hj'
          subst hj'
          rw [he, hseen, Option.map_some]
      cases e with
      | subscribe s x =>
        cases hr
        refine htake (j := .subscribe x now) ?_ fun w => if_pos rfl
        exact congrArg (fun y => some (Input.subscribe y now))
          (number_own (hb name x (.inl (List.mem_cons_self ..))))
      | unsubscribe s x =>
        cases hr
        refine htake (j := .unsubscribe x now) ?_ fun w => if_pos rfl
        exact congrArg (fun y => some (Input.unsubscribe y now))
          (number_own (hb name x (.inr (List.mem_cons_self ..))))
      | touch s =>
        cases hr
        exact htake (j := .touch now) rfl fun w => if_pos rfl
      | _ => cases hr

/-! A run of the system that does what the daemon has done. -/

/-- An input that does not hand a frame over. -/
def calm : SystemInput → Bool
  | .hub (.run _ _ _ _) => false
  | _ => true

/-- The system gets from `s` to `s'`, with the effects `es` of its connection and no frame handed
over. -/
def Reaches (srv : Server) (name : Str) (s s' : System) (es : List Effect) : Prop :=
  ∃ js os, (∀ j ∈ js, j.Read ∧ calm j = true) ∧
    run (System.step srv name) s js = some (s', os) ∧ connOf os = es ∧ frames os = []

theorem Reaches.refl (s : System) : Reaches srv name s s [] := ⟨[], [], by simp, rfl, rfl, rfl⟩

/-- A step first, with no effect of the connection. -/
theorem Reaches.cons {s s₁ s' : System} {i : SystemInput} {o₁ : List SystemOutput}
    {es : List Effect} (h : Reaches srv name s₁ s' es)
    (hs : System.step srv name s i = some (s₁, o₁)) (hi : i.Read) (hcalm : calm i = true)
    (hc : connOf o₁ = []) (hf : frames o₁ = []) : Reaches srv name s s' es := by
  obtain ⟨js, os, hjs, hrun, hconn, hframes⟩ := h
  refine ⟨i :: js, o₁ ++ os, List.forall_mem_cons.mpr ⟨⟨hi, hcalm⟩, hjs⟩,
    (run_cons_iff ..).mpr ⟨s₁, o₁, os, hs, hrun, rfl⟩, ?_, ?_⟩
  · rw [connOf_append, hc, hconn, List.nil_append]
  · rw [frames_append, hf, hframes, List.nil_append]

theorem Reaches.single {s s' : System} {i : SystemInput} {o : List SystemOutput}
    (hs : System.step srv name s i = some (s', o)) (hi : i.Read) (hcalm : calm i = true)
    (hf : frames o = []) : Reaches srv name s s' (connOf o) :=
  ⟨[i], o, List.forall_mem_singleton.mpr ⟨hi, hcalm⟩,
    (run_cons_iff ..).mpr ⟨s', o, [], hs, rfl, (List.append_nil o).symm⟩, rfl, hf⟩

/-- A step of the stream that is none of the connection's. -/
theorem hub_seen (srv : Server) (name : Str) {v : View} {w w' : World} {i i' : Input}
    {os : List Relay} {c : Conn}
    (hw : w.step i = some (w', os)) (hi : i.seen v = some i') (ho : others c.made i' = true) :
    ∃ o, System.step srv name ⟨w.seen v, c⟩ (.hub i') = some (⟨w'.seen v, c⟩, o) ∧
      connOf o = [] ∧ frames o = frames ((delivered i').map .delivered) := by
  rcases World.step_seen (v := v) hw with ⟨hno, -⟩ | ⟨j, hj, hseen⟩
  · rw [hi] at hno
    cases hno
  · rw [hi, Option.some.injEq] at hj
    subst hj
    refine ⟨_, by rw [System.step, if_pos ho, hseen, Option.map_some], ?_, ?_⟩
    · simp
    · simp

/-- The calls of another connection. -/
theorem other_calls {j : Nat} (hj : j ≠ k) {c : Conn} (hc : c.made ≤ n) {es : List Effect}
    (h : calls now ws (es.map (.conn j)) = some ws') :
    Reaches srv name ⟨(ws name).seen (view k n), c⟩ ⟨(ws' name).seen (view k n), c⟩ [] := by
  induction es generalizing ws with
  | nil =>
    cases h
    exact .refl _
  | cons e es ih =>
    obtain ⟨ws₁, hcall, hrest⟩ := calls_cons h
    have hrest := ih hrest
    rcases call_cases hcall name with ⟨hsame, -⟩ | ⟨i, o, hr, hstep⟩
    · exact hsame ▸ hrest
    · have htake {i' : Input} (hi : i.seen (view k n) = some i') (ho : others c.made i' = true)
          (hcalm : calm (.hub i') = true) (hnone : delivered i' = []) :
          Reaches srv name ⟨(ws name).seen (view k n), c⟩ ⟨(ws' name).seen (view k n), c⟩ [] := by
        obtain ⟨o₁, hone, hc₁, hf₁⟩ := hub_seen srv name hstep hi ho
        refine hrest.cons hone trivial hcalm hc₁ ?_
        rw [hf₁, hnone]
        rfl
      have hle (x : Nat) : decide (c.made ≤ (view k n).obj (subscriber j x)) = true :=
        decide_eq_true (hc.trans (le_number_other n x hj))
      cases e with
      | subscribe s x =>
        cases hr
        exact htake rfl (hle x) rfl rfl
      | unsubscribe s x =>
        cases hr
        exact htake rfl (hle x) rfl rfl
      | touch s =>
        cases hr
        exact htake rfl rfl rfl rfl
      | _ => cases hr

/-- The pump takes an item: no call on a stream. -/
theorem frame_calls (ws : Str → World) (now : ℚ) {c c' : Conn} {item : HubFrame}
    {es : List Effect} {j : Nat}
    (h : c.step srv (.pump (.frame item)) = some (c', es)) :
    calls now ws (es.map (.conn j)) = some ws := by
  have hquiet : ∀ e ∈ es, request j now e = none := by
    rcases Conn.step_cases h with ⟨i, hi, -⟩ | ⟨i, p, hi, -, -, hp⟩
    · cases hi
    · cases hi
      intro e he
      cases hp with
      | writes | queues | drops => simp_all [request]
      | sends =>
        obtain ⟨pkt, -, rfl⟩ := List.mem_map.mp he
        rfl
  clear h
  induction es with
  | nil => rfl
  | cons e es ih =>
    obtain ⟨he, hes⟩ := List.forall_mem_cons.mp hquiet
    refine Option.bind_eq_some_iff.mpr ⟨ws, ?_, ih hes⟩
    simp only [call, he]

theorem step_get {w : World} {x : Nat} {item : HubFrame} (h : w.head? x = some item) :
    w.step (.get x) = some (w.get x, []) := by
  refine if_pos (List.any_eq_true.mpr ?_)
  obtain ⟨sub, hsub, hq⟩ := Option.bind_eq_some_iff.mp h
  refine ⟨sub, List.mem_of_find?_eq_some hsub, decide_eq_true ⟨?_, ?_⟩⟩
  · simpa using List.find?_some hsub
  · rintro hnil
    rw [hnil] at hq
    cases hq

theorem frames_delivered (name : Str) (fs : List VideoFrame) :
    framesOf name (fs.map (.delivered name)) = frames (fs.map .delivered) := by
  rw [framesOf, frames, List.filterMap_map, List.filterMap_map]
  refine List.filterMap_congr fun f _ => ?_
  by_cases h : frameNals f.payload = [] <;> simp [h]

theorem framesOf_other {s : Str} (h : s ≠ name) (fs : List VideoFrame) :
    framesOf name (fs.map (.delivered s)) = [] := by
  rw [framesOf, List.filterMap_map, List.filterMap_eq_nil_iff]
  intro f _
  simp [h]

theorem effectsOf_conn (j : Nat) (es : List Effect) :
    effectsOf k ((es.map (.conn j)).map .server) = if j = k then es else [] := by
  rw [effectsOf, serverOf_server, ofConn_conn]

theorem conn?_set {server : RtspServer} {ws : Str → World} {j : Nat} {l' : LiveConn}
    (h : server.pool.sessions = d.server.pool.sessions.set j l') (hj : j ≠ k) :
    (⟨ws, server⟩ : Daemon).conn? k = d.conn? k := by
  rw [conn?, h, List.getElem?_set_ne hj]
  rfl

theorem conn?_set_self {server : RtspServer} {ws : Str → World} {l l' : LiveConn}
    (h : server.pool.sessions = d.server.pool.sessions.set k l') (hl : d.conn? k = some l) :
    (⟨ws, server⟩ : Daemon).conn? k = some l' := by
  rw [conn?, h, List.getElem?_set_self (List.getElem?_eq_some_iff.mp hl).1]

/-- Another connection steps. -/
theorem ServeStep.other {c : Conn} {j : Nat} {i : LiveInput}
    (hs : ServeStep srv d now (.conn j i) d' o) (name : Str) (hj : j ≠ k)
    (hn : (d'.plainConn k c).made ≤ n) :
    d'.plainConn k c = d.plainConn k c ∧ effectsOf k o = [] ∧ framesOf name o = [] ∧
      Reaches srv name (d.sight name k n c) (d'.sight name k n c) [] := by
  cases hs with
  | quiet hno => exact absurd rfl (hno j i)
  | @moves _ _ _ _ _ ws server _ _ _ hcalls hset =>
    have hconn : (⟨ws, server⟩ : Daemon).plainConn k c = d.plainConn k c := by
      rw [plainConn, conn?_set hset hj]
      rfl
    refine ⟨hconn, by rw [effectsOf_conn, if_neg hj], framesOf_server _ name, ?_⟩
    rw [hconn] at hn
    rw [sight, sight, hconn]
    exact other_calls hj hn hcalls

/-- Connection `k` steps. -/
theorem ServeStep.own {i : LiveInput} (hs : ServeStep srv d now (.conn k i) d' o) (name : Str)
    (hl : ∀ l, d.conn? k = some l → l.Unstopped) :
    ∃ l l' j es, d.conn? k = some l ∧ d'.conn? k = some l' ∧ LiveConn.plain i = some j ∧
      l.atLoop.step srv j = some (l'.atLoop, es) ∧
      calls now d.worlds (es.map (.conn k)) = some d'.worlds ∧ effectsOf k o = es ∧
      framesOf name o = [] := by
  cases hs with
  | quiet hno => exact absurd rfl (hno k i)
  | @moves _ _ l l' es _ _ hstop hk hstep hcalls hset =>
    obtain ⟨-, j, hj, hplain⟩ := (hl l hk).plain_step hstop hstep
    exact ⟨l, l', j, es, hk, conn?_set_self hset hk, hj, hplain, hcalls,
      by rw [effectsOf_conn, if_pos rfl], framesOf_server _ name⟩

theorem plainConn_of_some {c : Conn} {l : LiveConn} (hl : d.conn? k = some l) :
    d.plainConn k c = l.atLoop := by
  rw [plainConn, hl]
  rfl

/-- A step of the connection's own, but for the frames that it takes off this stream. -/
theorem step_own (name : Str) {c : Conn} {l l' : LiveConn} {j : ConnInput} {es : List Effect}
    (hl : d.conn? k = some l) (hl' : d'.conn? k = some l') (hc : l.atLoop.Counted)
    (hn : (d'.plainConn k c).made ≤ n) (hreads : reads name l.atLoop j = false)
    (hstep : l.atLoop.step srv j = some (l'.atLoop, es))
    (hcalls : calls now d.worlds (es.map (.conn k)) = some d'.worlds) :
    System.step srv name (d.sight name k n c) (.conn j now) =
      some (d'.sight name k n c, es.map .conn) := by
  rw [plainConn_of_some hl'] at hn
  have hbelow : Conn.Below n es := fun s x hm => ((hc.step hstep).2 s x hm).trans_le hn
  rw [sight, sight, plainConn_of_some hl, plainConn_of_some hl']
  refine (if_neg (by simp [hreads])).trans ?_
  rw [hstep, Option.bind_some]
  simp only
  rw [own_calls hbelow hcalls, Option.map_some]

/-- A view of a stream that has not moved. -/
theorem sight_move_of_ne {c : Conn} {s : Str} {w : World} (hs : s ≠ name) :
    (d.move s w).sight name k n c = d.sight name k n c := by
  rw [sight, move_of_ne hs]
  rfl

theorem sight_move_self {c : Conn} {w : World} :
    (d.move name w).sight name k n c = ⟨w.seen (view k n), d.plainConn k c⟩ := by
  rw [sight, move_self]
  rfl

/-- A move of a stream. -/
theorem hub_reaches (srv : Server) (name : Str) {c : Conn} {s : Str} {i : Input} {w : World}
    {os : List Relay}
    (hu : i.ofUser = false) (hw : (d.worlds s).step i = some (w, os)) :
    ((d.move s w).sight name k n c = d.sight name k n c ∧
      framesOf name ((delivered i).map (.delivered s)) = []) ∨
    ∃ o, System.step srv name (d.sight name k n c) (.hub i) =
        some ((d.move s w).sight name k n c, o) ∧ connOf o = [] ∧
      frames o = framesOf name ((delivered i).map (.delivered s)) := by
  by_cases hs : s = name
  · subst hs
    have hi : i.seen (view k n) = some i ∧ others (d.plainConn k c).made i = true := by
      cases i <;> first | exact ⟨rfl, rfl⟩ | cases hu
    obtain ⟨o, hstep, hco, hfr⟩ := hub_seen srv s hw hi.1 hi.2
    rw [sight_move_self, frames_delivered]
    exact .inr ⟨o, hstep, hco, hfr⟩
  · exact .inl ⟨sight_move_of_ne hs, framesOf_other hs _⟩

/-- The end of a wait is not seen. -/
theorem sight_wakes {c : Conn} {j : Nat} {s : Str} {i : Input} {w : World}
    (hi : i = .resumed j ∨ i = .waitTimeout j) (hw : (d.worlds s).step i = some (w, [])) :
    (d.move s w).sight name k n c = d.sight name k n c := by
  by_cases hs : s = name
  · subst hs
    rw [sight_move_self, sight]
    rcases World.step_seen (v := view k n) hw with ⟨-, hseen, -⟩ | ⟨i', hi', -⟩
    · rw [hseen]
    · rcases hi with rfl | rfl <;> cases hi'
  · exact sight_move_of_ne hs

/-- A step of the server that is none of a connection. -/
theorem ServeStep.sight {c : Conn} {i : ServerInput} (hs : ServeStep srv d now i d' o) (name : Str)
    (n : Nat) (hi : ∀ j i', i ≠ .conn j i')
    (hnew : ∀ l, d.conn? k = none → d'.conn? k = some l → l.atLoop = c) :
    d'.sight name k n c = d.sight name k n c ∧ effectsOf k o = [] ∧ framesOf name o = [] := by
  cases hs with
  | @quiet _ server os _ hos hsessions =>
    have hk : (⟨d.worlds, server⟩ : Daemon).conn? k = d.conn? k := by
      rw [conn?, hsessions]
      rfl
    refine ⟨?_, by rw [effectsOf, serverOf_server, hos], framesOf_server os name⟩
    rw [Daemon.sight, Daemon.sight, plainConn, plainConn, hk]
  | @admits server peer ssrc hsessions =>
    refine ⟨congrArg (System.mk _) ?_, rfl, rfl⟩
    have hk : (⟨d.worlds, server⟩ : Daemon).conn? k =
        (d.server.pool.sessions ++ [LiveConn.fresh peer ssrc])[k]? := by
      rw [conn?, hsessions]
    rcases hd : d.conn? k with - | l
    · rcases hd' : (⟨d.worlds, server⟩ : Daemon).conn? k with - | l
      · rw [plainConn, plainConn, hd, hd']
      · rw [plainConn_of_some hd', plainConn, hd]
        exact hnew l hd hd'
    · have hlt := (List.getElem?_eq_some_iff.mp hd).1
      rw [List.getElem?_append_left hlt] at hk
      rw [plainConn_of_some hd, plainConn_of_some (hk.trans hd)]
  | moves => exact absurd rfl (hi _ _)

/-- A step of the server. -/
theorem ServeStep.reaches {c : Conn} {i : ServerInput} (hs : ServeStep srv d now i d' o)
    (hserving : Serving (.server i now))
    (hframe : ∀ k m item, i ≠ .conn k (.pump m (.frame item)))
    (hl : ∀ l, d.conn? k = some l → l.Unstopped ∧ l.atLoop.Counted)
    (hnew : ∀ l, d.conn? k = none → d'.conn? k = some l → l.atLoop = c)
    (hn : (d'.plainConn k c).made ≤ n) :
    Reaches srv name (d.sight name k n c) (d'.sight name k n c) (effectsOf k o) ∧
      framesOf name o = [] := by
  by_cases hconn : ∃ j i', i = .conn j i'
  · obtain ⟨j, i', rfl⟩ := hconn
    by_cases hj : j = k
    · subst hj
      obtain ⟨l, l', i₂, es, hk, hk', hplain, hown, hcalls, rfl, hfr⟩ :=
        hs.own name fun l h => (hl l h).1
      have hi₂ : i₂.Read ∧ reads name l.atLoop i₂ = false := by
        cases i' with
        | loop i' =>
          cases hplain
          exact ⟨hserving, rfl⟩
        | pump m i' =>
          cases hplain
          refine ⟨trivial, ?_⟩
          cases i' with
          | frame item => exact absurd rfl (hframe j m item)
          | _ => rfl
        | stop | closer => cases hplain
      have hstep := step_own name (n := n) hk hk' (hl l hk).2 hn hi₂.2 hown hcalls
      have hreach := Reaches.single hstep hi₂.1 rfl (frames_conn _)
      rw [connOf_conn] at hreach
      exact ⟨hreach, hfr⟩
    · obtain ⟨-, heffects, hfr, hreach⟩ := hs.other name hj hn
      rw [heffects]
      exact ⟨hreach, hfr⟩
  · obtain ⟨hsame, heffects, hfr⟩ := hs.sight name n
      (fun j i' he => hconn ⟨j, i', he⟩) hnew
    rw [hsame, heffects]
    exact ⟨.refl _, hfr⟩

/-- A pump takes an item off its queue. -/
theorem reaches_get {c : Conn} {j m x : Nat} {s : Str} {l : LiveConn} {item : HubFrame}
    (hk : d.conn? j = some l) (hst : l.conn.stream = some s) (hx : l.conn.sub = some x)
    (hitem : (d.worlds s).head? (subscriber j x) = some item)
    (hs : ServeStep srv (d.move s ((d.worlds s).get (subscriber j x))) now
      (.conn j (.pump m (.frame item))) d' o)
    (hl : ∀ l, d.conn? k = some l → l.Unstopped ∧ l.atLoop.Counted)
    (hn : (d'.plainConn k c).made ≤ n) :
    Reaches srv name (d.sight name k n c) (d'.sight name k n c) (effectsOf k o) ∧
      framesOf name o = [] := by
  by_cases hj : j = k
  · subst hj
    obtain ⟨l₀, l', i₂, es, hk₀, hk', hplain, hown, hcalls, rfl, hfr⟩ :=
      hs.own name fun l h => (hl l h).1
    have hsame : l₀ = l := Option.some.inj (hk₀.symm.trans hk)
    subst hsame
    cases hplain
    refine ⟨?_, hfr⟩
    by_cases hname : s = name
    · subst hname
      have hworlds := frame_calls (d.move s ((d.worlds s).get (subscriber j x))).worlds
        now (j := j) hown
      have hw : d'.worlds = (d.move s ((d.worlds s).get (subscriber j x))).worlds :=
        Option.some.inj (hcalls.symm.trans hworlds)
      have hxn : x < n := by
        rcases Conn.step_cases hown with ⟨i, hi, -⟩ | ⟨i, p, hi, hp, hd, -⟩
        · cases hi
        · have hmade := System.made_le hown
          have hsub := (hl _ hk).2 p hp hd x hx
          rw [plainConn_of_some hk'] at hn
          omega
      have hobj : (view j n).obj (subscriber j x) = x := number_own hxn
      have hhead := World.head?_seen (v := view j n) (w := d.worlds s) (subscriber j x)
      have hget := World.get_seen (view j n) (d.worlds s) (subscriber j x)
      rw [hobj] at hhead hget
      have hsub : l₀.atLoop.sub = some x := hx
      have hstep : System.step srv s ⟨(d.worlds s).seen (view j n), l₀.atLoop⟩ .get =
          some (⟨((d.worlds s).get (subscriber j x)).seen (view j n), l'.atLoop⟩,
            [.read x item].map .hub ++ (effectsOf j o).map .conn) := by
        refine (if_pos hst).trans ?_
        rw [hsub, Option.bind_some, hhead, hitem, Option.bind_some, hown, Option.map_some, hget]
      have hrun : System.step srv s (d.sight s j n c) .get = some (d'.sight s j n c,
          [.read x item].map .hub ++ (effectsOf j o).map .conn) := by
        rw [sight, sight, plainConn_of_some hk, plainConn_of_some hk', hw, move_self]
        exact hstep
      have hreach := Reaches.single hrun trivial rfl
        (by rw [frames_append, frames_hub, frames_conn, List.nil_append])
      rwa [connOf_append, connOf_hub, connOf_conn, List.nil_append] at hreach
    · have hreads : reads name l₀.atLoop (.pump (.frame item)) = false :=
        decide_eq_false fun he => hname (Option.some.inj (hst.symm.trans he))
      have hread : ConnInput.Read (.pump (.frame item)) := trivial
      have hown' := step_own name (d := d.move s ((d.worlds s).get (subscriber j x))) (n := n) hk₀
        hk' (hl _ hk).2 hn hreads hown hcalls
      rw [sight_move_of_ne hname] at hown'
      have hreach := Reaches.single hown' hread rfl (frames_conn _)
      rwa [connOf_conn] at hreach
  · obtain ⟨hconn, heffects, hfr, hreach⟩ := hs.other name hj hn
    rw [heffects]
    refine ⟨?_, hfr⟩
    by_cases hname : s = name
    · subst hname
      have hmade : (d.plainConn k c).made ≤ (view k n).obj (subscriber j x) := by
        rw [hconn] at hn
        exact hn.trans (le_number_other n x hj)
      obtain ⟨o₁, hone, hc₁, hf₁⟩ := hub_seen srv s (v := view k n)
        (c := d.plainConn k c) (step_get hitem) rfl (decide_eq_true hmade)
      rw [sight_move_self] at hreach
      exact hreach.cons hone trivial rfl hc₁ hf₁
    · rwa [sight_move_of_ne hname] at hreach

/-- The step lemma of the view: what a move is for connection `k` and the stream. -/
theorem Move.reaches {c : Conn} {j : Option ServerInput} (hm : Move srv most d j d' o) (name : Str)
    (hl : ∀ l, d.conn? k = some l → l.Unstopped ∧ l.atLoop.Counted)
    (hnew : ∀ l, d.conn? k = none → d'.conn? k = some l → l.atLoop = c)
    (hn : (d'.plainConn k c).made ≤ n) :
    Reaches srv name (d.sight name k n c) (d'.sight name k n c) (effectsOf k o) ∧
      framesOf name o = [] := by
  cases hm with
  | wakes hi hw =>
    rw [sight_wakes hi hw]
    exact ⟨.refl _, rfl⟩
  | @serves i now _ _ hserving hframe hserve =>
    have hclose : ∀ k, i ≠ .close k := by
      rintro k rfl
      exact hserving
    exact (serve_step hserve hclose).reaches hserving hframe hl hnew hn
  | gets hk hst hx hitem hserve =>
    exact reaches_get hk hst hx hitem (serve_step hserve (by simp)) hl hn

end
end Daemon
end DvrBridge
