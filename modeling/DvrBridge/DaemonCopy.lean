import DvrBridge.DaemonLaw

/-! What a client of the daemon gets of the stream that it plays. -/
namespace DvrBridge
open Machine

namespace System
open World

/-- The subscribers in `w'` are new or have dropped as many items as in `w`. -/
def Spares (w w' : World) : Prop :=
  ∀ sub' ∈ w'.stream.subs, sub'.dropped = 0 ∨
    ∃ sub ∈ w.stream.subs, sub.id = sub'.id ∧ sub.dropped = sub'.dropped

section
variable {w w' w'' : World} {srv : Server} {name : Str} {n : Nat} {s s' : System}
  {i : SystemInput} {h o : List SystemOutput}

theorem Spares.neverFull (hs : Spares w w') (hf : NeverFull n w) : NeverFull n w' := by
  intro sub' hsub' hid
  rcases hs sub' hsub' with h | ⟨sub, hsub, hsid, hd⟩
  · exact h
  · rw [← hd]
    exact hf sub hsub (hsid.trans hid)

theorem Spares.trans (h₁ : Spares w w') (h₂ : Spares w' w'') : Spares w w'' := by
  intro sub'' hsub''
  rcases h₂ sub'' hsub'' with h | ⟨sub', hsub', hid', hd'⟩
  · exact .inl h
  · rcases h₁ sub' hsub' with h | ⟨sub, hsub, hid, hd⟩
    · exact .inl (hd' ▸ h)
    · exact .inr ⟨sub, hsub, hid.trans hid', hd.trans hd'⟩

theorem spares_of_subset (h : ∀ sub ∈ w'.stream.subs, sub ∈ w.stream.subs) : Spares w w' :=
  fun sub hsub => .inr ⟨sub, h sub hsub, rfl, rfl⟩

theorem spares_subscribe {x : Nat} (h : w'.stream.subs = w.stream.subs ++ [{ id := x }]) :
    Spares w w' := by
  intro sub hsub
  rw [h, List.mem_append, List.mem_singleton] at hsub
  rcases hsub with hsub | rfl
  · exact .inr ⟨sub, hsub, rfl, rfl⟩
  · exact .inl rfl

theorem spares_unsubscribe {x : Nat} (h : w'.stream.subs = w.stream.subs.filter (·.id ≠ x)) :
    Spares w w' :=
  spares_of_subset fun _ hsub => (List.mem_filter.mp (h ▸ hsub)).1

theorem spares_get (w : World) (x : Nat) : Spares w (w.get x) := by
  intro sub' hsub'
  obtain ⟨sub, hsub, rfl⟩ := List.mem_map.mp hsub'
  refine .inr ⟨sub, hsub, ?_⟩
  split <;> exact ⟨rfl, rfl⟩

/-- A step that hands no frame over drops no item. -/
theorem spares_calm (hs : s.step srv name i = some (s', o)) (hc : Daemon.calm i = true) :
    Spares s.world s'.world := by
  cases step_inv hs with
  | hub _ hw =>
    cases hw with
    | quiet hq => exact spares_of_subset fun _ hsub => hq.subs ▸ hsub
    | relays => cases hc
    | gets _ _ he => exact he ▸ spares_get s.world _
    | subscribes _ hsubs => exact spares_subscribe hsubs
    | unsubscribes hsubs => exact spares_unsubscribe hsubs
  | conn _ _ hcalls =>
    refine calls_induction (P := Spares s.world) (spares_of_subset fun _ => id) ?_ hcalls
    intro w w' e _ hw hcall
    cases hcall with
    | subscribes _ hsubs => exact hw.trans (spares_subscribe hsubs)
    | unsubscribes hsubs => exact hw.trans (spares_unsubscribe hsubs)
    | quiet hq => exact hw.trans (spares_of_subset fun _ hsub => hq.subs ▸ hsub)
  | get => exact spares_get s.world _

/-- A subscriber has dropped nothing when it is made. -/
theorem neverFull_subscribed (hs : s.Sound h)
    (hstep : s.step srv name i = some (s', [.conn (.subscribe name n)])) :
    NeverFull n s'.world := by
  generalize ho : [SystemOutput.conn (.subscribe name n)] = o at hstep
  have hconn : connOf o = [.subscribe name n] := by rw [← ho]; rfl
  have hhub : hubOf o = [] := by rw [← ho]; rfl
  cases step_inv hstep with
  | hub => simp at hconn
  | get =>
    rw [hubOf_append, hubOf_hub] at hhub
    cases hhub
  | conn _ _ hcalls =>
    rw [connOf_conn] at hconn
    subst hconn
    obtain ⟨v, hv, he⟩ := Option.bind_eq_some_iff.mp hcalls
    cases he
    cases call_step hv with
    | quiet _ hne => exact absurd rfl (hne n)
    | subscribes hx hsubs =>
      intro sub hsub hid
      rw [hsubs, List.mem_append, List.mem_singleton] at hsub
      rcases hsub with hsub | rfl
      · exact absurd (hid ▸ hs.fan.known sub hsub) hx
      · rfl

end
end System

namespace Daemon
open DvrBridge.System RtspServer

section
variable {srv : Server} {most : Int} {d d' : Daemon} {o : List DaemonOutput} {now : ℚ}
  {j : Option ServerInput} {name : Str} {k n x : Nat} {ch : Int}

theorem neverFull_view {w : World} (hx : x < n) :
    NeverFull x (w.seen (view k n)) ↔ NeverFull (subscriber k x) w := by
  constructor
  · intro hf sub hsub hid
    refine hf (sub.seen (view k n)) (List.mem_map_of_mem hsub) ?_
    exact (congrArg (number k n) hid).trans (number_own hx)
  · intro hf sub hsub hid
    obtain ⟨sub, hmem, rfl⟩ := List.mem_map.mp hsub
    exact hf sub hmem (number_injective k n (hid.trans (number_own hx).symm))

/-- A session goes on while no frame is handed over. -/
theorem Reaches.session {s s' : System} {es : List Effect} {h₀ h : List SystemOutput}
    (hr : Reaches srv name s s' es) (hs : Session name x ch h₀ s h) (hf : NeverFull x s.world)
    (hno : ∀ t y, .subscribe t y ∉ es) (hproper : ∀ f ∈ frames h, f.Proper) :
    NeverFull x s'.world ∧
      ∃ os, Session name x ch h₀ s' (h ++ os) ∧ connOf os = es ∧ frames os = [] := by
  obtain ⟨js, os, hjs, hrun, rfl, hframes⟩ := hr
  suffices hend : Session name x ch h₀ s' (h ++ os) ∧ NeverFull x s'.world from
    ⟨hend.2, os, hend.1, rfl, hframes⟩
  refine run_invariant (Q := fun _ g j _ o => (j.Read ∧ calm j = true) ∧ g ++ o <+: os)
    (fun s g => Session name x ch h₀ s (h ++ g) ∧ NeverFull x s.world)
    ⟨by rwa [List.append_nil], hf⟩ ?_
    ((everyStep_of_forall_mem hjs).and (everyStep_begins hrun)) hrun
  rintro s g j s' o ⟨hs, hf⟩ hstep ⟨⟨hread, hcalm⟩, hpre⟩
  have hf' := (spares_calm hstep hcalm).neverFull hf
  obtain ⟨rest, rfl⟩ := hpre
  refine ⟨?_, hf'⟩
  rw [← List.append_assoc]
  refine hs.step hstep hread (fun t y hm => hno t y ?_) (fun f hm => ?_) hf'
  · have hmem : .subscribe t y ∈ connOf o := List.mem_filterMap.mpr ⟨_, hm, rfl⟩
    simp [hmem]
  · rw [frames_append, List.mem_append] at hm
    refine hm.elim (hproper f) fun hm => ?_
    have hempty : f ∈ frames (g ++ o ++ rest) := by simp [hm]
    rw [hframes] at hempty
    cases hempty

/-- Connection `k` plays the stream as its subscriber `x`; `e` are its effects and `fs` the frames
before, `h` is the history since. -/
structure Playing (name : Str) (k x : Nat) (ch : Int) (e : List Effect) (fs : List VideoFrame)
    (c : Conn) (d : Daemon) (h : List DaemonOutput) : Prop where
  live : d.Live
  made : ∃ l, d.conn? k = some l
  spare : NeverFull (subscriber k x) (d.worlds name)
  session : ∀ n, (d.plainConn k c).made ≤ n → ∃ g os,
    Session name x ch (g ++ [.conn (.subscribe name x)]) (d.sight name k n c) os ∧
    connOf g = e ∧ frames g = fs ∧ connOf os = effectsOf k h ∧ frames os = framesOf name h

section
variable {e : List Effect} {fs : List VideoFrame} {c : Conn} {h : List DaemonOutput}

theorem Playing.hub (srv : Server) (hp : Playing name k x ch e fs c d h) {t : Str} {i : Input}
    {w : World} {os : List Relay} (hu : i.ofUser = false) (hw : (d.worlds t).step i = some (w, os))
    (hf : NeverFull (subscriber k x) ((d.move t w).worlds name))
    (hproper : ∀ f ∈ framesOf name h, f.Proper) :
    Playing name k x ch e fs c (d.move t w) (h ++ (delivered i).map (.delivered t)) := by
  refine ⟨hp.live, hp.made, hf, fun n hn => ?_⟩
  obtain ⟨g, o₁, hs, hconn, hframes, heffects, hrelayed⟩ := hp.session n hn
  have hnone : effectsOf k ((delivered i).map (.delivered t)) = [] := by
    rw [effectsOf, serverOf_delivered]
    rfl
  rw [effectsOf_append, hnone, List.append_nil, framesOf_append]
  rcases hub_reaches srv name (k := k) (n := n) (c := c) hu hw with
    ⟨hsame, hno⟩ | ⟨o₂, hstep, hconn₂, hframes₂⟩
  · rw [hsame, hno, List.append_nil]
    exact ⟨g, o₁, hs, hconn, hframes, heffects, hrelayed⟩
  · have hone : SystemInput.Read (.hub i) := trivial
    have hx : x < n := hs.made.trans_le hn
    refine ⟨g, o₁ ++ o₂, hs.step hstep hone (fun t y hm => ?_) ?_ ((neverFull_view hx).mpr hf),
      hconn, hframes, by rw [connOf_append, heffects, hconn₂, List.append_nil],
      by rw [frames_append, hrelayed, hframes₂]⟩
    · have hmem : .subscribe t y ∈ connOf o₂ := List.mem_filterMap.mpr ⟨_, hm, rfl⟩
      rw [hconn₂] at hmem
      cases hmem
    · rwa [hrelayed]

theorem Playing.move (hp : Playing name k x ch e fs c d h) (hm : Move srv most d j d' o)
    (hno : ∀ t y, .subscribe t y ∉ effectsOf k o) (hproper : ∀ f ∈ framesOf name h, f.Proper) :
    Playing name k x ch e fs c d' (h ++ o) := by
  obtain ⟨l, hl⟩ := hp.made
  obtain ⟨l', hl', -⟩ := hp.live.grows hm hl
  have hsome : d.conn? k ≠ none := by simp [hl]
  have hstep (n : Nat) (hn : (d'.plainConn k c).made ≤ n) :
      NeverFull (subscriber k x) (d'.worlds name) ∧ ∃ g os,
        Session name x ch (g ++ [.conn (.subscribe name x)]) (d'.sight name k n c) os ∧
        connOf g = e ∧ frames g = fs ∧ connOf os = effectsOf k (h ++ o) ∧
        frames os = framesOf name (h ++ o) := by
    have hn₀ := (hp.live.made_le hm c fun hk => absurd hk hsome).trans hn
    obtain ⟨g, o₁, hs, hconn, hframes, heffects, hrelayed⟩ := hp.session n hn₀
    obtain ⟨hreach, hnone⟩ := hm.reaches name (hp.live k) (fun _ hk => absurd hk hsome) hn
    have hx : x < n := hs.made.trans_le hn₀
    obtain ⟨hf', o₂, hs', hconn₂, hframes₂⟩ := hreach.session hs ((neverFull_view hx).mpr hp.spare)
      hno (by rwa [hrelayed])
    exact ⟨(neverFull_view hx).mp hf', g, o₁ ++ o₂, hs', hconn, hframes,
      by rw [connOf_append, heffects, hconn₂, effectsOf_append],
      by rw [frames_append, hrelayed, hframes₂, framesOf_append, hnone]⟩
  exact ⟨hp.live.move hm, ⟨l', hl'⟩, (hstep _ le_rfl).1, fun n hn => (hstep n hn).2⟩

theorem framesOf_serve {i : ServerInput} (h : d.serve srv most i now = some (d', o)) (name : Str) :
    framesOf name o = [] := by
  obtain ⟨⟨server, os⟩, -, h⟩ := Option.bind_eq_some_iff.mp h
  obtain ⟨ws, -, he⟩ := Option.map_eq_some_iff.mp h
  cases he
  exact framesOf_server os name

theorem framesOf_move (hm : Move srv most d j d' o) (name : Str) : framesOf name o = [] := by
  cases hm with
  | wakes => rfl
  | serves _ _ hs => exact framesOf_serve hs name
  | gets _ _ _ _ hs => exact framesOf_serve hs name

/-- The step lemma of a connection that plays. -/
theorem Playing.step (hp : Playing name k x ch e fs c d h) {i : DaemonInput}
    (hs : d.step srv most i = some (d', o)) (hi : Serving i)
    (hno : ∀ t y, .subscribe t y ∉ effectsOf k o) (hproper : ∀ f ∈ framesOf name h, f.Proper)
    (hf : NeverFull (subscriber k x) (d'.worlds name)) :
    Playing name k x ch e fs c d' (h ++ o) := by
  cases step_moves hs hi with
  | hub hu hw => exact hp.hub srv hu hw hf hproper
  | one _ hm => exact hp.move hm hno hproper
  | @two _ _ _ _ d₁ _ o₁ o₂ _ h₁ h₂ =>
    rw [effectsOf_append] at hno
    have hmid := hp.move h₁ (fun t y hm => hno t y (List.mem_append_left _ hm)) hproper
    rw [← List.append_assoc]
    refine hmid.move h₂ (fun t y hm => hno t y (List.mem_append_right _ hm)) ?_
    rwa [framesOf_append, framesOf_move h₁, List.append_nil]

end

/-! The beginning. -/

/-- A request loop that has drained a response waits for no stream. -/
theorem drained_pc {c c' : Conn} {es : List Effect} (h : Conn.LoopStep srv c .drained c' es)
    (url s cseq : Str) : c'.pc ≠ .waitReady url s cseq := by
  cases h with
  | drained | playsOn | subscribes => simp
  | playCrashes _ _ _ hs => cases hs <;> simp
  | tearsDown _ hs => cases hs <;> simp
  | quits _ _ hs => cases hs <;> simp

theorem serve_of_drained (hl : d.Live)
    (h : d.step srv most (.server (.conn k (.loop .drained)) now) = some (d', o)) :
    d.serve srv most (.conn k (.loop .drained)) now = some (d', o) := by
  unfold step at h
  obtain ⟨-, h⟩ := Option.ite_none_left_eq_some.mp h
  obtain ⟨⟨d₁, o₁⟩, h₁, h⟩ := Option.bind_eq_some_iff.mp h
  obtain ⟨l, l', j, es, -, hk', hj, hstep, -⟩ :=
    (serve_step h₁ (by simp)).own [] fun l hk => (hl k l hk).1
  cases hj
  have hawaited : d₁.awaited k = none := by
    rw [awaited, hk', Option.bind_some]
    split
    · rename_i url s cseq hpc
      rcases Conn.step_cases hstep with ⟨i, hi, hloop⟩ | ⟨i, p, hi, -⟩
      · cases hi
        exact absurd hpc (drained_pc hloop url s cseq)
      · cases hi
    · rfl
  have hserved : served d d₁ (.conn k (.loop .drained)) = none := by
    simp only [served, hawaited, Option.bind_none, ite_self]
  simp only [hserved, Option.some.injEq] at h
  rw [h₁, h]

section
variable {s₀ : System} {c : Conn} {h : List DaemonOutput}

/-- The subscribe of a PLAY. -/
theorem Mirrors.plays (hs₀ : s₀.Sound []) (hm : Mirrors srv name k s₀ c d h) (hl : d.Live)
    (hsub : d.step srv most (.server (.conn k (.loop .drained)) now) =
      some (d', [.server (.conn k (.subscribe name x))])) {l' : LiveConn} {hi : Int}
    (hk : d'.conn? k = some l') (hch : l'.conn.interleaved = some (ch, hi)) :
    Playing name k x ch (effectsOf k h) (framesOf name h) c d' [] := by
  have hserve := serve_of_drained hl hsub
  have hmove : Move srv most d (some (.conn k (.loop .drained))) d'
      [.server (.conn k (.subscribe name x))] := by
    refine .serves ?_ (by simp) hserve
    exact trivial
  obtain ⟨l, l₁, j, es, hkd, hk₁, hj, hown, hcalls, heffects, -⟩ :=
    (serve_step hserve (by simp)).own name fun l hk => (hl k l hk).1
  rw [hk, Option.some.injEq] at hk₁
  subst hk₁
  cases hj
  have hes : es = [.subscribe name x] := by
    rw [← heffects]
    exact effectsOf_conn (k := k) k [.subscribe name x] |>.trans (if_pos rfl)
  subst hes
  have hsome : d.conn? k ≠ none := by simp [hkd]
  have hbegin (n : Nat) (hn : (d'.plainConn k c).made ≤ n) :
      NeverFull (subscriber k x) (d'.worlds name) ∧ ∃ g os,
        Session name x ch (g ++ [.conn (.subscribe name x)]) (d'.sight name k n c) os ∧
        connOf g = effectsOf k h ∧ frames g = framesOf name h ∧ connOf os = [] ∧
        frames os = [] := by
    have hn₀ := (hl.made_le hmove c fun hk => absurd hk hsome).trans hn
    obtain ⟨js, g, hread, hrun, hconn, hframes⟩ := hm n hn₀
    have hsound : (d.sight name k n c).Sound g := by
      refine run_invariant (Q := fun _ _ i _ _ => i.Read) Sound hs₀
        (fun s h i s' o hs hstep hi => hs.step hstep hi) (everyStep_of_forall_mem hread) hrun
    have hstep := step_own name (c := c) hkd hk (hl k l hkd).2 hn rfl hown hcalls
    have hone : SystemInput.Read (.conn (.loop .drained) now) := trivial
    have hat : (d'.sight name k n c).conn.interleaved = some (ch, hi) := by
      rw [sight, plainConn_of_some hk]
      exact hch
    have hsession := hsound.session hstep hone hat
    exact ⟨(neverFull_view (hsession.made.trans_le hn)).mp (neverFull_subscribed hsound hstep), g,
      [], hsession, hconn, hframes, rfl, rfl⟩
  exact ⟨hl.move hmove, ⟨l', hk⟩, (hbegin _ le_rfl).1, fun n hn => (hbegin n hn).2⟩

end

/-- The daemon copy law. Any number of connections play, describe and leave the streams of the
daemon, and drivers and supervisors of all streams run, in any order of steps. A PLAY of connection
`k` on an interleaved transport subscribes to the stream; until it subscribes again the client's
parts are the answers and packets of this connection in the order in which they were sent, and its
packets give back the access units of the frames that this stream relays from the first keyframe on.
While the subscriber is there, what is missing at the end waits on its queue or in the hands of the
pump. -/
theorem daemon_copies (srv : Server) (most : Int) (streams : Str → Bool × ℚ) (name : Str)
    (is₁ is₂ : List DaemonInput) (now : ℚ) (d₀ d₁ d₂ : Daemon) (h₁ h₂ : List DaemonOutput)
    (k x : Nat) (l₁ l₂ : LiveConn) (ch hi : Int)
    (hr₁ : run (step srv most) (fresh streams) is₁ = some (d₀, h₁))
    (hsub : d₀.step srv most (.server (.conn k (.loop .drained)) now) =
      some (d₁, [.server (.conn k (.subscribe name x))]))
    (hk₁ : d₁.conn? k = some l₁) (hch : l₁.conn.interleaved = some (ch, hi))
    (hr₂ : run (step srv most) d₁ is₂ = some (d₂, h₂)) (hk₂ : d₂.conn? k = some l₂)
    (hserving : ∀ i ∈ is₁ ++ is₂, Serving i)
    (hone : ∀ s y, .subscribe s y ∉ effectsOf k h₂)
    (hproper : ∀ f ∈ framesOf name h₂, f.Proper)
    (hfull : EveryStep (step srv most)
      (fun _ _ _ d _ => NeverFull (subscriber k x) (d.worlds name)) d₁ is₂) :
    ∃ session items aus rest,
      Client.receive (Conn.wire (effectsOf k h₁ ++ [.subscribe name x] ++ effectsOf k h₂)) =
        some (Conn.parts (effectsOf k h₁) ++ session) ∧
      Relays (nalsOf (framesOf name h₁) ++
          nalsOf ((framesOf name h₂).takeWhile fun f => !f.keyframe))
        ((framesOf name h₂).dropWhile fun f => !f.keyframe) items ∧
      Depacketizer.feedAll {} (Client.packetsOn ch.toNat session) = some { units := aus } ∧
      items.map (·.nals) = aus ++ rest ∧
      (.closeWriter ∉ effectsOf k h₁ → session = Conn.parts (effectsOf k h₂) ∧
        ∀ sub ∈ (d₂.worlds name).stream.subs, sub.id = subscriber k x →
          rest.length = l₂.atLoop.inHand + sub.queue.length) := by
  obtain ⟨hl₀, hmirrored⟩ :=
    mirrored_run (fun i hi => hserving i (List.mem_append_left _ hi)) hr₁ name k
  obtain ⟨peer, ssrc, hm⟩ : ∃ peer ssrc, Mirrors srv name k
      (System.fresh (streams name).1 (streams name).2 peer ssrc) (Conn.fresh peer ssrc) d₀ h₁ := by
    rcases hmirrored with ⟨-, hm⟩ | ⟨-, hm⟩
    · exact ⟨none, 0, hm none 0⟩
    · exact hm
  have hbegin := hm.plays (sound_fresh _ _ _ _) hl₀ hsub hk₁ hch
  have hplaying : Playing name k x ch (effectsOf k h₁) (framesOf name h₁) (Conn.fresh peer ssrc)
      d₂ h₂ := by
    refine run_invariant
      (Q := fun _ h i d o =>
        (Serving i ∧ NeverFull (subscriber k x) (d.worlds name)) ∧ h ++ o <+: h₂)
      (Playing name k x ch (effectsOf k h₁) (framesOf name h₁) (Conn.fresh peer ssrc)) hbegin ?_
      (((everyStep_of_forall_mem ?_).and hfull).and (everyStep_begins hr₂)) hr₂
    · rintro d h i d' o hp hstep ⟨⟨hi, hf⟩, rest, rfl⟩
      refine hp.step hstep hi (fun t y hm => hone t y ?_) (fun f hm => hproper f ?_) hf
      · simp [hm]
      · simp [hm]
    · exact fun i hi => hserving i (List.mem_append_right _ hi)
  obtain ⟨g, os, hs, hconn, hframes, heffects, hrelayed⟩ := hplaying.session _ le_rfl
  obtain ⟨session, aus, rest, hreceive, hfeed, hshown, hrest⟩ := hs.received
  have hrelays := hs.relays.fromKey
  have hpast : frames (g ++ [.conn (.subscribe name x)]) = framesOf name h₁ := by
    rw [frames_append, hframes]
    exact List.append_nil _
  rw [hpast, hrelayed] at hrelays
  have hgconn : connOf (g ++ [.conn (.subscribe name x)]) =
      effectsOf k h₁ ++ [.subscribe name x] := by
    rw [connOf_append, hconn]
    rfl
  rw [connOf_append, hgconn, heffects, hconn] at hreceive
  rw [hconn, heffects] at hrest
  refine ⟨session, _, aus, rest, hreceive, hrelays, hfeed, hshown, fun hopen => ?_⟩
  obtain ⟨hparts, hqueue⟩ := hrest hopen
  refine ⟨hparts, fun sub hsub hid => ?_⟩
  have hx : x < (d₂.plainConn k (Conn.fresh peer ssrc)).made := hs.made
  have hlast := hqueue (sub.seen (view k (d₂.plainConn k (Conn.fresh peer ssrc)).made))
    (List.mem_map_of_mem hsub) ((congrArg (number k _) hid).trans (number_own hx))
  rw [sight, plainConn_of_some hk₂] at hlast
  exact hlast

end

/-- The second client plays; the first has its DESCRIBE answered and plays too. -/
def twoPlay : List DaemonInput :=
  let films (payload : Bytes) (keyframe : Bool) : DaemonInput :=
    .hub "cam".toList (.run 0 0 0 (.frame { payload, keyframe } {}))
  [.server (.conn 1 (.pump 0 .start)) 0, .hub "cam".toList (.run 0 0 0 .begin),
    films [0, 0, 1, 0x41, 1] false,
    films [0, 0, 1, 0x67, 0x42, 0, 0x1e, 0, 0, 1, 0x68, 2, 0, 0, 1, 0x65, 3] true,
    .resumed 0 0, drains 0,
    asks 0 "SETUP rtsp://h/cam RTSP/1.0" ["CSeq: 2\r\n", "Transport: RTP/AVP/TCP\r\n"],
    drains 0, asks 0 "PLAY rtsp://h/cam RTSP/1.0" ["CSeq: 3\r\n"], drains 0, .get 1 0 0,
    .server (.conn 1 (.pump 0 .drained)) 0, films [0, 0, 1, 0x65, 4] true,
    .server (.conn 0 (.pump 0 .start)) 0, .get 0 0 0, .get 1 0 0]

theorem twoPlay_serving : ∀ i ∈ twoPlay, Serving i := by
  have hlines : ∀ l ∈ ["CSeq: 2\r\n", "Transport: RTP/AVP/TCP\r\n",
      "CSeq: 3\r\n"].map String.toList, ReadLine l := by
    unfold ReadLine
    decide +kernel
  simp only [List.map_cons, List.map_nil, List.forall_mem_cons] at hlines
  obtain ⟨hcseq₂, htransport, hcseq₃, -⟩ := hlines
  have hsetup := asks_serving 0 "SETUP rtsp://h/cam RTSP/1.0"
    ["CSeq: 2\r\n", "Transport: RTP/AVP/TCP\r\n"]
    (List.forall_mem_cons.mpr ⟨hcseq₂, List.forall_mem_singleton.mpr htransport⟩)
  have hplay := asks_serving 0 "PLAY rtsp://h/cam RTSP/1.0" ["CSeq: 3\r\n"]
    (List.forall_mem_singleton.mpr hcseq₃)
  simp only [twoPlay, List.forall_mem_cons]
  exact ⟨trivial, trivial, trivial, trivial, trivial, trivial, hsetup, trivial, hplay, trivial,
    trivial, trivial, trivial, trivial, trivial, trivial, by simp⟩

/-- No effect is a subscribe. -/
def noSubscribes : Effect → Bool
  | .subscribe _ _ => false
  | _ => true

theorem two_run :
    ((run (step viewerServer 8) (fresh fun _ => (false, 10)) twoStart).bind fun r =>
      (r.1.step viewerServer 8 (drains 1)).bind fun q => (q.1.conn? 1).bind fun l =>
        (run (step viewerServer 8) q.1 twoPlay).bind fun t : Daemon × List DaemonOutput =>
          (t.1.conn? 1).map fun _ =>
            (q.2, decide (l.conn.interleaved = some (0, 1) ∧
              (framesOf "cam".toList t.2).length = 3 ∧
              (effectsOf 1 t.2).all noSubscribes = true ∧
              (∀ f ∈ framesOf "cam".toList t.2, f.Proper) ∧
              checkEvery (step viewerServer 8) (fun _ _ _ d _ =>
                decide (NeverFull (subscriber 1 0) (d.worlds "cam".toList))) q.1 [] twoPlay =
                  true))) =
      some ([.server (.conn 1 (.subscribe "cam".toList 0))], true) := by
  decide +kernel

theorem daemon_copies_two : ∃ d₀ d₁ d₂ h₁ h₂ l₂,
    run (step viewerServer 8) (fresh fun _ => (false, 10)) twoStart = some (d₀, h₁) ∧
    d₀.step viewerServer 8 (drains 1) =
      some (d₁, [.server (.conn 1 (.subscribe "cam".toList 0))]) ∧
    run (step viewerServer 8) d₁ twoPlay = some (d₂, h₂) ∧ d₂.conn? 1 = some l₂ ∧
    (framesOf "cam".toList h₂).length = 3 ∧
    ∃ session items aus rest,
      Client.receive (Conn.wire
          (effectsOf 1 h₁ ++ [.subscribe "cam".toList 0] ++ effectsOf 1 h₂)) =
        some (Conn.parts (effectsOf 1 h₁) ++ session) ∧
      Relays (nalsOf (framesOf "cam".toList h₁) ++
          nalsOf ((framesOf "cam".toList h₂).takeWhile fun f => !f.keyframe))
        ((framesOf "cam".toList h₂).dropWhile fun f => !f.keyframe) items ∧
      Depacketizer.feedAll {} (Client.packetsOn (0 : Int).toNat session) = some { units := aus } ∧
      items.map (·.nals) = aus ++ rest ∧
      (.closeWriter ∉ effectsOf 1 h₁ → session = Conn.parts (effectsOf 1 h₂) ∧
        ∀ sub ∈ (d₂.worlds "cam".toList).stream.subs, sub.id = subscriber 1 0 →
          rest.length = l₂.atLoop.inHand + sub.queue.length) := by
  obtain ⟨⟨d₀, h₁⟩, hr₁, hrest⟩ := Option.bind_eq_some_iff.mp two_run
  obtain ⟨⟨d₁, o⟩, hsub, hrest⟩ := Option.bind_eq_some_iff.mp hrest
  obtain ⟨l₁, hk₁, hrest⟩ := Option.bind_eq_some_iff.mp hrest
  obtain ⟨⟨d₂, h₂⟩, hr₂, hrest⟩ := Option.bind_eq_some_iff.mp hrest
  obtain ⟨l₂, hk₂, he⟩ := Option.map_eq_some_iff.mp hrest
  rw [Prod.mk.injEq, decide_eq_true_eq] at he
  obtain ⟨rfl, hch, hlen, hno, hproper, hfull⟩ := he
  refine ⟨d₀, d₁, d₂, h₁, h₂, l₂, hr₁, hsub, hr₂, hk₂, hlen, ?_⟩
  refine daemon_copies viewerServer 8 (fun _ => (false, 10)) "cam".toList twoStart twoPlay 0 d₀ d₁
    d₂ h₁ h₂ 1 0 l₁ l₂ 0 1 hr₁ hsub hk₁ hch hr₂ hk₂ ?_ (fun s y hm => ?_) hproper
    (everyStep_of_checkEvery hfull)
  · exact List.forall_mem_append.mpr ⟨twoStart_serving, twoPlay_serving⟩
  · have := List.all_eq_true.mp hno _ hm
    cases this

end Daemon
end DvrBridge
