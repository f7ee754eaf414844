import DvrBridge.BridgeLaw
import DvrBridge.DaemonView

/-! Every connection of the daemon copies the stream it plays, whatever the other connections and
the other streams do. -/
namespace DvrBridge.Daemon
open DvrBridge.System Machine RtspServer

section
variable {srv : Server} {most : Int} {d d' : Daemon} {o : List DaemonOutput} {now : ℚ}
  {j : Option ServerInput} {name : Str} {k n : Nat}

/-! The connections. -/

/-- Connection `k` stays, is made or takes a step. -/
inductive ConnMoves (srv : Server) (d d' : Daemon) (k : Nat) : Prop
  | stays : d'.conn? k = d.conn? k → ConnMoves srv d d' k
  | begins {peer : Option Str} {ssrc : Nat} : d.conn? k = none →
      d'.conn? k = some (LiveConn.fresh peer ssrc) → ConnMoves srv d d' k
  | steps {l l' : LiveConn} {j : LiveInput} {es : List Effect} : j ≠ .stop → d.conn? k = some l →
      l.step srv j = some (l', es) → d'.conn? k = some l' → ConnMoves srv d d' k

theorem ServeStep.connMoves {i : ServerInput} (hs : ServeStep srv d now i d' o) (k : Nat) :
    ConnMoves srv d d' k := by
  cases hs with
  | @quiet _ server os _ _ hsessions => exact .stays (by rw [conn?, hsessions]; rfl)
  | @admits server peer ssrc hsessions =>
    have hk : (⟨d.worlds, server⟩ : Daemon).conn? k =
        (d.server.pool.sessions ++ [LiveConn.fresh peer ssrc])[k]? := by
      rw [conn?, hsessions]
    rcases lt_trichotomy k d.server.pool.sessions.length with hlt | heq | hgt
    · exact .stays (hk.trans (List.getElem?_append_left hlt))
    · refine @ConnMoves.begins _ _ _ _ peer ssrc ?_ ?_
      · exact List.getElem?_eq_none heq.ge
      · rw [hk, heq, List.getElem?_concat_length]
    · refine .stays (hk.trans ?_)
      rw [List.getElem?_eq_none (by simpa using Nat.succ_le_of_lt hgt)]
      exact (List.getElem?_eq_none hgt.le).symm
  | @moves j _ l l' es ws server hstop hl hstep _ hset =>
    by_cases hj : j = k
    · subst hj
      exact .steps hstop hl hstep (conn?_set_self hset hl)
    · exact .stays (conn?_set hset hj)

theorem Move.connMoves (hm : Move srv most d j d' o) (k : Nat) : ConnMoves srv d d' k := by
  cases hm with
  | wakes => exact .stays rfl
  | @serves i now _ _ hserving _ hserve =>
    have hclose : ∀ k, i ≠ .close k := by
      rintro k rfl
      exact hserving
    exact (serve_step hserve hclose).connMoves k
  | gets _ _ _ _ hserve =>
    cases (serve_step hserve (by simp)).connMoves k with
    | stays h => exact .stays h
    | begins h h' => exact .begins h h'
    | steps hj h hs h' => exact .steps hj h hs h'

/-- Every connection is what its own steps have made of it. -/
def Live (d : Daemon) : Prop := ∀ k l, d.conn? k = some l → l.Unstopped ∧ l.atLoop.Counted

theorem Live.move (hl : d.Live) (hm : Move srv most d j d' o) : d'.Live := by
  intro k l' hk'
  cases hm.connMoves k with
  | stays h => exact hl k l' (h ▸ hk')
  | begins _ h =>
    rw [h, Option.some.injEq] at hk'
    subst hk'
    exact ⟨LiveConn.unstopped_fresh .., Conn.counted_fresh _ _⟩
  | @steps l _ j _ hj h hs h' =>
    rw [h', Option.some.injEq] at hk'
    subst hk'
    obtain ⟨hu, hc⟩ := hl k l h
    obtain ⟨hu', i, -, hplain⟩ := hu.plain_step hj hs
    exact ⟨hu', (hc.step hplain).1⟩

/-- Connections stay, and number their subscribers upwards. -/
theorem Live.grows (hl : d.Live) (hm : Move srv most d j d' o) {l : LiveConn}
    (hk : d.conn? k = some l) : ∃ l', d'.conn? k = some l' ∧ l.atLoop.made ≤ l'.atLoop.made := by
  cases hm.connMoves k with
  | stays h => exact ⟨l, h.trans hk, le_rfl⟩
  | begins h =>
    rw [hk] at h
    cases h
  | @steps l₀ l' j _ hj h hs h' =>
    rw [hk, Option.some.injEq] at h
    subst h
    obtain ⟨-, i, -, hplain⟩ := (hl k l hk).1.plain_step hj hs
    exact ⟨l', h', made_le hplain⟩

theorem Live.made_le (hl : d.Live) (hm : Move srv most d j d' o) (c : Conn)
    (hc : d.conn? k = none → c.made = 0) :
    (d.plainConn k c).made ≤ (d'.plainConn k c).made := by
  rcases hk : d.conn? k with - | l
  · rw [plainConn, hk]
    exact (hc hk).trans_le (Nat.zero_le _)
  · obtain ⟨l', hk', hle⟩ := hl.grows hm hk
    rwa [plainConn_of_some hk, plainConn_of_some hk']

theorem live_fresh (streams : Str → Bool × ℚ) : (fresh streams).Live := by
  intro k l h
  cases h

/-! The refinement: what the daemon does is a run of one stream and one connection, for each. -/

/-- A run of the system from `s` with what `h` has of connection `k` and the stream `name`. -/
def Mirrors (srv : Server) (name : Str) (k : Nat) (s : System) (c : Conn) (d : Daemon)
    (h : List DaemonOutput) : Prop :=
  ∀ n, (d.plainConn k c).made ≤ n → ∃ js os, (∀ j ∈ js, j.Read) ∧
    run (System.step srv name) s js = some (d.sight name k n c, os) ∧
    connOf os = effectsOf k h ∧ frames os = framesOf name h

section
variable {s : System} {c : Conn} {h : List DaemonOutput}

theorem Mirrors.hub (hd : Mirrors srv name k s c d h) {t : Str} {i : Input} {w : World}
    {os : List Relay} (hu : i.ofUser = false) (hw : (d.worlds t).step i = some (w, os)) :
    Mirrors srv name k s c (d.move t w) (h ++ (delivered i).map (.delivered t)) := by
  intro n hn
  obtain ⟨js, o₁, hread, hrun, hconn, hframes⟩ := hd n hn
  have heffects : effectsOf k ((delivered i).map (.delivered t)) = [] := by
    rw [effectsOf, serverOf_delivered]
    rfl
  rw [effectsOf_append, heffects, List.append_nil, framesOf_append]
  rcases hub_reaches srv name (k := k) (n := n) (c := c) hu hw with
    ⟨hsame, hno⟩ | ⟨o₂, hstep, hconn₂, hframes₂⟩
  · rw [hsame, hno, List.append_nil]
    exact ⟨js, o₁, hread, hrun, hconn, hframes⟩
  · have hone : SystemInput.Read (.hub i) := trivial
    refine ⟨js ++ [.hub i], o₁ ++ o₂, List.forall_mem_append.mpr
      ⟨hread, List.forall_mem_singleton.mpr hone⟩,
      (run_snoc_iff ..).mpr ⟨_, o₁, o₂, hrun, hstep, rfl⟩, ?_, ?_⟩
    · rw [connOf_append, hconn, hconn₂, List.append_nil]
    · rw [frames_append, hframes, hframes₂]

theorem Mirrors.move (hd : Mirrors srv name k s c d h) (hl : d.Live) (hm : Move srv most d j d' o)
    (hnew : ∀ l, d.conn? k = none → d'.conn? k = some l → l.atLoop = c)
    (hc : d.conn? k = none → c.made = 0) :
    Mirrors srv name k s c d' (h ++ o) := by
  intro n hn
  obtain ⟨js, o₁, hread, hrun, hconn, hframes⟩ := hd n ((hl.made_le hm c hc).trans hn)
  obtain ⟨⟨js₂, o₂, hread₂, hrun₂, hconn₂, hframes₂⟩, hno⟩ := hm.reaches name (hl k)
    hnew hn
  refine ⟨js ++ js₂, o₁ ++ o₂, List.forall_mem_append.mpr ⟨hread, fun j hj => (hread₂ j hj).1⟩,
    (run_append_iff ..).mpr ⟨_, o₁, o₂, hrun, hrun₂, rfl⟩, ?_, ?_⟩
  · rw [connOf_append, hconn, hconn₂, effectsOf_append]
  · rw [frames_append, hframes, hframes₂, framesOf_append, hno]

end

/-- Before connection `k` is made, it may become any fresh one. -/
def Mirrored (srv : Server) (streams : Str → Bool × ℚ) (name : Str) (k : Nat) (d : Daemon)
    (h : List DaemonOutput) : Prop :=
  let start (peer : Option Str) (ssrc : Nat) : Prop :=
    Mirrors srv name k (System.fresh (streams name).1 (streams name).2 peer ssrc)
      (Conn.fresh peer ssrc) d h
  (d.conn? k = none ∧ ∀ peer ssrc, start peer ssrc) ∨
    (d.conn? k ≠ none ∧ ∃ peer ssrc, start peer ssrc)

theorem mirrored_run {streams : Str → Bool × ℚ} {is : List DaemonInput} {h : List DaemonOutput}
    (hi : ∀ i ∈ is, Serving i) (hr : run (step srv most) (fresh streams) is = some (d, h))
    (name : Str) (k : Nat) : d.Live ∧ Mirrored srv streams name k d h := by
  refine run_moves (fun d h => d.Live ∧ Mirrored srv streams name k d h) ?_ ?_ ?_ hi hr
  · refine ⟨live_fresh streams, .inl ⟨rfl, fun peer ssrc n _ => ?_⟩⟩
    exact ⟨[], [], by simp, rfl, rfl, rfl⟩
  · rintro d h t i w os ⟨hl, hm⟩ hu hw
    refine ⟨hl, hm.imp (fun hm => ⟨hm.1, fun p s => (hm.2 p s).hub hu hw⟩) ?_⟩
    rintro ⟨hk, p, s, hm⟩
    exact ⟨hk, p, s, hm.hub hu hw⟩
  · rintro d h j d' o ⟨hl, hm⟩ hmove
    refine ⟨hl.move hmove, ?_⟩
    rcases hm with ⟨hk, hm⟩ | ⟨hk, p, s, hm⟩
    · have hnone (peer : Option Str) (ssrc : Nat) (hnew : ∀ l, d.conn? k = none →
          d'.conn? k = some l → l.atLoop = Conn.fresh peer ssrc) :=
        (hm peer ssrc).move hl hmove hnew fun _ => rfl
      cases hmove.connMoves k with
      | stays h =>
        have hk' := h.trans hk
        refine .inl ⟨hk', fun p s => hnone p s fun l _ hl' => ?_⟩
        rw [hk'] at hl'
        cases hl'
      | @begins peer ssrc _ h' =>
        refine .inr ⟨by rw [h']; simp, peer, ssrc, hnone peer ssrc fun l _ hl' => ?_⟩
        rw [h', Option.some.injEq] at hl'
        subst hl'
        rfl
      | steps _ h =>
        rw [hk] at h
        cases h
    · refine .inr ⟨?_, p, s, hm.move hl hmove (fun _ h => absurd h hk) fun h => absurd h hk⟩
      obtain ⟨l, hl'⟩ := Option.ne_none_iff_exists'.mp hk
      obtain ⟨l', h', -⟩ := hl.grows hmove hl'
      rw [h']
      simp

/-- The daemon law. A run of the daemon, of all its streams and connections together, is for each
connection and each stream a run of these two alone, with the other connections among the other
users of the stream: the connection has done the same and the stream has relayed the same frames.
Under the connection's view its own subscribers have their own numbers. -/
theorem daemon_refines (srv : Server) (most : Int) (streams : Str → Bool × ℚ)
    (is : List DaemonInput) (d : Daemon) (h : List DaemonOutput)
    (hi : ∀ i ∈ is, Serving i) (hr : run (step srv most) (fresh streams) is = some (d, h))
    (name : Str) (k : Nat) :
    ∃ peer ssrc, ∀ n, (d.plainConn k (Conn.fresh peer ssrc)).made ≤ n → ∃ js os,
      (∀ j ∈ js, j.Read) ∧
      run (System.step srv name) (System.fresh (streams name).1 (streams name).2 peer ssrc) js =
        some (d.sight name k n (Conn.fresh peer ssrc), os) ∧
      connOf os = effectsOf k h ∧ frames os = framesOf name h := by
  obtain ⟨-, ⟨-, hm⟩ | ⟨-, peer, ssrc, hm⟩⟩ := mirrored_run hi hr name k
  · exact ⟨none, 0, hm none 0⟩
  · exact ⟨peer, ssrc, hm⟩

end

/-! Two clients, the first with a DESCRIBE and the second with a PLAY. -/

def asks (k : Nat) (line : String) (headers : List String) : DaemonInput :=
  .server (.conn k (.loop (.request (PyText.encode line.toList)
    (.ofLines (headers.map String.toList)) (hex [0x17, 0x2a])))) 0

theorem asks_serving (k : Nat) (line : String) (headers : List String)
    (h : ∀ l ∈ headers.map String.toList, ReadLine l) : Serving (asks k line headers) :=
  ⟨⟨_, h, rfl⟩, _, rfl⟩

def drains (k : Nat) : DaemonInput := .server (.conn k (.loop .drained)) 0

def twoStart : List DaemonInput :=
  [.server .accept 0, .server (.client none 7) 0, .server .accept 0, .server (.client none 8) 0,
    asks 0 "DESCRIBE rtsp://h/cam RTSP/1.0" ["CSeq: 1\r\n"],
    asks 1 "SETUP rtsp://h/cam RTSP/1.0" ["CSeq: 1\r\n", "Transport: RTP/AVP/TCP\r\n"],
    drains 1, asks 1 "PLAY rtsp://h/cam RTSP/1.0" ["CSeq: 2\r\n"]]

theorem twoStart_serving : ∀ i ∈ twoStart, Serving i := by
  have hlines : ∀ l ∈ ["CSeq: 1\r\n", "Transport: RTP/AVP/TCP\r\n",
      "CSeq: 2\r\n"].map String.toList, ReadLine l := by
    unfold ReadLine
    decide +kernel
  simp only [List.map_cons, List.map_nil, List.forall_mem_cons] at hlines
  obtain ⟨hcseq₁, htransport, hcseq₂, -⟩ := hlines
  have hdescribe := asks_serving 0 "DESCRIBE rtsp://h/cam RTSP/1.0" ["CSeq: 1\r\n"]
    (List.forall_mem_singleton.mpr hcseq₁)
  have hsetup := asks_serving 1 "SETUP rtsp://h/cam RTSP/1.0"
    ["CSeq: 1\r\n", "Transport: RTP/AVP/TCP\r\n"]
    (List.forall_mem_cons.mpr ⟨hcseq₁, List.forall_mem_singleton.mpr htransport⟩)
  have hplay := asks_serving 1 "PLAY rtsp://h/cam RTSP/1.0" ["CSeq: 2\r\n"]
    (List.forall_mem_singleton.mpr hcseq₂)
  have hquiet : Serving (.server .accept 0) ∧ Serving (.server (.client none 7) 0) ∧
      Serving (.server (.client none 8) 0) ∧ Serving (drains 1) :=
    ⟨trivial, trivial, trivial, trivial⟩
  simp only [twoStart, List.forall_mem_cons]
  exact ⟨hquiet.1, hquiet.2.1, hquiet.1, hquiet.2.2.1, hdescribe, hsetup, hquiet.2.2.2, hplay,
    by simp⟩

theorem twoStart_run :
    (run (step viewerServer 8) (fresh fun _ => (false, 10)) twoStart).isSome = true := by
  decide +kernel

theorem daemon_refines_two : ∃ d h,
    run (step viewerServer 8) (fresh fun _ => (false, 10)) twoStart = some (d, h) ∧
    ∃ peer ssrc, ∀ n, (d.plainConn 1 (Conn.fresh peer ssrc)).made ≤ n → ∃ js os,
      (∀ j ∈ js, j.Read) ∧
      run (System.step viewerServer "cam".toList) (System.fresh false 10 peer ssrc) js =
        some (d.sight "cam".toList 1 n (Conn.fresh peer ssrc), os) ∧
      connOf os = effectsOf 1 h ∧ frames os = framesOf "cam".toList h := by
  obtain ⟨⟨d, h⟩, hr⟩ := Option.isSome_iff_exists.mp twoStart_run
  exact ⟨d, h, hr, daemon_refines viewerServer 8 (fun _ => (false, 10)) twoStart d h
    twoStart_serving hr "cam".toList 1⟩

end DvrBridge.Daemon
