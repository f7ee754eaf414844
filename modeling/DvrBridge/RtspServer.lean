import DvrBridge.Admission
import DvrBridge.RtspEndpoints

/-! `RTSPServer`: the connections that it serves at a time, and its `stop`. -/
namespace DvrBridge
open Machine PyText

structure RtspServer where
  /-- every connection that was made; those in `_conns` are live -/
  pool : Pool LiveConn := {}
  listening : Bool := true
  /-- accepted sockets whose `_client` is yet to start -/
  accepted : Nat := 0
  /-- `close()` calls of `stop` that are yet to start -/
  closes : List Nat := []

inductive ServerInput where
  /-- a client connects -/
  | accept
  /-- `_client` starts -/
  | client (peer : Option Str) (ssrc : Nat)
  /-- connection `k`, but for the calls of `close()` from outside -/
  | conn (k : Nat) (i : LiveInput)
  | stop
  /-- `gather` starts a `close()` -/
  | close (k : Nat)

inductive ServerOutput where
  /-- the connection limit is reached -/
  | refused
  /-- `stop` finds connection `k` in `_conns` -/
  | found (k : Nat)
  | conn (k : Nat) (e : Effect)
  deriving DecidableEq

/-- `run` has returned. -/
def LiveConn.gone (c : LiveConn) : Bool := decide (c.conn.pc = .ended)

namespace RtspServer

/-- A step of connection `k`; `_client` discards it from `_conns` when `run` returns. -/
def serve (srv : Server) (s : RtspServer) (k : Nat) (i : LiveInput) :
    Option (RtspServer × List ServerOutput) :=
  (s.pool.move (LiveConn.step srv) LiveConn.gone k i).map fun r =>
    ({ s with pool := r.1 }, r.2.map (.conn k))

/-- `most` is `max_connections`. -/
def step (srv : Server) (most : Int) (s : RtspServer) :
    ServerInput → Option (RtspServer × List ServerOutput)
  | .accept => if s.listening then some ({ s with accepted := s.accepted + 1 }, []) else none
  | .client peer ssrc =>
    if s.accepted = 0 then none
    else
      let s := { s with accepted := s.accepted - 1 }
      match s.pool.enter most (LiveConn.fresh peer ssrc) with
      | none => some (s, [.refused])
      | some pool => some ({ s with pool := pool }, [])
  | .conn _ .stop => none
  | .conn k i => s.serve srv k i
  | .stop =>
    some ({ s with listening := false, closes := s.closes ++ s.pool.live }, s.pool.live.map .found)
  | .close k =>
    if k ∈ s.closes then ({ s with closes := s.closes.erase k } : RtspServer).serve srv k .stop
    else none

/-- The history of connection `k`. -/
def ofConn (k : Nat) (h : List ServerOutput) : List Effect :=
  h.flatMap fun
    | .conn j e => if j = k then [e] else []
    | _ => []

section
variable (k : Nat) (h h' : List ServerOutput)

@[simp] theorem ofConn_append : ofConn k (h ++ h') = ofConn k h ++ ofConn k h' :=
  List.flatMap_append

theorem ofConn_conn (j : Nat) (es : List Effect) :
    ofConn k (es.map (.conn j)) = if j = k then es else [] := by
  rw [ofConn, List.flatMap_map]
  split
  · rename_i he
    simp [he]
  · rename_i hne
    simp [hne]

@[simp] theorem ofConn_found (l : List Nat) : ofConn k (l.map .found) = [] := by
  simp [ofConn, List.flatMap_map]

end

/-- What a step is for the connections. -/
inductive ServerStep (srv : Server) (most : Int) (s : RtspServer) :
    ServerInput → RtspServer → List ServerOutput → Prop
  | accept : s.listening = true →
      ServerStep srv most s .accept { s with accepted := s.accepted + 1 } []
  | refuses {peer : Option Str} {ssrc : Nat} : s.accepted ≠ 0 → most ≤ s.pool.live.length →
      ServerStep srv most s (.client peer ssrc) { s with accepted := s.accepted - 1 } [.refused]
  | admits {peer : Option Str} {ssrc : Nat} {pool : Pool LiveConn} : s.accepted ≠ 0 →
      s.pool.enter most (LiveConn.fresh peer ssrc) = some pool →
      ServerStep srv most s (.client peer ssrc)
        { s with accepted := s.accepted - 1, pool := pool } []
  | conn {k : Nat} {i : LiveInput} {pool : Pool LiveConn} {es : List Effect} : i ≠ .stop →
      s.pool.move (LiveConn.step srv) LiveConn.gone k i = some (pool, es) →
      ServerStep srv most s (.conn k i) { s with pool := pool } (es.map (.conn k))
  | stop : ServerStep srv most s .stop
      { s with listening := false, closes := s.closes ++ s.pool.live } (s.pool.live.map .found)
  | close {k : Nat} {pool : Pool LiveConn} {es : List Effect} : k ∈ s.closes →
      s.pool.move (LiveConn.step srv) LiveConn.gone k .stop = some (pool, es) →
      ServerStep srv most s (.close k) { s with closes := s.closes.erase k, pool := pool }
        (es.map (.conn k))

section
variable {srv : Server} {most : Int} {s s' : RtspServer} {i : ServerInput}
  {h o : List ServerOutput}

theorem step_inv (hs : s.step srv most i = some (s', o)) : ServerStep srv most s i s' o := by
  cases i with
  | accept =>
    obtain ⟨hl, he⟩ := Option.ite_none_right_eq_some.mp hs
    cases he
    exact .accept hl
  | client peer ssrc =>
    obtain ⟨hn, hs⟩ := Option.ite_none_left_eq_some.mp hs
    split at hs
    · rename_i ha
      cases hs
      refine .refuses hn ?_
      by_contra hlt
      rw [Pool.enter, if_neg hlt] at ha
      cases ha
    · rename_i pool ha
      cases hs
      exact .admits hn ha
  | conn k i =>
    have hne : i ≠ .stop := by
      rintro rfl
      cases hs
    have hserve : s.serve srv k i = some (s', o) := by
      cases i <;> first | exact hs | cases hs
    obtain ⟨⟨pool, es⟩, hm, he⟩ := Option.map_eq_some_iff.mp hserve
    cases he
    exact .conn hne hm
  | stop =>
    cases hs
    exact .stop
  | close k =>
    obtain ⟨hk, hs⟩ := Option.ite_none_right_eq_some.mp hs
    obtain ⟨⟨pool, es⟩, hm, he⟩ := Option.map_eq_some_iff.mp hs
    cases he
    exact .close hk hm

end
end RtspServer
end DvrBridge
