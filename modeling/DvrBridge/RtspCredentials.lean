import DvrBridge.Base64
import DvrBridge.RtspAuth
import DvrBridge.RtspFraming

/-! A client that shows its credentials: with those of the server, the gate is as good as not there;
with any others, it is shut. -/
namespace DvrBridge
open Machine PyText

/-- What Basic authentication compares. -/
def joined (auth : Str × Str) : Str := auth.1 ++ [':'] ++ auth.2

theorem joined_inj {a b : Str × Str} (ha : ':' ∉ a.1) (hb : ':' ∉ b.1) :
    joined a = joined b ↔ a = b := by
  have hcut {c : Str × Str} (hc : ':' ∉ c.1) : partition ':' (joined c) = c := by
    rw [joined, List.append_assoc, List.singleton_append, partition_cons hc]
  constructor
  · intro h
    calc
      a = partition ':' (joined a) := (hcut ha).symm
      _ = partition ':' (joined b) := by rw [h]
      _ = b := hcut hb
  · intro h
    rw [h]

theorem credentials_inj {a b : Str × Str} :
    credentials a = credentials b ↔ joined a = joined b := by
  constructor
  · intro h
    have hb : encode (joined a) = encode (joined b) := b64encode_injective h
    have hd : some (joined a) = some (joined b) := by
      rw [← decode_encode, hb, decode_encode]
    exact Option.some.inj hd
  · intro h
    exact congrArg (fun s => b64encode (encode s)) h

namespace Rtsp

/-- A name that occurs once is found. -/
theorem lookup_of_mem {α β : Type*} [BEq α] [LawfulBEq α] {k : α} {v : β} {l : List (α × β)}
    (hn : (l.map Prod.fst).Nodup) (hm : (k, v) ∈ l) : l.lookup k = some v := by
  induction l with
  | nil => cases hm
  | cons e l ih =>
    obtain ⟨he, hl⟩ := List.nodup_cons.mp hn
    rcases List.mem_cons.mp hm with rfl | hm
    · exact List.lookup_cons_self
    · have hne : (k == e.1) = false := by
        refine beq_eq_false_iff_ne.mpr fun hk => he ?_
        exact List.mem_map.mpr ⟨(k, v), hm, hk⟩
      rw [List.lookup_cons, hne]
      exact ih hl hm

/-- The request has an `Authorization` header with the credentials of `client`. -/
def Request.Shows (client : Str × Str) (r : Request) : Prop :=
  ∃ h ∈ r.headers, lower h.name = "authorization".toList ∧
    h.value = "Basic ".toList ++ credentials client

theorem Request.Shows.get {client : Str × Str} {r : Request} (h : r.Shows client) :
    Headers.get (r.headers.map Header.entry) "authorization" "" =
      "Basic ".toList ++ credentials client := by
  obtain ⟨e, he, hn, hv⟩ := h
  have hmem : ("authorization".toList, e.value) ∈ r.headers.map Header.entry := by
    refine List.mem_map.mpr ⟨e, he, ?_⟩
    rw [Header.entry, hn]
  have hnodup : ((r.headers.map Header.entry).map Prod.fst).Nodup := by
    rw [List.map_map]
    exact r.distinct
  rw [Headers.get, lookup_of_mem hnodup hmem, hv]
  rfl

end Rtsp

namespace Conn

/-- Each request is read from one that shows the credentials of `client`. -/
def Shows (client : Str × Str) : ConnInput → Prop
  | .loop (.request line headers _) => ∃ r : Rtsp.Request, r.Shows client ∧
      line = r.line ∧ headers = r.headers.map Rtsp.Header.entry
  | _ => True

/-- A method token that leads to a guarded handler is in upper case. -/
def Capital : ConnInput → Prop
  | .loop (.request line _ _) =>
    ∀ method url v m, tokens line = [method, url, v] → handlerOf method = some m → Guarded m →
      gated method = true
  | _ => True

section
variable {srv : Server} {auth client : Str × Str} {headers : Headers} {i : ConnInput}

theorem checkAuth_shown
    (h : headers.get "authorization" "" = "Basic ".toList ++ credentials client) :
    checkAuth auth headers = if joined client = joined auth then .pass else .unauthorized := by
  have hstart : startsWith "Basic " ("Basic ".toList ++ credentials client) = true :=
    List.isPrefixOf_iff_prefix.mpr ⟨_, rfl⟩
  have hdrop : ("Basic ".toList ++ credentials client).drop 6 = credentials client := rfl
  have hascii : (credentials client).all (·.toNat < 128) = true :=
    List.all_eq_true.mpr fun c hc => decide_eq_true (ascii_b64encode _ c hc)
  rw [checkAuth, h, hdrop]
  simp only [hstart, hascii, if_true, credentials_inj]

/-- Without `auth` nothing is compared. -/
def ungated (srv : Server) : Server := { srv with auth := none }

theorem handle_ungated (c : Conn) (m : Method) (url : Str) (headers : Headers) (cseq token : Str) :
    c.handle (ungated srv) m url headers cseq token = c.handle srv m url headers cseq token := by
  cases m <;> rfl

theorem dispatch_ungated (c : Conn) {line : Bytes} {headers : Headers} {token : Str}
    (h : ∀ method, gate srv method headers = .pass) :
    c.dispatch srv line headers token = c.dispatch (ungated srv) line headers token := by
  have hopen (method : Str) : gate (ungated srv) method headers = .pass := rfl
  unfold dispatch
  split
  · simp only [h, hopen]
    split
    · rfl
    · simp only [runHandler, handle_ungated]
  · rfl

theorem loopStep_ungated (c : Conn) {i : LoopInput}
    (h : ∀ line headers token, i = .request line headers token →
      ∀ method, gate srv method headers = .pass) :
    c.loopStep srv i = c.loopStep (ungated srv) i := by
  unfold loopStep
  split
  · rw [c.dispatch_ungated (h _ _ _ rfl)]
  all_goals rfl

/-- The credentials of the server: as if it had none. -/
theorem step_ungated (hauth : srv.auth = some auth) (hj : joined client = joined auth)
    (hi : Shows client i) (c : Conn) : c.step srv i = c.step (ungated srv) i := by
  cases i with
  | pump i => rfl
  | loop i =>
    refine c.loopStep_ungated fun line headers token he method => ?_
    subst he
    obtain ⟨r, hr, rfl, rfl⟩ := hi
    rw [gate, hauth]
    simp only
    rw [checkAuth_shown hr.get, if_pos hj, ite_self]

/-- Other credentials: the request does not carry the server's, and the comparison does not fail. -/
theorem sees_of_shown (hj : joined client ≠ joined auth) (hi : Shows client i) (hc : Capital i) :
    ¬ Carries auth i ∧ GateSees auth i := by
  cases i with
  | pump i => exact ⟨id, trivial⟩
  | loop i =>
    cases i with
    | request line headers token =>
      obtain ⟨r, hr, rfl, rfl⟩ := hi
      have hcheck : checkAuth auth (r.headers.map Rtsp.Header.entry) = .unauthorized := by
        rw [checkAuth_shown hr.get, if_neg hj]
      refine ⟨fun hcarries => ?_, fun method url v m ht hm hg => ⟨hc method url v m ht hm hg, ?_⟩⟩
      · have hcarries : Headers.get (r.headers.map Rtsp.Header.entry) "authorization" "" =
            "Basic ".toList ++ credentials auth := hcarries
        rw [hr.get] at hcarries
        exact hj (credentials_inj.mp (List.append_cancel_left hcarries))
      · rw [hcheck]
        simp
    | _ => exact ⟨id, trivial⟩

end

/-- The gate law, for a client all of whose requests show the same credentials. If they are those of
the server, every run is the run of a server without credentials; if not, every request for
DESCRIBE, SETUP or PLAY in upper case is answered 401 and nothing else happens. Without a colon in
the user names they are the same exactly when user and password are. -/
theorem gate_decides (srv : Server) (auth client : Str × Str) (hauth : srv.auth = some auth)
    (peer : Option Str) (ssrc : Nat) (is : List ConnInput) (hi : ∀ i ∈ is, Shows client i) :
    (joined client = joined auth →
      run (step srv) (fresh peer ssrc) is = run (step (ungated srv)) (fresh peer ssrc) is) ∧
    (joined client ≠ joined auth → (∀ i ∈ is, Capital i) →
      EveryStep (step srv) (fun _ _ i c' o => Denies i c' o) (fresh peer ssrc) is) ∧
    (':' ∉ client.1 → ':' ∉ auth.1 → (joined client = joined auth ↔ client = auth)) := by
  refine ⟨fun hj => ?_, fun hj hc => ?_, fun ha hb => joined_inj ha hb⟩
  · exact run_congr (fun i hm c => step_ungated hauth hj (hi i hm) c) _
  · refine everyStep_of_invariant (Q := fun _ _ i _ _ => ¬ Carries auth i ∧ GateSees auth i)
      (fun c _ => c.Outside) (outside_fresh peer ssrc) ?_ ?_
      (everyStep_of_forall_mem fun i hm => sees_of_shown hj (hi i hm) (hc i hm))
    · exact fun c _ i c' o ho hs hq => (ho.step hauth hq.1 hq.2 hs).1
    · exact fun c _ i c' o ho hs hq => (ho.step hauth hq.1 hq.2 hs).2

/-- The header of `user` with the password `pass`, or with the password `nope`. -/
def userHeader (right : Bool) : Rtsp.Header where
  name := "Authorization".toList
  value := if right then "Basic dXNlcjpwYXNz".toList else "Basic dXNlcjpub3Bl".toList
  name_ne := by decide
  name_ok := List.all_eq_true.mp (by decide)
  value_line := by cases right <;> decide
  value_strip := by cases right <;> decide +kernel
  lead_ok := by simp

def userPassword (right : Bool) : Str := if right then "pass".toList else "nope".toList

theorem isWord_of_all {w : Str} (hw : w ≠ [])
    (h : w.all (fun c => decide (c.toNat < 256) && !isSpace c) = true) : Rtsp.IsWord w := by
  refine ⟨hw, fun c hc => ?_⟩
  have := List.all_eq_true.mp h c hc
  rw [Bool.and_eq_true, decide_eq_true_eq, Bool.not_eq_true'] at this
  exact this

def describeShown (right : Bool) : Rtsp.Request where
  method := "DESCRIBE".toList
  url := "rtsp://h/cam".toList
  version := "RTSP/1.0".toList
  headers := [userHeader right]
  body := []
  words := ⟨isWord_of_all (by decide) (by decide +kernel),
    isWord_of_all (by decide) (by decide +kernel), isWord_of_all (by decide) (by decide +kernel)⟩
  first := by decide
  short := by decide
  count := by simp
  size := by cases right <;> decide +kernel
  distinct := by simp
  body_le := by decide
  announced := by
    have hnone : ([userHeader right].map Rtsp.Header.entry).lookup "content-length".toList = none := by
      cases right <;> decide +kernel
    rw [hnone]

def shownRun (right : Bool) : List ConnInput :=
  [.loop (.request (describeShown right).line
    ((describeShown right).headers.map Rtsp.Header.entry) [])]

theorem shows_shownRun (right : Bool) :
    ∀ i ∈ shownRun right, Shows ("user".toList, userPassword right) i := by
  refine List.forall_mem_singleton.mpr
    ⟨describeShown right, ⟨userHeader right, List.mem_singleton_self _, ?_, ?_⟩, rfl, rfl⟩
  · cases right <;> decide +kernel
  · cases right <;> decide +kernel

/-- The right password opens the gate, and the wrong one does not. -/
theorem gate_decides_user :
    ((run (step guardedServer) (fresh none 1) (shownRun true)).isSome = true ∧
      run (step guardedServer) (fresh none 1) (shownRun true) =
        run (step (ungated guardedServer)) (fresh none 1) (shownRun true)) ∧
    (run (step guardedServer) (fresh none 1) (shownRun false)).isSome = true ∧
      EveryStep (step guardedServer) (fun _ _ i c' o => Denies i c' o) (fresh none 1)
        (shownRun false) := by
  have hright := gate_decides guardedServer ("user".toList, "pass".toList)
    ("user".toList, userPassword true) rfl none 1 (shownRun true) (shows_shownRun true)
  have hwrong := gate_decides guardedServer ("user".toList, "pass".toList)
    ("user".toList, userPassword false) rfl none 1 (shownRun false) (shows_shownRun false)
  have hcapital : ∀ i ∈ shownRun false, Capital i := by
    refine List.forall_mem_singleton.mpr fun method url v m ht _ _ => ?_
    have hline : tokens (describeShown false).line =
        ["DESCRIBE".toList, "rtsp://h/cam".toList, "RTSP/1.0".toList] := by
      decide +kernel
    obtain ⟨hmethod, -⟩ := List.cons.inj (hline.symm.trans ht)
    rw [← hmethod]
    decide
  exact ⟨⟨by decide +kernel, hright.1 rfl⟩, by decide +kernel,
    hwrong.2.1 (by decide) hcapital⟩

end Conn
end DvrBridge
