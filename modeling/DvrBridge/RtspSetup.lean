import DvrBridge.RtspSteps

/-! What a SETUP announces, and what a failed one leaves of the session before it. -/
namespace DvrBridge.Conn
open PyText

/-- The values of the fields `name` of a transport, in order; `none` is a bad one. -/
def fieldValues {α : Type} (name : String) (parse : Str → Option α) (fields : List Str) :
    List (Option α) :=
  (fields.filter (startsWith name)).map fun f => parse (f.drop name.length)

def channels (headers : Headers) : List (Option (Int × Int)) :=
  fieldValues "interleaved=" parseInterleaved (transportFields headers)

def ports (headers : Headers) : List (Option Int) :=
  fieldValues "client_port=" parseClientPort (transportFields headers)

/-- The last value before the first bad one. -/
def lastGood {α : Type} (default : α) (vs : List (Option α)) : α :=
  ((vs.takeWhile Option.isSome).filterMap id).getLastD default

/-- A transport that a SETUP accepts. -/
def Accepts (headers : Headers) : Prop :=
  isTcp headers = true ∧ none ∉ channels headers ∨
    isUdp headers = true ∧ none ∉ ports headers ∧ ports headers ≠ []

/-- A SETUP that succeeds, or that has nothing to change before it fails. -/
def LeavesSession (srv : Server) (c : Conn) (url : Str) (headers : Headers) (token : Str) : Prop :=
  c.playTask ≠ none ∨
    match srv.streamFor url with
    | .valueError => True
    | .notFound => c.interleaved = none ∧ c.udp = none
    | .found s => Accepts headers ∨
        c.stream = some s ∧ (c.sessionId.getD [] ≠ [] ∨ c.sessionId = some token) ∧ c.udp = none ∧
        c.interleaved =
          if isTcp headers then some (lastGood (0, 1) (channels headers)) else none

/-- The four fields that a SETUP sets. -/
def SameSession (c c' : Conn) : Prop :=
  c'.stream = c.stream ∧ c'.interleaved = c.interleaved ∧ c'.udp = c.udp ∧
    c'.sessionId = c.sessionId

instance (c c' : Conn) : Decidable (SameSession c c') :=
  inferInstanceAs (Decidable (_ ∧ _ ∧ _ ∧ _))

/-- A SETUP that reaches its handler succeeds, or has nothing to change. -/
def SetupsLeave (srv : Server) (c : Conn) : ConnInput → Prop
  | .loop (.request line headers token) =>
    ∀ method url v, tokens line = [method, url, v] → gate srv method headers = .pass →
      handlerOf method = some .setup → LeavesSession srv c url headers token
  | _ => True

theorem fieldValues_cons {α : Type} (name : String) (parse : Str → Option α) (f : Str)
    (fs : List Str) : fieldValues name parse (f :: fs) =
      if startsWith name f = true then parse (f.drop name.length) :: fieldValues name parse fs
      else fieldValues name parse fs := by
  simp only [fieldValues, List.filter_cons]
  split <;> rfl

theorem lastGood_some_cons {α : Type} (cur v : α) (vs : List (Option α)) :
    lastGood cur (some v :: vs) = lastGood v vs := by
  simp only [lastGood, List.takeWhile_cons, Option.isSome_some, if_true, List.filterMap_cons, id,
    List.getLastD_cons]

theorem lastGood_none_cons {α : Type} (cur : α) (vs : List (Option α)) :
    lastGood cur (none :: vs) = cur := rfl

/-- The loop of a TCP SETUP leaves the last good pair, and is good if no field is bad. -/
theorem interleavedFields_eq (cur : Int × Int) (fs : List Str) :
    interleavedFields cur fs =
      (lastGood cur (fieldValues "interleaved=" parseInterleaved fs),
       (fieldValues "interleaved=" parseInterleaved fs).all Option.isSome) := by
  induction fs generalizing cur with
  | nil => rfl
  | cons f fs ih =>
    rw [interleavedFields, fieldValues_cons]
    split
    · split
      · rename_i v hv
        rw [ih, hv, lastGood_some_cons]
        rfl
      · rename_i hv
        rw [hv, lastGood_none_cons]
        rfl
    · exact ih cur

theorem all_isSome_iff {α : Type} (vs : List (Option α)) :
    vs.all Option.isSome = true ↔ none ∉ vs := by
  simp only [List.all_eq_true, Option.isSome_iff_ne_none]
  exact ⟨fun h hn => h none hn rfl, fun h v hv he => h (he ▸ hv)⟩

/-- The loop of a UDP SETUP finds a port if there is one and no field is bad. -/
theorem clientPortFields_isSome (cur : Option Int) (fs : List Str) :
    (∃ port, clientPortFields cur fs = some (some port)) ↔
      none ∉ fieldValues "client_port=" parseClientPort fs ∧
      (cur.isSome = true ∨ fieldValues "client_port=" parseClientPort fs ≠ []) := by
  induction fs generalizing cur with
  | nil => cases cur <;> simp [clientPortFields, fieldValues]
  | cons f fs ih =>
    rw [clientPortFields, fieldValues_cons]
    split
    · cases hv : parseClientPort (f.drop "client_port=".length) with
      | none => simp
      | some port =>
        rw [Option.bind_some, ih]
        simp
    · exact ih cur

theorem interleavedFields_good {headers : Headers} {v : Int × Int} {good : Bool}
    (h : interleavedFields (0, 1) (transportFields headers) = (v, good)) :
    v = lastGood (0, 1) (channels headers) ∧ (good = true ↔ none ∉ channels headers) := by
  rw [interleavedFields_eq] at h
  obtain ⟨rfl, rfl⟩ := Prod.mk.inj h
  exact ⟨rfl, all_isSome_iff _⟩

theorem clientPort_found (headers : Headers) :
    (∃ port, clientPortFields none (transportFields headers) = some (some port)) ↔
      none ∉ ports headers ∧ ports headers ≠ [] := by
  rw [clientPortFields_isSome]
  simp [ports]

theorem not_udp_of_tcp {headers : Headers} (h : isTcp headers = true) : isUdp headers = false := by
  simp only [isTcp, decide_eq_true_eq] at h
  simp [isUdp, h]

/-- A SETUP that fails keeps the session exactly if the condition holds. -/
theorem SetupStep.sameSession_iff {srv : Server} {c c₁ : Conn} {url : Str} {headers : Headers}
    {cseq token : Str} {e : RtspError} (h : SetupStep srv c url headers cseq token c₁ (.raise e))
    (hn : c.playTask = none) : SameSession c c₁ ↔ LeavesSession srv c url headers token := by
  have hsid (s : Str) : (if c.sessionId.getD [] = [] then some token else c.sessionId)
      = c.sessionId ↔ (c.sessionId.getD [] ≠ [] ∨ c.sessionId = some token) := by
    split
    · rename_i h0
      simp [h0, eq_comm]
    · rename_i h0
      simp [h0]
  have hno {s : Str} (hs : srv.streamFor url = .found s) (hA : ¬ Accepts headers) :
      LeavesSession srv c url headers token ↔
        c.stream = some s ∧ (c.sessionId.getD [] ≠ [] ∨ c.sessionId = some token) ∧
          c.udp = none ∧ c.interleaved =
            if isTcp headers then some (lastGood (0, 1) (channels headers)) else none := by
    simp only [LeavesSession, hn, hs, ne_eq, not_true_eq_false, false_or, hA]
  cases h with
  | notFound hs =>
    simp only [LeavesSession, hn, hs, SameSession, cleared]
    simp [eq_comm]
  | @tcpBad s v hs ht hv =>
    obtain ⟨rfl, hgood⟩ := interleavedFields_good hv
    have hA : ¬ Accepts headers := by
      rintro (⟨-, hc⟩ | ⟨hu, -⟩)
      · cases hgood.mpr hc
      · simp [not_udp_of_tcp ht] at hu
    rw [hno hs hA, ← hsid []]
    simp only [SameSession, placed, cleared, ht, if_true, eq_comm (b := c.stream),
      eq_comm (b := c.interleaved), eq_comm (b := c.udp)]
    tauto
  | @udpBad s e hs ht hu =>
    have hA : ¬ Accepts headers := by
      rintro (⟨ht', -⟩ | ⟨hu', hp⟩)
      · simp [ht] at ht'
      · obtain ⟨port, hport⟩ := (clientPort_found headers).mpr hp
        exact hu hu' port hport
    rw [hno hs hA, ← hsid []]
    simp only [SameSession, placed, cleared, ht, Bool.false_eq_true, if_false,
      eq_comm (b := c.stream), eq_comm (b := c.interleaved), eq_comm (b := c.udp)]
    tauto

/-- A SETUP that goes through meets the condition. -/
theorem SetupStep.leavesSession {srv : Server} {c c₁ : Conn} {url : Str} {headers : Headers}
    {cseq token : Str} {out : Outcome} (h : SetupStep srv c url headers cseq token c₁ out)
    (hout : ∀ e, out ≠ .raise e) : LeavesSession srv c url headers token := by
  refine .inr ?_
  cases h with
  | crash hs => simp [hs]
  | tcp hs ht hv =>
    rw [hs]
    exact .inl (.inl ⟨ht, (interleavedFields_good hv).2.mp rfl⟩)
  | udp hs _ hu hp =>
    rw [hs]
    exact .inl (.inr ⟨hu, (clientPort_found headers).mp ⟨_, hp⟩⟩)
  | notFound | tcpBad | udpBad => exact absurd rfl (hout _)

/-- The handler that has not answered yet, and the last SETUP answered 200 since the last
TEARDOWN. -/
structure Log where
  handling : Option Method := none
  setup : Option Response := none

def Log.add (l : Log) : Effect → Log
  | .handler m => { l with handling := some m }
  | .response r =>
    { handling := none
      setup := if l.handling = some .setup ∧ r.code = 200 then some r else l.setup }
  | .teardownDone => { l with setup := none }
  | _ => l

def Log.after (l : Log) (o : List Effect) : Log := o.foldl Log.add l

/-- A field `name=n-…` of a transport. -/
def portField (name : String) (n : Int) : Str :=
  ';' :: name.toList ++ ['='] ++ decimalInt n ++ ['-']

/-- The `Transport` of a response says `n` in its field `name`. -/
def Announces (r : Response) (name : String) (n : Int) : Prop :=
  ∃ h ∈ r.headers, h.1 = "Transport".toList ∧ portField name n <:+: h.2

@[simp] theorem Log.after_nil (l : Log) : l.after [] = l := rfl

@[simp] theorem Log.after_cons (l : Log) (e : Effect) (o : List Effect) :
    l.after (e :: o) = (l.add e).after o := rfl

theorem Log.after_append (l : Log) (o o' : List Effect) :
    l.after (o ++ o') = (l.after o).after o' := List.foldl_append

theorem Log.after_released (l : Log) (c : Conn) : l.after c.released = l := by
  unfold released releaseTransport
  cases c.udp <;> rfl

theorem Log.add_response (l : Log) {r : Response} (hr : l.handling = some .setup → r.code ≠ 200) :
    (l.add (.response r)).setup = l.setup := by
  simp only [Log.add]
  rw [if_neg]
  rintro ⟨hh, hc⟩
  exact hr hh hc

theorem Log.after_datagrams (l : Log) (e : Nat) (host : Str) (port : Int) (packets : List Bytes) :
    l.after (packets.map (.datagram e host port)) = l := by
  induction packets with
  | nil => rfl
  | cons b packets ih => exact ih

theorem interleavedTransport_field (c : Conn) (v : Int × Int) :
    portField "interleaved" v.1 <:+: c.interleavedTransport v := by
  have hlit : "RTP/AVP/TCP;unicast;interleaved=".toList =
      "RTP/AVP/TCP;unicast".toList ++ (';' :: "interleaved".toList ++ ['=']) := rfl
  have heq : "RTP/AVP/TCP;unicast".toList ++ portField "interleaved" v.1 ++
      (decimalInt v.2 ++ c.ssrcField) = c.interleavedTransport v := by
    unfold interleavedTransport portField
    rw [hlit]
    simp only [List.append_assoc, List.cons_append]
  exact heq ▸ List.infix_append ..

theorem udpTransport_field (c : Conn) (port serverPort : Int) :
    portField "client_port" port <:+: c.udpTransport port serverPort := by
  have hlit : "RTP/AVP;unicast;client_port=".toList =
      "RTP/AVP;unicast".toList ++ (';' :: "client_port".toList ++ ['=']) := rfl
  have heq : "RTP/AVP;unicast".toList ++ portField "client_port" port ++
      (decimalInt (port + 1) ++ (";server_port=".toList ++ (decimalInt serverPort ++ (['-'] ++
        (decimalInt (serverPort + 1) ++ c.ssrcField))))) = c.udpTransport port serverPort := by
    unfold udpTransport portField
    rw [hlit]
    simp only [List.append_assoc, List.cons_append]
  exact heq ▸ List.infix_append ..

theorem setupAnswer_announces {c : Conn} {cseq t : Str} {r : Response} {k : After} {name : String}
    {n : Int} (h : c.setupAnswer cseq t = .answer r k) (hf : portField name n <:+: t) :
    r.code = 200 ∧ Announces r name n := by
  obtain ⟨rfl, rfl⟩ := Outcome.answer.inj h
  exact ⟨rfl, _, List.mem_cons_of_mem _ (List.mem_cons_self ..), rfl, hf⟩

end DvrBridge.Conn
