import DvrBridge.StreamGate

/-! From the frames of a stream to the access units that a client gets: one PLAY of an interleaved
connection, among the connection's answers and everything else that happens to the stream. -/
namespace DvrBridge

/-- The packets of one access unit. -/
def Carries (packets nals : List Bytes) : Prop :=
  ∀ d : Depacketizer, d.fu = none → d.nals = [] →
    d.feedAll packets = some { d with units := d.units ++ [nals] }

/-- What the pump holds while it waits for the lock. -/
def Holds (ch : Int) : PumpPc → List (List Bytes) → Prop
  | .locking c packets, held => c = ch ∧ ∃ nals, held = [nals] ∧ Carries packets nals
  | _, held => held = []

/-- The number of access units in the hands of the pump. -/
def Conn.inHand (c : Conn) : Nat :=
  match c.playTask with
  | some ⟨.locking _ _, _⟩ => 1
  | _ => 0

namespace System
open World

/-- Subscriber `n` is being read, or is so no longer. -/
inductive Phase (name : Str) (n : Nat) (ch : Int) (s : System) (h : List SystemOutput)
    (held : List (List Bytes)) : Prop
  | live {p : Pump} {hi : Int} : s.conn.playTask = some p → p.pc ≠ .done → s.conn.sub = some n →
      s.conn.stream = some name → s.conn.interleaved = some (ch, hi) →
      .closeWriter ∉ connOf h → Holds ch p.pc held → Phase name n ch s h held
  | idle : s.conn.Idle → (∀ sub ∈ s.world.stream.subs, sub.id = n → held = []) →
      Phase name n ch s h held

/-- The access units that a client gets out of the session so far. -/
def Recovers (ch : Int) (h : List SystemOutput) (aus : List (List Bytes)) : Prop :=
  Depacketizer.feedAll {} (Client.packetsOn ch.toNat (Conn.parts (connOf h))) =
    some { units := aus }

/-- The access units got so far and those the pump holds are what it took off its queue. -/
def Copied (name : Str) (n : Nat) (ch : Int) (s : System) (h : List SystemOutput) : Prop :=
  ∃ aus held, Recovers ch h aus ∧ (readBy n (hubOf h)).map (·.nals) = aus ++ held ∧
    Phase name n ch s h held

section
variable {name : Str} {n : Nat} {ch : Int} {h o : List SystemOutput} {aus : List (List Bytes)}

theorem recovers_of_quiet (hr : Recovers ch h aus) (ho : ∀ c ps, .media c ps ∉ connOf o) :
    Recovers ch (h ++ o) aus := by
  rw [Recovers, connOf_append, Conn.parts_append]
  split
  · rw [List.append_nil]
    exact hr
  · rw [Client.packetsOn, List.filterMap_append, ← Client.packetsOn, ← Client.packetsOn,
      Conn.packetsOn_parts ho, List.append_nil]
    exact hr

/-- An access unit more. -/
theorem recovers_of_media (hr : Recovers ch h aus) (hw : .closeWriter ∉ connOf h)
    {packets nals : List Bytes} (ho : connOf o = [.media ch packets]) (hc : Carries packets nals) :
    Recovers ch (h ++ o) (aus ++ [nals]) := by
  rw [Recovers, connOf_append, ho, Conn.parts_append, if_neg hw, Client.packetsOn,
    List.filterMap_append, ← Client.packetsOn, ← Client.packetsOn, Conn.packetsOn_media,
    Depacketizer.feedAll_append, hr, Option.bind_some]
  exact hc _ rfl rfl

/-- The end of the pump, when it still has its subscriber. -/
theorem exited_leaves {c c' : Conn} {p : Pump} {es : List Effect} (h : Conn.Exited c p c' es)
    (hs : c.sub = some n) (hst : c.stream = some name) :
    es = [.unsubscribe name n] ∧ c'.Idle := by
  cases h with
  | unsubscribes hx ht =>
    cases hs.symm.trans hx
    cases hst.symm.trans ht
    refine ⟨rfl, ?_⟩
    rintro q ⟨⟩
    rfl
  | bare hn => simp [hs, hst] at hn

/-- Without a subscribe the calls of the connection bring no subscriber. -/
theorem calls_subs {now : ℚ} {w w' : World} {es : List Effect}
    (hno : ∀ x, .subscribe name x ∉ es) (hw : calls name now w es = some w') :
    ∀ sub ∈ w'.stream.subs, sub ∈ w.stream.subs := by
  refine calls_induction (P := fun v => ∀ sub ∈ v.stream.subs, sub ∈ w.stream.subs)
    (fun _ hs => hs) ?_ hw
  intro v v' e he hv hstep sub hs
  cases hstep with
  | @subscribes x => exact absurd he (hno x)
  | unsubscribes hsubs =>
    rw [hsubs] at hs
    exact hv sub (List.mem_of_mem_filter hs)
  | quiet hq => exact hv sub (hq.subs ▸ hs)

/-- A subscriber that leaves is gone. -/
theorem calls_gone {now : ℚ} {w w' : World} (hw : calls name now w [.unsubscribe name n] = some w') :
    ∀ sub ∈ w'.stream.subs, sub.id ≠ n := by
  obtain ⟨v, hv, he⟩ := Option.bind_eq_some_iff.mp hw
  cases he
  cases call_step hv with
  | unsubscribes hsubs =>
    intro sub hs
    rw [hsubs] at hs
    simpa using (List.mem_filter.mp hs).2
  | quiet _ _ hne => exact absurd rfl (hne n)

/-- What the others do to subscriber `n`. -/
theorem others_step {made : Nat} (hm : n < made) {w w' : World} {i : Input} {os : List Relay}
    (hi : others made i = true) (hs : HubStep w w' i os) :
    readBy n (w.observe i os) = [] ∧
      ∀ sub' ∈ w'.stream.subs, sub'.id = n → ∃ sub ∈ w.stream.subs, sub.id = n := by
  cases hs with
  | quiet hq hget =>
    refine ⟨?_, fun sub' hs' hn => ⟨sub', hq.subs ▸ hs', hn⟩⟩
    cases i with
    | get x => exact absurd rfl (hget x)
    | _ => rfl
  | relays item _ _ _ hsubs =>
    refine ⟨rfl, fun sub' hs' hn => ?_⟩
    rw [hsubs] at hs'
    obtain ⟨sub, hsub, rfl⟩ := List.mem_map.mp hs'
    exact ⟨sub, hsub, by rwa [Subscriber.offer_id] at hn⟩
  | @gets top _ _ hw =>
    have hne : top.id ≠ n := by
      have := of_decide_eq_true hi
      omega
    refine ⟨?_, fun sub' hs' hn => ?_⟩
    · rw [observe]
      cases w.head? top.id with
      | none => rfl
      | some item => exact (readBy_read n top.id item).trans (if_neg hne)
    · rw [hw] at hs'
      obtain ⟨sub, hsub, rfl⟩ := List.mem_map.mp hs'
      refine ⟨sub, hsub, ?_⟩
      split at hn <;> exact hn
  | subscribes _ hsubs =>
    refine ⟨rfl, fun sub' hs' hn => ?_⟩
    rw [hsubs, List.mem_append, List.mem_singleton] at hs'
    rcases hs' with hs' | rfl
    · exact ⟨sub', hs', hn⟩
    · have := of_decide_eq_true hi
      simp only at hn
      omega
  | unsubscribes hsubs =>
    refine ⟨rfl, fun sub' hs' hn => ⟨sub', ?_, hn⟩⟩
    rw [hsubs] at hs'
    exact List.mem_of_mem_filter hs'

theorem Copied.hub {s : System} (hc : Copied name n ch s h) (hm : n < s.conn.made) {w : World}
    {i : Input} {os : List Relay} (hi : others s.conn.made i = true)
    (hs : HubStep s.world w i os) :
    Copied name n ch ⟨w, s.conn⟩
      (h ++ ((delivered i).map .delivered ++ (s.world.observe i os).map .hub)) := by
  obtain ⟨aus, held, hrec, hread, hph⟩ := hc
  obtain ⟨hnone, hsub⟩ := others_step hm hi hs
  have hconn :
      connOf ((delivered i).map .delivered ++ (s.world.observe i os).map .hub) = [] := by simp
  refine ⟨aus, held, recovers_of_quiet hrec (by rw [hconn]; simp), ?_, ?_⟩
  · simpa [hnone] using hread
  · cases hph with
    | live hp hd hn hst hin hw hh =>
      refine .live hp hd hn hst hin ?_ hh
      rw [connOf_append, hconn, List.append_nil]
      exact hw
    | idle hidle hgone =>
      refine .idle hidle fun sub' hs' hid => ?_
      obtain ⟨sub, hsub, hid⟩ := hsub sub' hs' hid
      exact hgone sub hsub hid

/-- A step of the request loop. -/
theorem Copied.loop {srv : Server} {s : System} (hc : Copied name n ch s h) {i : LoopInput}
    {c : Conn} {es : List Effect} {now : ℚ} {w : World}
    (hs : Conn.LoopStep srv s.conn i c es) (hw : calls name now s.world es = some w)
    (hno : ∀ x m, .subscribe x m ∉ es) : Copied name n ch ⟨w, c⟩ (h ++ es.map .conn) := by
  obtain ⟨aus, held, hrec, hread, hph⟩ := hc
  rcases hs.keepsPump with ⟨x, -, rfl, -⟩ | hk
  · exact absurd (List.mem_singleton_self _) (hno x s.conn.made)
  · have hquiet : ∀ a ps, .media a ps ∉ connOf (es.map .conn) := by
      rw [connOf_conn]
      exact fun a ps he => hk.aside _ he
    refine ⟨aus, held, recovers_of_quiet hrec hquiet, by simpa using hread, ?_⟩
    cases hph with
    | live hp hd hn hst hin hwr hh =>
      obtain ⟨⟨p', hp', hpc⟩, hn', hst', hin', hwr'⟩ := hk.running _ hp hd
      refine .live hp' (hpc ▸ hd) (hn'.trans hn) (hst'.trans hst) (hin'.trans hin) ?_ (hpc ▸ hh)
      rw [connOf_append, connOf_conn, List.mem_append, not_or]
      exact ⟨hwr, hwr'⟩
    | idle hidle hgone =>
      exact .idle (hk.idle hidle) fun sub hs hid =>
        hgone sub (calls_subs (fun x => hno name x) hw sub hs) hid

/-- A step of the pump that takes nothing off the queue. -/
theorem Copied.pump {s : System} (hc : Copied name n ch s h) {i : PumpInput} {p : Pump}
    {c : Conn} {es : List Effect} {now : ℚ} {w : World} (hp : s.conn.playTask = some p)
    (hd : p.pc ≠ .done) (hs : Conn.PumpStep s.conn p i c es)
    (hr : reads name s.conn (.pump i) = false) (hw : calls name now s.world es = some w) :
    Copied name n ch ⟨w, c⟩ (h ++ es.map .conn) := by
  obtain ⟨aus, held, hrec, hread, hph⟩ := hc
  cases hph with
  | idle hidle => exact absurd (hidle p hp) hd
  | @live q hi hq _ hn hst hin hwr hh =>
    cases hp.symm.trans hq
    have hsame : (readBy n (hubOf (h ++ es.map .conn))).map (·.nals) = aus ++ held := by
      simpa using hread
    have hnoread (item : HubFrame) : i ≠ .frame item := by
      rintro rfl
      simp [reads, hst] at hr
    -- the pump goes on with nothing in its hands
    have hgoes {q : Pump} (hq : c.playTask = some q) (hqd : q.pc ≠ .done) (hqh : Holds ch q.pc held)
        (hsub : c.sub = some n) (hstr : c.stream = some name)
        (hint : c.interleaved = some (ch, hi)) (hes : es = []) :
        Copied name n ch ⟨w, c⟩ (h ++ es.map .conn) := by
      subst hes
      exact ⟨aus, held, recovers_of_quiet hrec (by simp [connOf]), hsame,
        .live hq hqd hsub hstr hint (by simpa [connOf] using hwr) hqh⟩
    -- the pump ends and its subscriber leaves
    have hends {c₀ : Conn} {p' : Pump} {ex : List Effect} (hex : Conn.Exited c₀ p' c ex)
        (hsub : c₀.sub = some n) (hstr : c₀.stream = some name)
        (hes : es = ex ∨ es = .closeWriter :: ex) :
        Copied name n ch ⟨w, c⟩ (h ++ es.map .conn) := by
      obtain ⟨rfl, hidle⟩ := exited_leaves hex hsub hstr
      have hmedia : ∀ a ps, .media a ps ∉ connOf (es.map .conn) := by
        rcases hes with rfl | rfl <;> simp [connOf]
      have hgone : ∀ sub ∈ w.stream.subs, sub.id ≠ n := by
        rcases hes with rfl | rfl
        · exact calls_gone hw
        · exact calls_gone (w := s.world) hw
      exact ⟨aus, held, recovers_of_quiet hrec hmedia, hsame,
        .idle hidle fun sub hs hid => absurd hid (hgone sub hs)⟩
    cases hs with
    | unstarted hpc =>
      rw [hpc] at hh
      refine ⟨aus, held, recovers_of_quiet hrec (by simp [connOf]), hsame, .idle ?_ fun _ _ _ => hh⟩
      rintro q ⟨⟩
      rfl
    | cancelledGetting _ _ hex => exact hends hex hn hst (.inl rfl)
    | cancelledWaiting _ _ hex | cancelledDraining _ _ hex | lost _ _ hex =>
      exact hends hex hn hst (.inl rfl)
    | crashes _ _ _ hex | crashTurn _ _ _ hex => exact hends hex hn hst (.inr rfl)
    | starts hpc =>
      rw [hpc] at hh
      exact hgoes rfl (by simp) hh hn hst hin rfl
    | drained hpc | crashWaits hpc =>
      rw [hpc] at hh
      exact hgoes rfl (by simp) hh hn hst hin rfl
    | acquired hpc =>
      rw [hpc] at hh
      obtain ⟨rfl, nals, rfl, hcar⟩ := hh
      refine ⟨aus ++ [nals], [], recovers_of_media hrec hwr (by simp [connOf]) hcar, ?_,
        .live rfl (by simp) hn hst hin ?_ rfl⟩
      · rw [hsame, List.append_nil]
      · simpa [connOf] using hwr
    | writes => exact absurd rfl (hnoread _)
    | queues => exact absurd rfl (hnoread _)
    | sends => exact absurd rfl (hnoread _)
    | drops => exact absurd rfl (hnoread _)

/-- The pump takes an item off its queue. -/
theorem Copied.get {srv : Server} {s : System} (hc : Copied name n ch s h)
    (ht : s.conn.TidyFields) {m : Nat} {item : HubFrame} {c : Conn} {es : List Effect}
    (hm : s.conn.sub = some m) (hs : s.conn.step srv (.pump (.frame item)) = some (c, es))
    (hitem : m = n → item.nals ≠ [] ∧ ∀ nal ∈ item.nals, Packetizer.Sendable nal) :
    Copied name n ch ⟨s.world.get m, c⟩ (h ++ ([.read m item].map .hub ++ es.map .conn)) := by
  obtain ⟨aus, held, hrec, hread, hph⟩ := hc
  rcases Conn.step_cases hs with ⟨_, he, -⟩ | ⟨j, p, he, hp, hd, hps⟩
  · cases he
  · cases he
    cases hph with
    | idle hidle => exact absurd (hidle p hp) hd
    | @live q hi hq _ hn hst hin hwr hh =>
      cases hp.symm.trans hq
      cases hn.symm.trans hm
      obtain ⟨hne, hsend⟩ := hitem rfl
      have hcar : Carries (s.conn.packetizer.packetize item.nals item.ts90k).2 item.nals := by
        intro d hfu hnals
        obtain ⟨hmtu, hpt⟩ := ht.format
        have hthree : 3 ≤ s.conn.packetizer.mtu := by omega
        have hbit : s.conn.packetizer.pt &&& 0x80 = 0 := by
          rw [hpt]
          decide
        rw [Packetizer.feedAll_packetize item.ts90k hthree hbit hsend hne hfu, hnals, List.nil_append]
      have hread' : (readBy n (hubOf
          (h ++ ([.read n item].map .hub ++ es.map .conn)))).map (·.nals) =
            aus ++ held ++ [item.nals] := by
        rw [hubOf_append, hubOf_append, hubOf_hub, hubOf_conn, List.append_nil, readBy_append,
          readBy_read, if_pos rfl, List.map_append, hread]
        rfl
      have hconn : connOf ([.read n item].map .hub ++ es.map .conn) = es := by
        rw [connOf_append, connOf_hub, connOf_conn, List.nil_append]
      cases hps with
      | writes hpc _ hv =>
        rw [hpc] at hh
        cases hh
        cases hin.symm.trans hv
        refine ⟨aus ++ [item.nals], [], recovers_of_media hrec hwr hconn hcar, ?_,
          .live rfl (by simp) hn hst hin ?_ rfl⟩
        · simpa using hread'
        · rw [connOf_append, hconn]
          simpa using hwr
      | queues hpc _ hv =>
        rw [hpc] at hh
        cases hh
        cases hin.symm.trans hv
        refine ⟨aus, [item.nals], recovers_of_quiet hrec (by rw [hconn]; simp), ?_,
          .live rfl (by simp) hn hst hin ?_ ⟨rfl, item.nals, rfl, hcar⟩⟩
        · simpa using hread'
        · rw [connOf_append, hconn]
          simpa using hwr
      | sends _ _ hv => simp [hin] at hv
      | drops _ _ hv => simp [hin] at hv

end
end System
end DvrBridge
