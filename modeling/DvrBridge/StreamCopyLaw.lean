import DvrBridge.StreamCopy

/-! The stream copy law: what a client gets out of the bytes of a connection, over every run of a
stream and the connection. -/
namespace DvrBridge.System
open Machine World

/-- One PLAY, from its subscribe on; `h₀` is the history before. -/
structure Session (name : Str) (n : Nat) (ch : Int) (h₀ : List SystemOutput) (s : System)
    (h : List SystemOutput) : Prop where
  sound : s.Sound (h₀ ++ h)
  unknown : received n (hubOf h₀) = [] ∧ readBy n (hubOf h₀) = []
  made : n < s.conn.made
  relays : Relays (nalsOf (frames h₀)) (frames h) (items h)
  gate : Gate n s.world h
  copied : Copied name n ch s h

section
variable {srv : Server} {name : Str} {n : Nat} {ch : Int} {h₀ h o : List SystemOutput}

/-- A step that relays nothing. -/
theorem relays_quiet {past : List Bytes} (hr : Relays past (frames h) (items h))
    (hf : frames o = []) (hi : items o = []) : Relays past (frames (h ++ o)) (items (h ++ o)) := by
  rw [frames_append, items_append, hf, hi, List.append_nil, List.append_nil]
  exact hr

theorem relays_hub {w w' : World} {past : List Bytes} (hr : Relays past (frames h) (items h))
    (hc : Stream.Cached (past ++ nalsOf (frames h)) w.stream) {i : Input} {os : List Relay}
    (hs : HubStep w w' i os) :
    Relays past (frames (h ++ ((delivered i).map .delivered ++ (w.observe i os).map .hub)))
      (items (h ++ ((delivered i).map .delivered ++ (w.observe i os).map .hub))) := by
  have hfr : frames ((delivered i).map .delivered ++ (w.observe i os).map .hub) =
      frames ((delivered i).map .delivered) := by simp
  have hit : items ((delivered i).map .delivered ++ (w.observe i os).map .hub) =
      (puts (w.observe i os)).map (·.item) := by simp [items]
  cases hs with
  | quiet hq hget hf =>
    refine relays_quiet hr (hfr.trans (frames_quiet hf)) ?_
    rw [hit]
    cases i with
    | get x => exact absurd rfl (hget x)
    | _ => rfl
  | @relays t now₁ now₂ f info conn item hn hk hnals =>
    have hone : frames ((delivered (.run t now₁ now₂ (.frame f info))).map .delivered) = [f] := by
      simp [delivered, frames, hn]
    rw [frames_append, items_append, hfr, hit, hone]
    exact hr.snoc hn hk (hnals ▸ hc.accessUnit f)
  | @gets top =>
    refine relays_quiet hr (hfr.trans rfl) ?_
    rw [hit, observe]
    cases w.head? top.id <;> rfl
  | subscribes => exact relays_quiet hr (hfr.trans rfl) (hit.trans rfl)
  | unsubscribes => exact relays_quiet hr (hfr.trans rfl) (hit.trans rfl)

/-- The numbers of the connection's subscribers are counted up. -/
theorem made_le {c c' : Conn} {i : ConnInput} {es : List Effect}
    (h : c.step srv i = some (c', es)) : c.made ≤ c'.made := by
  rcases Conn.step_cases h with ⟨j, -, hs⟩ | ⟨j, p, -, -, -, hs⟩
  · rcases hs.keepsPump with ⟨_, -, -, -, -, -, -, hm⟩ | hk
    · omega
    · exact hk.made.ge
  · have hexit {c₀ : Conn} {q : Pump} {ex : List Effect} (hex : Conn.Exited c₀ q c' ex) :
        c'.made = c₀.made := by cases hex <;> rfl
    cases hs with
    | cancelledGetting _ _ hex | cancelledWaiting _ _ hex | cancelledDraining _ _ hex
    | lost _ _ hex => exact (hexit hex).ge
    | crashes _ _ _ hex | crashTurn _ _ _ hex => exact (hexit hex).ge
    | _ => exact le_refl _

/-- The step lemma of a session. -/
theorem Session.step {s s' : System} (hs : Session name n ch h₀ s h) {i : SystemInput}
    (hstep : s.step srv name i = some (s', o)) (hi : i.Read)
    (hno : ∀ x m, .conn (.subscribe x m) ∉ o) (hf : ∀ f ∈ frames h, f.Proper)
    (hfull : NeverFull n s'.world) : Session name n ch h₀ s' (h ++ o) := by
  have hsound : s'.Sound (h₀ ++ (h ++ o)) := by
    rw [← List.append_assoc]
    exact hs.sound.step hstep hi
  cases step_inv hstep with
  | hub ho hw =>
    refine ⟨hsound, hs.unknown, hs.made, relays_hub hs.relays ?_ hw,
      hs.gate.hub hs.sound.fan.nodup hs.made ho hw hfull, hs.copied.hub hs.made ho hw⟩
    have := hs.sound.cached
    rwa [frames_append, nalsOf_append] at this
  | @conn j now c es w hr hc hw =>
    have hno' : ∀ x m, .subscribe x m ∉ es :=
      fun x m he => hno x m (List.mem_map_of_mem he)
    have hmade := made_le hc
    refine ⟨hsound, hs.unknown, by simp only; exact hs.made.trans_le hmade,
      relays_quiet hs.relays (frames_conn es) (by simp [items]), ?_, ?_⟩
    · refine hs.gate.keep (by simp) fun sub hsub hid => ⟨sub, ?_, hid, rfl⟩
      exact calls_subs (fun x => hno' name x) hw sub hsub
    · rcases Conn.step_cases hc with ⟨k, rfl, hl⟩ | ⟨k, p, rfl, hp, hd, hps⟩
      · exact hs.copied.loop hl hw hno'
      · exact hs.copied.pump hp hd hps hr hw
  | @get m item c es hst hm hhead hc =>
    have hmade := made_le hc
    refine ⟨hsound, hs.unknown, by simp only; exact hs.made.trans_le hmade, ?_, ?_, ?_⟩
    · refine relays_quiet hs.relays ?_ ?_
      · rw [frames_append, frames_hub, frames_conn, List.append_nil]
      · simp [items, puts, hubOf]
    · refine hs.gate.get ?_
      rw [hubOf_append, hubOf_hub, hubOf_conn, List.append_nil]
      rfl
    · refine hs.copied.get hs.sound.tidy.1 hm hc ?_
      rintro rfl
      -- what is on the queue was relayed in this session
      obtain ⟨sub, hsub, hid, hq⟩ := head?_eq_some hhead
      have hrec := (hs.sound.fan.law m).queued sub hsub hid
      rw [hubOf_append, received_append, hs.unknown.1, List.nil_append] at hrec
      have hmem : item ∈ received m (hubOf h) := by
        rw [← hrec, hq]
        simp
      exact hs.relays.sendable hf item (received_sublist m h hmem)

/-- The session begins with the subscribe of a PLAY. -/
theorem Sound.session {s s' : System} {h : List SystemOutput} (hs : s.Sound h) {i : SystemInput}
    (hstep : s.step srv name i = some (s', [.conn (.subscribe name n)])) (hi : i.Read) {hi' : Int}
    (hch : s'.conn.interleaved = some (ch, hi')) :
    Session name n ch (h ++ [.conn (.subscribe name n)]) s' [] := by
  have hsound := hs.step hstep hi
  generalize ho : [SystemOutput.conn (.subscribe name n)] = o at hstep hsound
  have hconn : connOf o = [.subscribe name n] := by rw [← ho]; rfl
  have hhub : hubOf o = [] := by rw [← ho]; rfl
  cases step_inv hstep with
  | hub => simp at hconn
  | get =>
    rw [hubOf_append, hubOf_hub] at hhub
    cases hhub
  | @conn j now c es w hr hc hw =>
    rw [connOf_conn] at hconn
    subst hconn
    obtain ⟨v, hv, he⟩ := Option.bind_eq_some_iff.mp hw
    cases he
    cases call_step hv with
    | quiet _ hne => exact absurd rfl (hne n)
    | subscribes hx hsubs =>
      rcases Conn.step_cases hc with ⟨k, -, hl⟩ | ⟨k, p, -, -, -, hps⟩
      · rcases hl.keepsPump with ⟨x, -, he, hp, hsub, hst, -, hmade⟩ | hk
        · cases he
          refine ⟨by rw [List.append_nil]; exact hsound, ?_, by simp only; omega, .nil, ?_, ?_⟩
          · rw [hubOf_append, hhub, List.append_nil]
            exact hs.fan.received_new hx
          · refine ⟨fun sub hm hid => ?_, List.nil_prefix⟩
            rw [hsubs, List.mem_append, List.mem_singleton] at hm
            rcases hm with hm | rfl
            · exact absurd (hid ▸ hs.fan.known sub hm) hx
            · exact ⟨rfl, by simp [shown, items, hubOf]⟩
          · exact ⟨[], [], rfl, rfl, .live hp (by simp) hsub hst hch (by simp [connOf]) rfl⟩
        · exact (hk.aside _ (List.mem_singleton_self _)).elim
      · have hexit {c₀ : Conn} {q : Pump} {ex : List Effect} (hex : Conn.Exited c₀ q c ex) :
            .subscribe name n ∉ ex := by cases hex <;> simp
        exfalso
        generalize hes : [Effect.subscribe name n] = es at hps
        have hmem : .subscribe name n ∈ es := hes ▸ List.mem_singleton_self _
        cases hps with
        | cancelledGetting _ _ hex | cancelledWaiting _ _ hex | cancelledDraining _ _ hex
        | lost _ _ hex => exact hexit hex hmem
        | crashes _ _ _ hex | crashTurn _ _ _ hex => simp at hes
        | sends => simp at hmem
        | _ => cases hes

/-- What the pump has not sent yet. -/
theorem Session.waiting {s : System} (hs : Session name n ch h₀ s h) :
    ∃ aus rest, Recovers ch h aus ∧ (shown h).map (·.nals) = aus ++ rest ∧
      ∀ sub ∈ s.world.stream.subs, sub.id = n →
        rest.length = s.conn.inHand + sub.queue.length := by
  obtain ⟨aus, held, hrec, hread, hph⟩ := hs.copied
  have hlaw := hs.sound.fan.law n
  have hreceived : received n (hubOf (h₀ ++ h)) = received n (hubOf h) := by
    rw [hubOf_append, received_append, hs.unknown.1, List.nil_append]
  have hreadBy : readBy n (hubOf (h₀ ++ h)) = readBy n (hubOf h) := by
    rw [hubOf_append, readBy_append, hs.unknown.2, List.nil_append]
  have hprefix := hlaw.read
  rw [hreceived, hreadBy] at hprefix
  obtain ⟨left, hleft⟩ := hprefix.trans hs.gate.behind
  refine ⟨aus, held ++ left.map (·.nals), hrec, ?_, fun sub hsub hid => ?_⟩
  · rw [← hleft, List.map_append, hread, List.append_assoc]
  · have hqueue := hlaw.queued sub hsub hid
    rw [hreceived, hreadBy, (hs.gate.subscribed sub hsub hid).1, ← hleft] at hqueue
    rw [List.length_append, List.length_map, ← List.append_cancel_left hqueue]
    congr 1
    cases hph with
    | idle hidle hgone =>
      rw [hgone sub hsub hid, Conn.inHand]
      split
      · rename_i hp
        cases hidle _ hp
      · rfl
    | @live p _ hp _ _ _ _ _ hh =>
      obtain ⟨pc, cr⟩ := p
      rw [Conn.inHand, hp]
      cases pc with
      | locking c packets =>
        obtain ⟨-, nals, rfl, -⟩ := hh
        rfl
      | _ =>
        cases hh
        rfl

/-- The stream copy law. After any run before it, a PLAY on an interleaved connection subscribes;
until the connection subscribes again the client's parts are the answers and packets in the order
in which they were sent, and its packets give back the access units of the relayed frames from the
first keyframe on. While the subscriber is there, what is missing at the end waits on its queue or
in the hands of the pump. -/
theorem stream_copy (srv : Server) (name : Str) (alwaysOn : Bool) (linger : ℚ)
    (peer : Option Str) (ssrc : Nat) (is₁ is₂ : List SystemInput) (i : SystemInput)
    (s₀ s₁ s₂ : System) (h₁ h₂ : List SystemOutput) (n : Nat) (ch hi : Int)
    (hr₁ : run (step srv name) (fresh alwaysOn linger peer ssrc) is₁ = some (s₀, h₁))
    (hsub : s₀.step srv name i = some (s₁, [.conn (.subscribe name n)]))
    (hch : s₁.conn.interleaved = some (ch, hi))
    (hr₂ : run (step srv name) s₁ is₂ = some (s₂, h₂))
    (hread : ∀ j ∈ is₁ ++ i :: is₂, j.Read)
    (hone : ∀ x m, .conn (.subscribe x m) ∉ h₂)
    (hproper : ∀ f ∈ frames h₂, f.Proper)
    (hfull : EveryStep (step srv name) (fun _ _ _ s' _ => NeverFull n s'.world) s₁ is₂) :
    ∃ session items aus rest,
      Client.receive (Conn.wire (connOf (h₁ ++ [.conn (.subscribe name n)] ++ h₂))) =
        some (Conn.parts (connOf h₁) ++ session) ∧
      Relays (nalsOf (frames h₁) ++ nalsOf ((frames h₂).takeWhile fun f => !f.keyframe))
        ((frames h₂).dropWhile fun f => !f.keyframe) items ∧
      Depacketizer.feedAll {} (Client.packetsOn ch.toNat session) = some { units := aus } ∧
      items.map (·.nals) = aus ++ rest ∧
      (.closeWriter ∉ connOf h₁ → session = Conn.parts (connOf h₂) ∧
        ∀ sub ∈ s₂.world.stream.subs, sub.id = n →
          rest.length = s₂.conn.inHand + sub.queue.length) := by
  have hs₀ : s₀.Sound h₁ := by
    refine run_invariant (Q := fun _ _ i _ _ => i.Read) Sound (sound_fresh alwaysOn linger peer ssrc)
      (fun s h i s' o hs hstep hi => hs.step hstep hi) (everyStep_of_forall_mem ?_) hr₁
    exact fun j hj => hread j (List.mem_append_left _ hj)
  have hs₁ : Session name n ch (h₁ ++ [.conn (.subscribe name n)]) s₁ [] :=
    hs₀.session hsub (hread i (by simp)) hch
  have hs₂ : Session name n ch (h₁ ++ [.conn (.subscribe name n)]) s₂ h₂ := by
    refine run_invariant
      (Q := fun _ h i s' o => (i.Read ∧ NeverFull n s'.world) ∧ h ++ o <+: h₂)
      (fun s h => Session name n ch (h₁ ++ [.conn (.subscribe name n)]) s h) hs₁ ?_
      (((everyStep_of_forall_mem ?_).and hfull).and (everyStep_begins hr₂)) hr₂
    · rintro s h j s' o hs hstep ⟨⟨hj, hnf⟩, hpre⟩
      refine hs.step hstep hj (fun x m hm => hone x m ?_) (fun f hf => hproper f ?_) hnf
      · exact hpre.subset (List.mem_append_right _ hm)
      · obtain ⟨rest, rfl⟩ := hpre
        simp [hf]
    · exact fun j hj => hread j (by simp [hj])
  obtain ⟨aus, rest, hrec, hshown, hrest⟩ := hs₂.waiting
  have hparts : Conn.parts (connOf (h₁ ++ [.conn (.subscribe name n)])) =
      Conn.parts (connOf h₁) := by
    rw [connOf_append, Conn.parts_append]
    split
    · rw [List.append_nil]
    · simp [Conn.parts, Conn.sent, Conn.messages, connOf]
  have hrecv := Conn.receive_wire hs₂.sound.clean
  rw [connOf_append, Conn.parts_append, hparts] at hrecv
  have hrelays := hs₂.relays.fromKey
  rw [frames_append, nalsOf_append] at hrelays
  have hpast : nalsOf (frames [SystemOutput.conn (.subscribe name n)]) = [] := rfl
  rw [hpast, List.append_nil] at hrelays
  have hmem : .closeWriter ∈ connOf (h₁ ++ [.conn (.subscribe name n)]) ↔
      .closeWriter ∈ connOf h₁ := by
    rw [connOf_append, List.mem_append]
    simp [connOf]
  rw [connOf_append]
  by_cases hclosed : .closeWriter ∈ connOf h₁
  · rw [if_pos (hmem.mpr hclosed)] at hrecv
    exact ⟨[], shown h₂, [], (shown h₂).map (·.nals), hrecv, hrelays, rfl, rfl,
      fun hn => absurd hclosed hn⟩
  · rw [if_neg fun hm => hclosed (hmem.mp hm)] at hrecv
    exact ⟨_, shown h₂, aus, rest, hrecv, hrelays, hrec, hshown, fun _ => ⟨rfl, hrest⟩⟩

end

/-- A request as it arrives. -/
def request (line : String) (headers : List String) : SystemInput :=
  .conn (.loop (.request (PyText.encode line.toList) (.ofLines (headers.map String.toList))
    (hex [0x17, 0x2a]))) 0

theorem request_read {line : String} {headers : List String}
    (h : ∀ l ∈ headers.map String.toList, ReadLine l) : (request line headers).Read :=
  ⟨⟨_, h, rfl⟩, _, rfl⟩

def viewerServer : Server := { hub := ["cam".toList], urlPath := Conn.plainPath }

/-- A viewer up to the answer to PLAY. -/
def viewerSetup : List SystemInput :=
  [request "SETUP rtsp://h/cam RTSP/1.0" ["CSeq: 1\r\n", "Transport: RTP/AVP/TCP\r\n"],
    .conn (.loop .drained) 0, request "PLAY rtsp://h/cam RTSP/1.0" ["CSeq: 2\r\n"]]

/-- A P-frame, an IDR with its parameter sets and one without; a request between the writes. -/
def viewerPlay : List SystemInput :=
  [.conn (.pump .start) 0, .hub (.run 0 0 0 .begin),
    .hub (.run 0 0 0 (.frame { payload := [0, 0, 1, 0x41, 1] } {})),
    .hub (.run 0 0 0 (.frame
      { payload := [0, 0, 1, 0x67, 1, 0, 0, 1, 0x68, 2, 0, 0, 1, 0x65, 3], keyframe := true } {})),
    .get, request "GET_PARAMETER rtsp://h/cam RTSP/1.0" ["CSeq: 3\r\n"], .conn (.pump .drained) 0,
    .conn (.loop .acquired) 0,
    .hub (.run 0 0 0 (.frame { payload := [0, 0, 1, 0x65, 4], keyframe := true } {})), .get,
    .conn (.loop .drained) 0, .conn (.pump .acquired) 0]

instance (n : Nat) (w : World) : Decidable (NeverFull n w) :=
  inferInstanceAs (Decidable (∀ sub ∈ w.stream.subs, sub.id = n → sub.dropped = 0))

instance (f : VideoFrame) : Decidable f.Proper :=
  inferInstanceAs (Decidable (∀ n ∈ frameNals f.payload, 1 ≤ H264.nalType n ∧ H264.nalType n ≤ 23))

/-- No part of the output is a subscribe. -/
def noSubscribe : SystemOutput → Bool
  | .conn (.subscribe _ _) => false
  | _ => true

theorem viewer_run :
    ((run (step viewerServer "cam".toList) (fresh false 10 none 7) viewerSetup).bind fun r =>
      (r.1.step viewerServer "cam".toList (.conn (.loop .drained) 0)).bind fun q =>
        (run (step viewerServer "cam".toList) q.1 viewerPlay).map fun t : System × List SystemOutput =>
          (q.2, decide (q.1.conn.interleaved = some (0, 1) ∧ (frames t.2).length = 3 ∧
            t.2.all noSubscribe = true ∧ (∀ f ∈ frames t.2, f.Proper) ∧
            checkEvery (step viewerServer "cam".toList)
              (fun _ _ _ s _ => decide (NeverFull 0 s.world)) q.1 [] viewerPlay = true))) =
      some ([.conn (.subscribe "cam".toList 0)], true) := by
  decide +kernel

theorem stream_copy_viewer : ∃ s₀ s₁ s₂ h₁ h₂,
    run (step viewerServer "cam".toList) (fresh false 10 none 7) viewerSetup = some (s₀, h₁) ∧
    s₀.step viewerServer "cam".toList (.conn (.loop .drained) 0) =
      some (s₁, [.conn (.subscribe "cam".toList 0)]) ∧
    run (step viewerServer "cam".toList) s₁ viewerPlay = some (s₂, h₂) ∧
    (frames h₂).length = 3 ∧
    ∃ session items aus rest,
      Client.receive
          (Conn.wire (connOf (h₁ ++ [.conn (.subscribe "cam".toList 0)] ++ h₂))) =
        some (Conn.parts (connOf h₁) ++ session) ∧
      Relays (nalsOf (frames h₁) ++ nalsOf ((frames h₂).takeWhile fun f => !f.keyframe))
        ((frames h₂).dropWhile fun f => !f.keyframe) items ∧
      Depacketizer.feedAll {} (Client.packetsOn (0 : Int).toNat session) = some { units := aus } ∧
      items.map (·.nals) = aus ++ rest ∧
      (.closeWriter ∉ connOf h₁ → session = Conn.parts (connOf h₂) ∧
        ∀ sub ∈ s₂.world.stream.subs, sub.id = 0 →
          rest.length = s₂.conn.inHand + sub.queue.length) := by
  obtain ⟨⟨s₀, h₁⟩, hr₁, hrest⟩ := Option.bind_eq_some_iff.mp viewer_run
  obtain ⟨⟨s₁, o⟩, hsub, hrest⟩ := Option.bind_eq_some_iff.mp hrest
  obtain ⟨⟨s₂, h₂⟩, hr₂, he⟩ := Option.map_eq_some_iff.mp hrest
  rw [Prod.mk.injEq, decide_eq_true_eq] at he
  obtain ⟨rfl, hch, hlen, hno, hproper, hfull⟩ := he
  refine ⟨s₀, s₁, s₂, h₁, h₂, hr₁, hsub, hr₂, hlen, ?_⟩
  have hlines : ∀ l ∈ ["CSeq: 1\r\n", "Transport: RTP/AVP/TCP\r\n", "CSeq: 2\r\n",
      "CSeq: 3\r\n"].map String.toList, ReadLine l := by
    unfold ReadLine
    decide +kernel
  simp only [List.map_cons, List.map_nil, List.forall_mem_cons] at hlines
  obtain ⟨hcseq₁, htransport, hcseq₂, hcseq₃, -⟩ := hlines
  have hsetup : ∀ j ∈ viewerSetup, j.Read := by
    refine List.forall_mem_cons.mpr ⟨request_read ?_, List.forall_mem_cons.mpr ⟨trivial,
      List.forall_mem_singleton.mpr (request_read (List.forall_mem_singleton.mpr hcseq₂))⟩⟩
    exact List.forall_mem_cons.mpr ⟨hcseq₁, List.forall_mem_singleton.mpr htransport⟩
  have hplay : ∀ j ∈ viewerPlay, j.Read := by
    have hget : (request "GET_PARAMETER rtsp://h/cam RTSP/1.0" ["CSeq: 3\r\n"]).Read :=
      request_read (List.forall_mem_singleton.mpr hcseq₃)
    simp only [viewerPlay, List.forall_mem_cons]
    exact ⟨trivial, trivial, trivial, trivial, trivial, hget, trivial, trivial, trivial, trivial,
      trivial, trivial, by simp⟩
  have hread : ∀ j ∈ viewerSetup ++ .conn (.loop .drained) 0 :: viewerPlay, j.Read :=
    List.forall_mem_append.mpr ⟨hsetup, List.forall_mem_cons.mpr ⟨trivial, hplay⟩⟩
  refine stream_copy viewerServer "cam".toList false 10 none 7 viewerSetup viewerPlay _ s₀ s₁ s₂
    h₁ h₂ 0 0 1 hr₁ hsub hch hr₂ hread (fun x m hm => ?_) hproper
    (everyStep_of_checkEvery hfull)
  have := List.all_eq_true.mp hno _ hm
  cases this

end DvrBridge.System
