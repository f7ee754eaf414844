import DvrBridge.RtspClean
import DvrBridge.RtspRead

/-! Along every run a connection writes only messages that a client can tell apart. -/
namespace DvrBridge
open PyText

/-- What `_read_request` hands on, with what `token_hex` gives. -/
def LoopInput.Read : LoopInput → Prop
  | .request _ headers token =>
    (∃ lines, (∀ l ∈ lines, ReadLine l) ∧ headers = Headers.ofLines lines) ∧
      ∃ bs, token = hex bs
  | _ => True

/-- Whatever the client sends, what `_read_request` makes of it meets this. -/
theorem Rtsp.inputOf_read (bs token : Bytes) : (inputOf bs (hex token)).Read := by
  unfold inputOf
  cases hr : readRequest bs with
  | error e => cases e <;> trivial
  | ok res =>
    obtain ⟨r, rest⟩ := res
    cases r with
    | skipped => trivial
    | request line headers body => exact ⟨readRequest_headers hr, token, rfl⟩

/-- A handler's `CSeq`, if a handler sends. -/
def OneLineCSeq (handler : Option Str) : Prop := ∀ cseq, handler = some cseq → '\n' ∉ cseq

def LoopPc.Tidy : LoopPc → Prop
  | .waitReady url _ cseq => '\n' ∉ url ∧ '\n' ∉ cseq
  | .opening _ cseq => '\n' ∉ cseq
  | .locking handler r _ => OneLineCSeq handler ∧ r.Clean
  | .draining handler _ => OneLineCSeq handler
  | _ => True

def PumpPc.Tidy : PumpPc → Prop
  | .locking ch packets => ∀ pkt ∈ packets, (Message.packet ch pkt).Clean
  | _ => True

namespace Conn

/-- What the answers and packets to come are made of. -/
structure TidyFields (c : Conn) : Prop where
  session : '\n' ∉ c.sessionId.getD []
  channels : ∀ v, c.interleaved = some v → 0 ≤ v.1 ∧ v.1 ≤ 255
  format : c.packetizer.mtu = 1400 ∧ c.packetizer.pt = 96
  pump : ∀ p, c.playTask = some p → p.pc.Tidy

def Tidy (c : Conn) : Prop := c.TidyFields ∧ c.pc.Tidy

/-- Every message in these effects is clean. -/
def AllClean (o : List Effect) : Prop := ∀ e ∈ o, ∀ m ∈ messages e, m.Clean

theorem allClean_append {o o' : List Effect} :
    AllClean (o ++ o') ↔ AllClean o ∧ AllClean o' := by
  simp only [AllClean, List.mem_append, or_imp, forall_and]

theorem allClean_cons {e : Effect} {o : List Effect} :
    AllClean (e :: o) ↔ (∀ m ∈ messages e, m.Clean) ∧ AllClean o := by
  simp only [AllClean, List.mem_cons, or_imp, forall_and, forall_eq]

theorem allClean_nil : AllClean [] := by simp [AllClean]

/-- An effect that writes nothing. -/
theorem AllClean.cons {e : Effect} {o : List Effect} (h : AllClean o) (he : messages e = []) :
    AllClean (e :: o) := allClean_cons.mpr ⟨by simp [he], h⟩

theorem allClean_released (c : Conn) : AllClean c.released :=
  forall_mem_released (by simp [messages]) c

theorem Sent.tidy {c c' : Conn} {handler : Option Str} {r : Response} {k : After}
    {o : List Effect} (h : Sent c handler r k c' o) (hc : c.TidyFields) (hr : r.Clean)
    (hh : OneLineCSeq handler) : c'.Tidy ∧ AllClean o := by
  cases h with
  | written =>
    refine ⟨⟨⟨hc.session, hc.channels, hc.format, hc.pump⟩, hh⟩, allClean_cons.mpr ⟨?_, allClean_nil⟩⟩
    intro m hm
    cases List.mem_singleton.mp hm
    exact hr
  | queued => exact ⟨⟨⟨hc.session, hc.channels, hc.format, hc.pump⟩, hh, hr⟩, allClean_nil⟩

theorem Stopped.tidy {c c' : Conn} {why : Leave} {o : List Effect} (h : Stopped c why c' o)
    (hc : c.TidyFields) : c'.Tidy ∧ AllClean o := by
  cases h with
  | joins p hp =>
    refine ⟨⟨⟨hc.session, hc.channels, hc.format, fun q hq => ?_⟩, trivial⟩, allClean_nil⟩
    cases hq
    exact hc.pump p hp
  | tornDown =>
    refine ⟨⟨⟨by simp, by simp, hc.format, by simp⟩, trivial⟩, allClean_append.mpr ⟨?_, ?_⟩⟩
    · exact allClean_released c
    · exact allClean_nil.cons rfl
  | closes =>
    refine ⟨⟨⟨hc.session, by simp, hc.format, by simp⟩, trivial⟩, allClean_append.mpr ⟨?_, ?_⟩⟩
    · exact allClean_released c
    · exact allClean_nil.cons rfl

theorem parseInterleaved_range {s : Str} {v : Int × Int} (h : parseInterleaved s = some v) :
    0 ≤ v.1 ∧ v.1 ≤ 255 := by
  simp only [parseInterleaved, Option.bind_eq_some_iff, Option.ite_none_right_eq_some] at h
  obtain ⟨lo, -, hi, -, ⟨h0, h255, -⟩, he⟩ := h
  cases he
  exact ⟨h0, h255⟩

theorem interleavedFields_range {cur v : Int × Int} {fs : List Str} {good : Bool}
    (h : interleavedFields cur fs = (v, good)) (hc : 0 ≤ cur.1 ∧ cur.1 ≤ 255) :
    0 ≤ v.1 ∧ v.1 ≤ 255 := by
  induction fs generalizing cur with
  | nil =>
    cases h
    exact hc
  | cons f fs ih =>
    rw [interleavedFields] at h
    split at h
    · split at h
      · rename_i hp
        exact ih h (parseInterleaved_range hp)
      · cases h
        exact hc
    · exact ih h hc

theorem SetupStep.tidy {srv : Server} {c c₁ : Conn} {url : Str} {headers : Headers}
    {cseq token : Str} {out : Outcome} (h : SetupStep srv c url headers cseq token c₁ out)
    (hc : c.TidyFields) (ht : '\n' ∉ token) : c₁.TidyFields := by
  have hcleared : c.cleared.TidyFields := ⟨hc.session, by simp [cleared], hc.format, hc.pump⟩
  have hsession (s : Str) : '\n' ∉ (c.placed s token).sessionId.getD [] := by
    simp only [placed]
    split
    · exact ht
    · exact hc.session
  have hplaced (s : Str) : (c.placed s token).TidyFields :=
    ⟨hsession s, hcleared.channels, hc.format, hc.pump⟩
  cases h with
  | crash | notFound => exact hcleared
  | udp | udpBad => exact hplaced _
  | tcp _ _ hv | tcpBad _ _ hv =>
    rename_i s w hs hi
    refine ⟨hsession s, fun v he => ?_, hc.format, hc.pump⟩
    cases he
    exact interleavedFields_range hv (by decide)

theorem SetupStep.clean {srv : Server} {c c₁ : Conn} {url : Str} {headers : Headers}
    {cseq token : Str} {r : Response} {k : After}
    (h : SetupStep srv c url headers cseq token c₁ (.answer r k)) (hc : c₁.TidyFields)
    (hq : '\n' ∉ cseq) : r.Clean := by
  generalize ho : Outcome.answer r k = out at h
  cases h with
  | tcp =>
    have ht := newline_not_mem_interleavedTransport c
    exact setupAnswer_clean ho.symm hc.session hq (ht _)
  | _ => cases ho

theorem oneLineCSeq_none : OneLineCSeq none := fun _ h => by cases h

theorem oneLineCSeq_some {cseq : Str} (h : '\n' ∉ cseq) : OneLineCSeq (some cseq) :=
  fun _ he => Option.some.inj he ▸ h

theorem HandlerStep.tidy {srv : Server} {c c' : Conn} {url : Str} {headers : Headers}
    {cseq token : Str} {m : Method} {o : List Effect}
    (h : HandlerStep srv c url headers cseq token m c' o) (hc : c.TidyFields) (hu : '\n' ∉ url)
    (hq : '\n' ∉ cseq) (ht : '\n' ∉ token) : c'.Tidy ∧ AllClean o := by
  have hraise {e : RtspError}
      (he : e ∈ [RtspError.badRequest, .notFound, .badState, .unsupportedTransport]) :
      '\n' ∉ e.reason.toList := by
    refine newline_not_mem_reason e ?_
    simp only [List.mem_cons, List.not_mem_nil, or_false] at he ⊢
    tauto
  cases h with
  | answers hm hr hs =>
    exact hs.tidy hc (handle_clean hm hr hc.session hu hq) (oneLineCSeq_some hq)
  | refuses hr hs =>
    exact hs.tidy hc (ofError_clean (hraise (handle_raise hr)) hq) oneLineCSeq_none
  | describeCrashes _ hs =>
    obtain ⟨ht, ho⟩ := hs.tidy hc
    exact ⟨ht, ho.cons rfl⟩
  | waits =>
    exact ⟨⟨⟨hc.session, hc.channels, hc.format, hc.pump⟩, hu, hq⟩, allClean_nil.cons rfl⟩
  | setupCrashes _ hstep hs =>
    obtain ⟨ht, ho⟩ := hs.tidy (hstep.tidy hc ht)
    exact ⟨ht, allClean_append.mpr ⟨allClean_released c, ho.cons rfl⟩⟩
  | setupRefuses _ hstep hs =>
    have he := hstep.error
    have hreason := hraise (by
      simp only [List.mem_cons, List.not_mem_nil, or_false] at he ⊢
      tauto)
    obtain ⟨ht, ho⟩ := hs.tidy (hstep.tidy hc ht) (ofError_clean hreason hq) oneLineCSeq_none
    exact ⟨ht, allClean_append.mpr ⟨allClean_released c, ho⟩⟩
  | setupAnswers _ hstep hs =>
    have hc₁ := hstep.tidy hc ht
    obtain ⟨ht, ho⟩ := hs.tidy hc₁ (hstep.clean hc₁ hq) (oneLineCSeq_some hq)
    exact ⟨ht, allClean_append.mpr ⟨allClean_released c, ho⟩⟩
  | setupOpens _ hstep =>
    have hc₁ := hstep.tidy hc ht
    exact ⟨⟨⟨hc₁.session, hc₁.channels, hc₁.format, hc₁.pump⟩, hq⟩, allClean_released c⟩

theorem newline_not_mem_url {line : Bytes} {method url v : Str} (h : tokens line = [method, url, v]) :
    '\n' ∉ url :=
  newline_not_mem_split (s := strip (latin1 line)) (by rw [← tokens, h]; simp)

theorem newline_not_mem_cseq {headers : Headers} (h : headers.OneLine) :
    '\n' ∉ headers.get "cseq" "0" :=
  newline_not_mem_get h "cseq" "0" (by decide)

/-- A step of the request loop keeps the connection tidy. -/
theorem LoopStep.tidy {srv : Server} {c c' : Conn} {i : LoopInput} {o : List Effect}
    (h : LoopStep srv c i c' o) (hc : c.Tidy) (hi : i.Read) : c'.Tidy ∧ AllClean o := by
  obtain ⟨hf, hpc⟩ := hc
  have hrelease : c.release.TidyFields := ⟨hf.session, hf.channels, hf.format, hf.pump⟩
  have hreason {e : RtspError}
      (he : e ∈ [RtspError.badRequest, .bodyTooLarge, .headersTooLarge]) :
      '\n' ∉ e.reason.toList := by
    refine newline_not_mem_reason e ?_
    simp only [List.mem_cons, List.not_mem_nil, or_false] at he ⊢
    tauto
  cases h with
  | badLine _ _ hs =>
    have hbad : '\n' ∉ "Bad Request".toList := by decide
    exact hs.tidy hf (bare_clean hbad) oneLineCSeq_none
  | unauthorized _ _ _ hs =>
    obtain ⟨⟨lines, hl, rfl⟩, -⟩ := hi
    have hq := newline_not_mem_cseq (oneLine_ofLines hl)
    exact hs.tidy hf (ofError_clean (newline_not_mem_reason _ (by simp)) hq) oneLineCSeq_none
  | authCrashes _ _ _ hs =>
    obtain ⟨ht, ho⟩ := hs.tidy hf
    exact ⟨ht, ho.cons rfl⟩
  | unknown _ _ _ _ hs =>
    obtain ⟨⟨lines, hl, rfl⟩, -⟩ := hi
    have hq := newline_not_mem_cseq (oneLine_ofLines hl)
    exact hs.tidy hf (ofError_clean (newline_not_mem_reason _ (by simp)) hq) oneLineCSeq_none
  | handles _ hu _ _ hs =>
    obtain ⟨⟨lines, hl, rfl⟩, ⟨bs, rfl⟩⟩ := hi
    have hq := newline_not_mem_cseq (oneLine_ofLines hl)
    obtain ⟨ht, ho⟩ := hs.tidy hf (newline_not_mem_url hu) hq (newline_not_mem_hex bs)
    exact ⟨ht, ho.cons rfl⟩
  | skipped => exact ⟨⟨hf, hpc⟩, allClean_nil⟩
  | malformed _ he hs => exact hs.tidy hf (bare_clean (hreason he)) oneLineCSeq_none
  | gone _ hs => exact hs.tidy hf
  | ready hp hd hs =>
    rw [hp] at hpc
    exact hs.tidy hf (describeAnswer_clean hd hpc.1 hpc.2) (oneLineCSeq_some hpc.2)
  | readyCrashes _ hs =>
    obtain ⟨ht, ho⟩ := hs.tidy hf
    exact ⟨ht, ho.cons rfl⟩
  | notReady hp hs =>
    rw [hp] at hpc
    exact hs.tidy hf (timeout_clean hpc.2) oneLineCSeq_none
  | opened hp _ hr hs =>
    rw [hp] at hpc
    have ht := newline_not_mem_udpTransport c
    obtain ⟨ht, ho⟩ := hs.tidy ⟨hf.session, hf.channels, hf.format, hf.pump⟩
      (setupAnswer_clean hr hf.session hpc (ht _ _)) (oneLineCSeq_some hpc)
    exact ⟨ht, ho.cons rfl⟩
  | openedCrashes _ _ hs =>
    obtain ⟨ht, ho⟩ := hs.tidy ⟨hf.session, hf.channels, hf.format, hf.pump⟩
    exact ⟨ht, (ho.cons rfl).cons rfl⟩
  | openFails _ hs =>
    obtain ⟨ht, ho⟩ := hs.tidy hf
    exact ⟨ht, ho.cons rfl⟩
  | acquired hp =>
    rw [hp] at hpc
    refine ⟨⟨⟨hf.session, hf.channels, hf.format, hf.pump⟩, hpc.1⟩,
      allClean_cons.mpr ⟨?_, allClean_nil⟩⟩
    intro m hm
    cases List.mem_singleton.mp hm
    exact hpc.2
  | drained | playsOn => exact ⟨⟨⟨hf.session, hf.channels, hf.format, hf.pump⟩, trivial⟩, allClean_nil⟩
  | subscribes =>
    refine ⟨⟨⟨hf.session, hf.channels, hf.format, fun p hp => ?_⟩, trivial⟩, allClean_nil.cons rfl⟩
    cases hp
    trivial
  | playCrashes _ _ _ hs =>
    obtain ⟨ht, ho⟩ := hs.tidy hrelease
    exact ⟨ht, ho.cons rfl⟩
  | tearsDown _ hs | quits _ _ hs => exact hs.tidy hrelease
  | timedOut hp hs =>
    rw [hp] at hpc
    exact hs.tidy hrelease (timeout_clean (hpc _ rfl)) oneLineCSeq_none
  | joined _ _ _ hs => exact hs.tidy hf
  | closed => exact ⟨⟨⟨hf.session, hf.channels, hf.format, hf.pump⟩, trivial⟩, allClean_nil.cons rfl⟩

theorem Exited.tidy {c c' : Conn} {p : Pump} {o : List Effect} (h : Exited c p c' o)
    (hc : c.Tidy) : c'.Tidy ∧ AllClean o := by
  obtain ⟨hf, hpc⟩ := hc
  cases h with
  | unsubscribes =>
    refine ⟨⟨⟨hf.session, hf.channels, hf.format, fun q hq => ?_⟩, hpc⟩, allClean_nil.cons rfl⟩
    cases hq
    trivial
  | bare =>
    refine ⟨⟨⟨hf.session, hf.channels, hf.format, fun q hq => ?_⟩, hpc⟩, allClean_nil⟩
    cases hq
    trivial

/-- The packets of an access unit on an interleaved channel. -/
theorem TidyFields.packets {c : Conn} (hf : c.TidyFields) {ch hi : Int}
    (hv : c.interleaved = some (ch, hi)) (item : HubFrame) :
    ∀ pkt ∈ (c.packetizer.packetize item.nals item.ts90k).2, (Message.packet ch pkt).Clean := by
  intro pkt hp
  obtain ⟨h0, h255⟩ := hf.channels _ hv
  have hmtu := hf.format.1
  have hlen := Packetizer.length_packetize (by omega) hp
  exact ⟨h0, h255, by omega⟩

/-- A step of the pump keeps the connection tidy. -/
theorem PumpStep.tidy {c c' : Conn} {p : Pump} {i : PumpInput} {o : List Effect}
    (h : PumpStep c p i c' o) (hp : c.playTask = some p) (hc : c.Tidy) :
    c'.Tidy ∧ AllClean o := by
  obtain ⟨hf, hpc⟩ := hc
  have hset {q : Pump} (hq : q.pc.Tidy) : ∀ q', some q = some q' → q'.pc.Tidy :=
    fun q' he => Option.some.inj he ▸ hq
  have hformat (item : HubFrame) :
      (c.packetizer.packetize item.nals item.ts90k).1.mtu = 1400 ∧
        (c.packetizer.packetize item.nals item.ts90k).1.pt = 96 := by
    obtain ⟨hm, ht, -⟩ := Packetizer.emitAll_fst c.packetizer item.ts90k
      (Packetizer.payloads c.packetizer.mtu item.nals)
    exact ⟨hm.trans hf.format.1, ht.trans hf.format.2⟩
  have hpackets {ch : Int} {packets : List Bytes}
      (h : ∀ pkt ∈ packets, (Message.packet ch pkt).Clean) : AllClean [.media ch packets] := by
    refine allClean_cons.mpr ⟨fun m hm => ?_, allClean_nil⟩
    obtain ⟨pkt, hpkt, rfl⟩ := List.mem_map.mp hm
    exact h pkt hpkt
  cases h with
  | unstarted => exact ⟨⟨⟨hf.session, hf.channels, hf.format, hset trivial⟩, hpc⟩, allClean_nil⟩
  | cancelledGetting _ _ he => exact he.tidy ⟨hf, hpc⟩
  | cancelledWaiting _ _ he | cancelledDraining _ _ he | lost _ _ he =>
    exact he.tidy ⟨⟨hf.session, hf.channels, hf.format, hf.pump⟩, hpc⟩
  | starts => exact ⟨⟨⟨hf.session, hf.channels, hf.format, hset trivial⟩, hpc⟩, allClean_nil⟩
  | writes _ _ hv =>
    exact ⟨⟨⟨hf.session, hf.channels, hformat _, hset trivial⟩, hpc⟩, hpackets (hf.packets hv _)⟩
  | queues _ _ hv =>
    exact ⟨⟨⟨hf.session, hf.channels, hformat _, hset (hf.packets hv _)⟩, hpc⟩, allClean_nil⟩
  | sends =>
    refine ⟨⟨⟨hf.session, hf.channels, hformat _, hf.pump⟩, hpc⟩, fun e he => ?_⟩
    obtain ⟨pkt, -, rfl⟩ := List.mem_map.mp he
    simp [messages]
  | drops => exact ⟨⟨hf, hpc⟩, allClean_nil⟩
  | acquired hl =>
    have hheld := hf.pump p hp
    rw [hl] at hheld
    exact ⟨⟨⟨hf.session, hf.channels, hf.format, hset trivial⟩, hpc⟩, hpackets hheld⟩
  | drained => exact ⟨⟨⟨hf.session, hf.channels, hf.format, hset trivial⟩, hpc⟩, allClean_nil⟩
  | crashes _ _ _ he | crashTurn _ _ _ he =>
    obtain ⟨ht, ho⟩ := he.tidy ⟨⟨hf.session, hf.channels, hf.format, hf.pump⟩, hpc⟩
    exact ⟨ht, ho.cons rfl⟩
  | crashWaits => exact ⟨⟨⟨hf.session, hf.channels, hf.format, hset trivial⟩, hpc⟩, allClean_nil⟩

end Conn

/-- The requests are what `_read_request` hands on. -/
def ConnInput.Read : ConnInput → Prop
  | .loop i => i.Read
  | .pump _ => True

namespace Conn

/-- Every step writes clean messages and keeps the connection tidy. -/
theorem Tidy.step {srv : Server} {c c' : Conn} {i : ConnInput} {o : List Effect}
    (hc : c.Tidy) (h : c.step srv i = some (c', o)) (hi : i.Read) : c'.Tidy ∧ AllClean o := by
  rcases step_cases h with ⟨j, rfl, hs⟩ | ⟨j, p, rfl, hp, -, hs⟩
  · exact hs.tidy hc hi
  · exact hs.tidy hp hc

theorem tidy_fresh (peer : Option Str) (ssrc : Nat) : (fresh peer ssrc).Tidy :=
  ⟨⟨by simp [fresh], by simp [fresh], ⟨rfl, rfl⟩, by simp [fresh]⟩, trivial⟩

end Conn
end DvrBridge
