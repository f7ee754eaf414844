import DvrBridge.RtspNumbered

/-! RTP packets are written in PLAY windows only and numbered on from what RTP-Info announces, under
every interleaving of the request loop and the pump. -/
namespace DvrBridge
open PyText Mark FifoLock

namespace Conn

/-- What a live pump does to the windows; an answer to PLAY that waits meanwhile stays right. -/
structure PumpGoes (c c' : Conn) (o : List Effect) (next next' : Option Nat) : Prop where
  follows : ∀ last, Follows nextSeq next (marks last o) next' ∧ asked last o = last
  running : c'.playTask ≠ none
  flows : ∀ idle, c'.Flows idle next'
  waiting : loopUse c.pc = .waits → c.interleaved ≠ none →
    c'.interleaved ≠ none ∧ c'.promised next' = c.promised next

section
variable {srv : Server} {c c' : Conn} {p : Pump} {next : Option Nat} {o : List Effect}

theorem Exited.halted (h : Exited c p c' o) :
    c'.Halted ∧ ∀ last, marks last o = [] ∧ asked last o = last := by
  cases h with
  | unsubscribes =>
    refine ⟨?_, fun last => ⟨rfl, rfl⟩⟩
    rintro q ⟨⟩
    exact .inr rfl
  | bare =>
    refine ⟨?_, fun last => ⟨rfl, rfl⟩⟩
    rintro q ⟨⟩
    exact .inr rfl

/-- A pump that is asked to stop writes nothing more. -/
theorem Halted.pumpStep {i : PumpInput} (h : c.Halted) (hp : c.playTask = some p)
    (hd : p.pc ≠ .done) (hs : PumpStep c p i c' o) :
    c'.Halted ∧ ∀ last, marks last o = [] ∧ asked last o = last := by
  have hc : p.cancelRequested = true := (h p hp).resolve_right hd
  cases hs with
  | unstarted =>
    refine ⟨?_, fun last => ⟨rfl, rfl⟩⟩
    rintro q ⟨⟩
    exact .inr rfl
  | cancelledGetting _ _ hex | cancelledWaiting _ _ hex | cancelledDraining _ _ hex =>
    exact hex.halted
  | starts _ hn | writes _ hn | queues _ hn | sends _ hn | drops _ hn | acquired _ hn
  | drained _ hn | lost _ hn | crashes _ hn | crashWaits _ hn | crashTurn _ hn =>
    simp [hc] at hn

/-- While the request loop holds the lock no packet goes over TCP. -/
theorem PumpStep.shut {i : PumpInput} (hl : c.lock.holder = some .loop)
    (hs : PumpStep c p i c' o) (last : Option Method) :
    Follows nextSeq none (marks last o) none ∧ asked last o = last := by
  cases hs with
  | cancelledGetting _ _ hex | cancelledWaiting _ _ hex | cancelledDraining _ _ hex
  | lost _ _ hex =>
    rw [(hex.halted.2 last).1, (hex.halted.2 last).2]
    exact ⟨.nil, rfl⟩
  | crashes _ _ _ hex | crashTurn _ _ _ hex =>
    obtain ⟨hm, ha⟩ := hex.halted.2 last
    simp only [marks, asked, hm, ha, and_true]
    exact .nil
  | writes _ _ _ hf => simp [free, hl] at hf
  | acquired _ _ ht => simp [atTurn, hl] at ht
  | @sends item =>
    rw [marks_datagrams, asked_datagrams]
    have h : Follows nextSeq none (List.replicate _ .spent) _ :=
      follows_spent none (c.packetizer.packetize item.nals item.ts90k).2.length
    rw [Function.iterate_fixed rfl] at h
    exact ⟨h, rfl⟩
  | unstarted | starts | queues | drops | drained | crashWaits => exact ⟨.nil, rfl⟩

theorem head?_loop {l : List Party} (hloop : Party.loop ∈ l) (hpump : Party.pump ∉ l) :
    l.head? = some .loop := by
  cases l with
  | nil => cases hloop
  | cons x l =>
    cases x with
    | loop => rfl
    | pump => exact absurd List.mem_cons_self hpump

theorem Flows.pumpStep {i : PumpInput} {idle : Option Nat} (h : c.Flows idle next)
    (hl : c.LockAgrees) (hseq : c.packetizer.seq < 2 ^ 16) (hp : c.playTask = some p)
    (hf : (ConnInput.pump i).drainFails = false) (hs : PumpStep c p i c' o) :
    ∃ next', PumpGoes c c' o next next' := by
  unfold Flows at h
  rw [hp] at h
  obtain ⟨hc, n, rfl, hfeed⟩ := h
  have hwait (hu : loopUse c.pc = .waits) : Party.loop ∈ c.lock.waiters := (hl.waits .loop).mpr hu
  cases hs with
  | unstarted _ hc' | cancelledGetting _ hc' | cancelledWaiting _ hc' | cancelledDraining _ hc' =>
    simp [hc] at hc'
  | lost | crashes | crashWaits => cases hf
  | starts hpc =>
    rw [hpc] at hfeed
    exact ⟨_, fun last => ⟨.nil, rfl⟩, by simp [setPump],
      fun idle => ⟨hc, n, rfl, hfeed⟩, fun _ hi => ⟨hi, rfl⟩⟩
  | @writes item ch hi hpc _ hin hfree =>
    rw [hpc] at hfeed
    obtain rfl : c.packetizer.seq = n := hfeed
    refine ⟨some (c.packetizer.packetize item.nals item.ts90k).1.seq, fun last => ?_, by simp,
      fun idle => ⟨hc, _, rfl, rfl, by simp [hin, hold]⟩, fun hu => ?_⟩
    · simp only [marks, asked, List.append_nil, and_true]
      exact follows_packetize hseq _ _
    · have := hwait hu
      simp only [free, Bool.and_eq_true, List.isEmpty_iff] at hfree
      simp [hfree.2] at this
  | @queues item ch hi hpc _ hin =>
    rw [hpc] at hfeed
    obtain rfl : c.packetizer.seq = n := hfeed
    refine ⟨_, fun last => ⟨.nil, rfl⟩, by simp,
      fun idle => ⟨hc, _, rfl, follows_packetize hseq _ _, by simp [hin, queueUp]⟩,
      fun hu hi => ⟨hi, ?_⟩⟩
    have hpump : Party.pump ∉ c.lock.waiters := fun hm => by
      have := (hl.waits .pump).mp hm
      rw [hp] at this
      simp [uses, pumpUse_of_pc, hpc] at this
    have hhead : (c.queueUp .pump).lock.waiters.head? = some .loop := by
      change (c.lock.waiters ++ [Party.pump]).head? = some .loop
      rw [List.head?_append, head?_loop (hwait hu) hpump]
      rfl
    rw [promised, promised, head?_loop (hwait hu) hpump]
    exact (if_pos hhead).trans (if_pos rfl).symm
  | @sends item _ _ _ hpc _ hin =>
    rw [hpc] at hfeed
    obtain rfl : c.packetizer.seq = n := hfeed
    refine ⟨some (c.packetizer.packetize item.nals item.ts90k).1.seq, fun last => ?_, by simp [hp],
      fun idle => ?_, fun _ hi => absurd hin hi⟩
    · rw [marks_datagrams, asked_datagrams]
      exact ⟨follows_datagrams _ _ _, rfl⟩
    · unfold Flows
      rw [hp]
      exact ⟨hc, _, rfl, by rw [hpc]; rfl⟩
  | drops =>
    refine ⟨_, fun last => ⟨.nil, rfl⟩, by simp [hp], fun idle => ?_, fun _ hi => ⟨hi, rfl⟩⟩
    unfold Flows
    rw [hp]
    exact ⟨hc, n, rfl, hfeed⟩
  | acquired hpc _ ht =>
    rw [hpc] at hfeed
    refine ⟨some c.packetizer.seq, fun last => ?_, by simp [setPump],
      fun idle => ⟨hc, _, rfl, rfl, hfeed.2⟩, fun _ hi => ⟨hi, ?_⟩⟩
    · simp only [marks, asked, List.append_nil, and_true]
      exact hfeed.1
    · simp only [atTurn, Bool.and_eq_true, decide_eq_true_eq] at ht
      have hne : c.lock.waiters.head? ≠ some .loop := by simp [ht.2]
      rw [promised, promised, if_neg hne]
      exact ite_self _
  | drained hpc =>
    rw [hpc] at hfeed
    exact ⟨_, fun last => ⟨.nil, rfl⟩, by simp [setPump],
      fun idle => ⟨hc, n, rfl, hfeed.1⟩, fun _ hi => ⟨hi, rfl⟩⟩
  | crashTurn hpc =>
    rw [hpc] at hfeed
    exact absurd hfeed id

theorem Numbered.pumpStep {last : Option Method} {i : PumpInput} (h : c.Numbered last next)
    (hp : c.playTask = some p) (hd : p.pc ≠ .done) (hf : (ConnInput.pump i).drainFails = false)
    (hs : PumpStep c p i c' o) : Goes last next c' o := by
  have hflow {idle : Option Nat} (hfl : c.Flows idle next) : ∃ next', PumpGoes c c' o next next' :=
    hfl.pumpStep h.lock h.seq hp hf hs
  have hhalt (hh : c.Halted) : c'.Halted ∧ marks last o = [] ∧ asked last o = last :=
    ⟨(hh.pumpStep hp hd hs).1, (hh.pumpStep hp hd hs).2 last⟩
  have hcounts := h.counts
  unfold Goes
  rw [hs.pc]
  cases hpc : c.pc with
  | reading =>
    obtain ⟨next', hg⟩ := hflow (h.counts_at hpc)
    exact ⟨next', (hg.follows last).1, hg.flows none⟩
  | waitReady url s cseq | opening port cseq =>
    obtain ⟨hlast, hfl⟩ := h.counts_at hpc
    obtain ⟨next', hg⟩ := hflow hfl
    exact ⟨next', (hg.follows last).1, (hg.follows last).2.trans hlast, hg.flows none⟩
  | locking handler r k =>
    obtain ⟨htag, -, hi, hfl, ha⟩ := h.counts_at hpc
    obtain ⟨next', hg⟩ := hflow hfl
    obtain ⟨hi', hpr⟩ := hg.waiting (by rw [hpc]; rfl) hi
    obtain ⟨hfo, has⟩ := hg.follows last
    rw [has]
    exact ⟨next', hfo, htag, hg.running, hi', hg.flows none, fun hk => (ha hk).trans hpr.symm⟩
  | draining handler k =>
    cases k with
    | next | close =>
      obtain ⟨next', hg⟩ := hflow (h.counts_at hpc)
      exact ⟨next', (hg.follows last).1, hg.flows none⟩
    | play =>
      obtain ⟨next', hg⟩ := hflow (h.counts_at hpc)
      exact ⟨next', (hg.follows last).1, hg.flows _⟩
    | teardown =>
      obtain rfl : next = none := h.counts_at hpc
      have hl : c.lock.holder = some .loop := (h.lock.holds .loop).mpr (by rw [hpc]; rfl)
      exact ⟨none, (hs.shut hl last).1, rfl⟩
  | joining why =>
    cases why with
    | teardown =>
      obtain ⟨hn, hh⟩ := h.counts_at hpc
      obtain ⟨hh', hm, -⟩ := hhalt hh
      rw [hm]
      exact ⟨next, .nil, hn, hh'⟩
    | close =>
      obtain ⟨hh', hm, -⟩ := hhalt (h.counts_at hpc)
      rw [hm]
      exact ⟨next, .nil, hh'⟩
  | closing | ended =>
    obtain ⟨hh', hm, -⟩ := hhalt (h.counts_at hpc)
    rw [hm]
    exact ⟨next, .nil, hh'⟩

theorem Sent.packetizer {handler : Option Str} {r : Response} {k : After}
    (h : Sent c handler r k c' o) : c'.packetizer = c.packetizer := by
  cases h <;> rfl

theorem Stopped.packetizer {why : Leave} (h : Stopped c why c' o) :
    c'.packetizer = c.packetizer := by
  cases h <;> rfl

theorem SetupStep.packetizer {c₁ : Conn} {url cseq token : Str} {headers : Headers}
    {out : Outcome} (h : SetupStep srv c url headers cseq token c₁ out) :
    c₁.packetizer = c.packetizer := by
  cases h <;> rfl

theorem HandlerStep.packetizer {m : Method} {url cseq token : Str} {headers : Headers}
    (h : HandlerStep srv c url headers cseq token m c' o) : c'.packetizer = c.packetizer := by
  cases h with
  | answers _ _ hsent | refuses _ hsent => exact hsent.packetizer
  | describeCrashes _ hstop => exact hstop.packetizer
  | waits => rfl
  | setupCrashes _ hset hstop => exact hstop.packetizer.trans hset.packetizer
  | setupRefuses _ hset hsent | setupAnswers _ hset hsent =>
    exact hsent.packetizer.trans hset.packetizer
  | setupOpens _ hset => exact hset.packetizer

/-- Only the pump makes packets. -/
theorem LoopStep.packetizer {i : LoopInput} (h : LoopStep srv c i c' o) :
    c'.packetizer = c.packetizer := by
  cases h with
  | badLine _ _ hsent | unauthorized _ _ _ hsent | unknown _ _ _ _ hsent | malformed _ _ hsent
  | ready _ _ hsent | notReady _ hsent | opened _ _ _ hsent | timedOut _ hsent =>
    exact (hsent.packetizer :)
  | authCrashes _ _ _ hstop | gone _ hstop | readyCrashes _ hstop | openedCrashes _ _ hstop
  | openFails _ hstop | playCrashes _ _ _ hstop | tearsDown _ hstop | quits _ _ hstop
  | joined _ _ _ hstop => exact (hstop.packetizer :)
  | handles _ _ _ _ hstep => exact hstep.packetizer
  | skipped | acquired | drained | playsOn | subscribes | closed => rfl

theorem Exited.packetizer (h : Exited c p c' o) : c'.packetizer = c.packetizer := by
  cases h <;> rfl

/-- A sequence number has 16 bits. -/
theorem PumpStep.seq_lt {i : PumpInput} (h : PumpStep c p i c' o)
    (hseq : c.packetizer.seq < 2 ^ 16) : c'.packetizer.seq < 2 ^ 16 := by
  cases h with
  | cancelledGetting _ _ hex | cancelledWaiting _ _ hex | cancelledDraining _ _ hex
  | lost _ _ hex | crashes _ _ _ hex | crashTurn _ _ _ hex =>
    rw [hex.packetizer]
    exact hseq
  | writes | queues | sends => exact emitAll_seq_lt hseq _ _
  | unstarted | starts | drops | acquired | drained | crashWaits => exact hseq

theorem Numbered.step {last : Option Method} {i : ConnInput} (h : c.Numbered last next)
    (hf : i.drainFails = false) (hs : c.step srv i = some (c', o)) :
    ∃ next', Follows nextSeq next (marks last o) next' ∧ c'.Numbered (asked last o) next' := by
  have hlock := h.lock.step hs
  rcases step_cases hs with ⟨j, rfl, hl⟩ | ⟨j, p, rfl, hp, hd, hps⟩
  · obtain ⟨next', hfo, hc⟩ := h.loopStep hf hl
    exact ⟨next', hfo, hlock, by rw [hl.packetizer]; exact h.seq, hc⟩
  · obtain ⟨next', hfo, hc⟩ := h.pumpStep hp hd hf hps
    exact ⟨next', hfo, hlock, hps.seq_lt h.seq, hc⟩

theorem numbered_fresh (peer : Option Str) (ssrc : Nat) :
    (fresh peer ssrc).Numbered none none :=
  ⟨lockAgrees_fresh peer ssrc, Nat.two_pow_pos 16, rfl⟩

end
end Conn

namespace Link
open Mark Conn

/-- The history is in order, and the tasks agree with it as long as the TCP connection is there. -/
def InOrder (l : Link) (h : List Effect) : Prop :=
  ∃ next, Follows nextSeq none (marks none h) next ∧
    (l.up = true → l.conn.Numbered (asked none h) next)

theorem InOrder.step {srv : Server} {l l' : Link} {h : List Effect} {i : ConnInput}
    {o : List Effect} (hi : l.InOrder h) (hs : l.step srv i = some (l', o)) :
    l'.InOrder (h ++ o) := by
  obtain ⟨next, hfo, hn⟩ := hi
  unfold InOrder
  rw [marks_append, asked_append]
  obtain ⟨e, hc, ⟨-, hu, hf, rfl⟩ | ⟨hd, rfl⟩⟩ := step_inv hs
  · obtain ⟨next', ho, hn'⟩ := (hn hu).step hf hc
    exact ⟨next', hfo.append ho, fun _ => hn'⟩
  · have hoff : ∀ x ∈ e.filter (!·.onTcp), x.onTcp = false := fun x hx => by
      simpa using (List.mem_filter.mp hx).2
    obtain ⟨next', ho⟩ : ∃ t, Follows nextSeq next (marks (asked none h) _) t :=
      follows_offTcp hoff next
    exact ⟨next', hfo.append ho, fun hup => by simp [hd] at hup⟩

/-- On every run RTP packets go over TCP only after a 200 to PLAY and before the next 200 to
TEARDOWN. In such a window they are numbered consecutively modulo 2^16 from the number in the first
RTP-Info, and every further RTP-Info has the number of the next packet. -/
theorem media_windowed (srv : Server) (peer : Option Str) (ssrc : Nat) {is : List ConnInput}
    {l : Link} {h : List Effect} (hr : Machine.run (step srv) (fresh peer ssrc) is = some (l, h)) :
    Windowed nextSeq (marks none h) := by
  have hi : l.InOrder h := Machine.run_invariant' InOrder
    ⟨none, .nil, fun _ => numbered_fresh peer ssrc⟩ (fun _ _ _ _ _ => InOrder.step) hr
  obtain ⟨next, hfo, -⟩ := hi
  exact hfo.windowed

/-- A second PLAY whose answer waits while the pump has packets in the queue behind it. -/
def overlapping : List ConnInput :=
  [request "SETUP rtsp://h/cam RTSP/1.0" [("transport", "RTP/AVP/TCP")], .loop .drained,
    request "PLAY rtsp://h/cam RTSP/1.0" [], .loop .drained, .pump .start,
    .pump (.frame ⟨[[0x67, 1], [0x65, 2]], 0, true⟩), request "PLAY rtsp://h/cam RTSP/1.0" [],
    .pump .drained, .pump (.frame ⟨[[0x61, 3]], 3000, false⟩), .loop .acquired, .loop .drained,
    .pump .acquired, request "TEARDOWN rtsp://h/cam RTSP/1.0" [], .pump .drained, .loop .acquired,
    .loop .drained, .pump .cancelled, .loop .joined]

theorem media_windowed_overlapping : ∃ l h,
    Machine.run (step { hub := ["cam".toList], urlPath := plainPath }) (fresh (some "c".toList) 1)
      overlapping = some (l, h) ∧
    marks none h = [.opens (some 0), .item 0, .item 1, .opens (some 2), .item 2, .closes] ∧
    Windowed nextSeq (marks none h) := by
  have hm : (Machine.run (step { hub := ["cam".toList], urlPath := plainPath })
      (fresh (some "c".toList) 1) overlapping).map (fun r => marks none r.2) =
      some [.opens (some 0), .item 0, .item 1, .opens (some 2), .item 2, .closes] := by
    decide +kernel
  obtain ⟨⟨l, h⟩, hr, hmarks⟩ := Option.map_eq_some_iff.mp hm
  exact ⟨l, h, hr, hmarks, media_windowed _ _ _ hr⟩

end Link
end DvrBridge
