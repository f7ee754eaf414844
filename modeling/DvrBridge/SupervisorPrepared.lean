import DvrBridge.SupervisorReady

/-! Whoever finds the stream ready, or was woken when it became so, finds both parameter sets. -/
namespace DvrBridge

namespace World

/-- The connection's own wait; other callers have other numbers. -/
def ownWait : Nat := 0

/-- `_ready` was set while the connection waited, and the connection has not run since. -/
def OwnWoken (w : World) : Prop := { id := ownWait, woken := true } ∈ w.waiters

/-- The supervisor drops the cached sets of a failed driver only while the connection is not
between its wake-up and its next step. -/
def KeepsSets (w : World) : Input → Prop
  | .run t _ now₂ .closed => ∀ k, w.tasks[t]? = some k → k.pc = .closing .failed →
      w.OwnWoken → w.stream.idleExpired now₂ = true
  | _ => True

/-- Whoever finds the event set, or was woken by it, finds both sets. -/
structure Prepared (w : World) : Prop where
  ready : w.stream.ready = true →
    truthy w.stream.sps = true ∧ truthy w.stream.pps = true
  woken : w.OwnWoken → truthy w.stream.sps = true ∧ truthy w.stream.pps = true

/-- A step that sets nothing and wakes nobody. -/
theorem Prepared.keep {w w' : World} (h : w.Prepared) (hs : w'.stream.sps = w.stream.sps)
    (hp : w'.stream.pps = w.stream.pps) (hr : w'.stream.ready = true → w.stream.ready = true)
    (hw : w'.OwnWoken → w.OwnWoken) : w'.Prepared :=
  ⟨fun h' => hs ▸ hp ▸ h.ready (hr h'), fun h' => hs ▸ hp ▸ h.woken (hw h')⟩

theorem Prepared.ensureRunning {w : World} (h : w.Prepared) : w.ensureRunning.Prepared := by
  obtain ⟨tasks, task, he⟩ := w.ensureRunning_eq
  rw [he]
  exact h.keep rfl rfl id id

theorem Prepared.touch {w : World} (h : w.Prepared) (now : ℚ) : (w.touch now).Prepared :=
  Prepared.ensureRunning (h.keep rfl rfl id id)

theorem Prepared.waitReady {w : World} (h : w.Prepared) (id : Nat) (now : ℚ) :
    (w.waitReady id now).Prepared := by
  have ht := h.touch now
  unfold World.waitReady
  simp only
  split
  · exact ht
  · refine ht.keep rfl rfl (fun h => h) fun hw => ?_
    rcases List.mem_append.mp hw with hw | hw
    · exact hw
    · simp at hw

theorem Prepared.frame {w : World} (h : w.Prepared) (t : Nat) (k : RunTask) (f : VideoFrame)
    (info : StreamInfo) (now₁ now₂ : ℚ) : (w.frame t k f info now₁ now₂).1.Prepared := by
  have hwait : (w.frame t k f info now₁ now₂).1.OwnWoken →
      w.OwnWoken ∨ (w.frameResult k f info now₁).1.ready = true := by
    intro hw
    unfold OwnWoken World.frame World.wakeWaiters at hw
    simp only at hw
    split at hw
    · rename_i hr
      exact .inr hr
    · exact .inl hw
  by_cases hn : frameNals f.payload = []
  · have hskip := Stream.onFrame_skipped { w.stream with info := info } f.payload
      (k.mapper.map f.tsMs now₁).rtp f.keyframe hn
    have hres : (w.frameResult k f info now₁).1 = { w.stream with info := info } := by
      rw [frameResult, hskip]
    rw [hres] at hwait
    refine ⟨?_, ?_⟩
    · rw [frame_stream, hres]
      exact h.ready
    · rw [frame_stream, hres]
      exact fun hw => (hwait hw).elim h.woken h.ready
  · obtain ⟨hs, hp, hr⟩ := frameResult_sets w k info now₁ hn
    have hkeep : truthy w.stream.sps = true ∧ truthy w.stream.pps = true →
        truthy (w.frameResult k f info now₁).1.sps = true ∧
          truthy (w.frameResult k f info now₁).1.pps = true := by
      rintro ⟨h₁, h₂⟩
      rw [hs, hp]
      exact ⟨truthy_cacheSet _ _ h₁, truthy_cacheSet _ _ h₂⟩
    have hready : (w.frameResult k f info now₁).1.ready = true →
        truthy (w.frameResult k f info now₁).1.sps = true ∧
          truthy (w.frameResult k f info now₁).1.pps = true := by
      intro h'
      rw [hr, Bool.or_eq_true, Bool.and_eq_true] at h'
      rcases h' with h' | h'
      · exact hkeep (h.ready h')
      · rw [hs, hp]
        exact h'
    refine ⟨?_, ?_⟩
    · rw [frame_stream]
      exact hready
    · rw [frame_stream]
      exact fun hw => (hwait hw).elim (fun hw => hkeep (h.woken hw)) hready

/-- An idle stream keeps its sets when its failed driver has closed. -/
theorem closed_idle {w : World} {t : Nat} {k : RunTask} {now₁ now₂ : ℚ}
    (hi : w.stream.idleExpired now₂ = true) :
    w.closed t k .failed now₁ now₂ = w.leave t (k.resetBackoff now₁) := by
  simp [closed, afterFailure, hi]

theorem Prepared.runStep {w w' : World} {t : Nat} {k : RunTask} {now₁ now₂ : ℚ} {r : RunInput}
    {o : List Relay} (h : w.Prepared) (hs : w.runStep t k now₁ now₂ r = some (w', o))
    (hkeep : r = .closed → k.pc = .closing .failed → w.OwnWoken →
      w.stream.idleExpired now₂ = true) : w'.Prepared := by
  have hinv := runStep_inv hs
  cases hinv with
  | cancelCreated _ _ => exact h.keep rfl rfl id id
  | cancelNext _ _ => exact h.keep rfl rfl id id
  | cancelAway _ _ => exact h.keep rfl rfl (by simp [leave]) id
  | leaveLoop _ _ _ => exact h.keep rfl rfl (by simp) id
  | connect _ _ => exact h.keep rfl rfl id id
  | frame f info _ _ => exact h.frame t k f info now₁ now₂
  | failed _ _ => exact h.keep rfl rfl id id
  | leaveIdle _ _ => exact h.keep rfl rfl (by simp [leave]) id
  | leaveCancelled _ _ => exact h.keep rfl rfl (by simp [leave]) id
  | leaveFailed _ _ _ => exact h.keep rfl rfl (by simp [leave]) id
  | retry hp hc =>
    refine ⟨by simp, fun hw => ?_⟩
    -- a woken connection would have kept the stream from a retry
    have hidle := hkeep rfl hp hw
    simp only [World.runStep, hp, hc, Bool.false_eq_true, if_false, closed_idle hidle,
      Option.some.injEq, Prod.mk.injEq, and_true] at hs
    have hrec := congrArg (fun w => w.stream.reconnects) hs
    simp [leave] at hrec

theorem Prepared.step {w w' : World} {i : Input} {o : List Relay} (h : w.Prepared)
    (hs : w.step i = some (w', o)) (hkeep : w.KeepsSets i) : w'.Prepared := by
  cases step_inv hs with
  | @subscribe x now =>
    have hsub : World.Prepared { w with
        objects := x :: w.objects
        stream := { w.stream with subs := w.stream.subs ++ [{ id := x }], wake := true } } :=
      h.keep rfl rfl id id
    exact hsub.touch now
  | unsubscribe | get | stopResumed => exact h.keep rfl rfl id id
  | @touch now => exact h.touch now
  | @waitReady id now => exact h.waitReady id now
  | resumed | waitTimeout =>
    exact h.keep rfl rfl (fun h => h) fun hw => (List.mem_filter.mp hw).1
  | stop =>
    unfold World.stop
    split
    · exact h
    · split
      · exact h.keep rfl rfl id id
      · split <;> exact h.keep rfl rfl id id
  | @run _ k _ now₂ _ _ _ hk _ _ hr =>
    have hw : ({ w with clock := now₂ } : World).Prepared := h.keep rfl rfl id id
    refine hw.runStep hr ?_
    rintro rfl hp hwoken
    exact hkeep k hk hp hwoken

end World
end DvrBridge
