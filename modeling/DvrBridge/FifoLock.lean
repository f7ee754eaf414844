import Mathlib.Data.List.Nodup
import Mathlib.Tactic.Common

/-! A fair lock: waiters are served in order, and a newcomer queues behind them. Between a release
and the next holder's turn the lock is free for nobody else. -/
namespace DvrBridge

structure FifoLock (π : Type*) where
  holder : Option π := none
  waiters : List π := []
  deriving DecidableEq

namespace FifoLock
variable {π : Type*}

def free (l : FifoLock π) : Bool := l.holder.isNone && l.waiters.isEmpty

def hold (l : FifoLock π) (who : π) : FifoLock π := { l with holder := some who }

def queueUp (l : FifoLock π) (who : π) : FifoLock π := { l with waiters := l.waiters ++ [who] }

def release (l : FifoLock π) : FifoLock π := { l with holder := none }

/-- How a party stands to the lock. -/
inductive Use where
  | out | waits | holds
  deriving DecidableEq

/-- The lock agrees with where the parties are. -/
structure Agrees (l : FifoLock π) (use : π → Use) : Prop where
  holds : ∀ who, l.holder = some who ↔ use who = .holds
  waits : ∀ who, who ∈ l.waiters ↔ use who = .waits
  nodup : l.waiters.Nodup

theorem agrees_new {use : π → Use} (h : ∀ who, use who = .out) :
    Agrees ({} : FifoLock π) use :=
  ⟨by simp [h], by simp [h], List.nodup_nil⟩

theorem Agrees.congr {l : FifoLock π} {use use' : π → Use} (h : l.Agrees use)
    (he : ∀ x, use' x = use x) : l.Agrees use' :=
  (funext he : use' = use) ▸ h

theorem Agrees.free_of_out {l : FifoLock π} {use : π → Use} (h : l.Agrees use)
    (ho : ∀ x, use x = .out) : l.free = true := by
  have hh : l.holder = none := by
    cases hl : l.holder with
    | none => rfl
    | some x => simpa [ho] using (h.holds x).mp hl
  have hw : l.waiters = [] := by
    refine List.eq_nil_iff_forall_not_mem.mpr fun x hx => ?_
    simpa [ho] using (h.waits x).mp hx
  simp [free, hh, hw]

section steps
variable [DecidableEq π] {l : FifoLock π} {use use' : π → Use} (who : π)

/-- A waiter that is cancelled, or whose turn has come. -/
def leaveQueue (l : FifoLock π) (who : π) : FifoLock π :=
  { l with waiters := l.waiters.erase who }

/-- The lock was released and `who` is the first in the queue. -/
def atTurn (l : FifoLock π) (who : π) : Bool :=
  l.holder.isNone && decide (l.waiters.head? = some who)

theorem Agrees.hold (h : l.Agrees use) (hf : l.holder = none) (hq : who ∉ l.waiters)
    (hw : use' who = .holds) (hne : ∀ x, x ≠ who → use' x = use x) : (l.hold who).Agrees use' := by
  refine ⟨fun x => ?_, fun x => ?_, h.nodup⟩
  · by_cases hx : x = who
    · simp [FifoLock.hold, hx, hw]
    · rw [hne x hx, ← h.holds x]
      simp [FifoLock.hold, hf, Ne.symm hx]
  · by_cases hx : x = who
    · subst hx
      simp [FifoLock.hold, hq, hw]
    · rw [hne x hx]
      exact h.waits x

theorem Agrees.take (h : l.Agrees use) (hf : l.free = true) (hw : use' who = .holds)
    (hne : ∀ x, x ≠ who → use' x = use x) : (l.hold who).Agrees use' := by
  simp only [free, Bool.and_eq_true, Option.isNone_iff_eq_none, List.isEmpty_iff] at hf
  exact h.hold who hf.1 (by simp [hf.2]) hw hne

theorem Agrees.queueUp (h : l.Agrees use) (ho : use who = .out) (hw : use' who = .waits)
    (hne : ∀ x, x ≠ who → use' x = use x) : (l.queueUp who).Agrees use' := by
  have hq : who ∉ l.waiters := fun hm => by simpa [ho] using (h.waits who).mp hm
  refine ⟨fun x => ?_, fun x => ?_, ?_⟩
  · by_cases hx : x = who
    · subst hx
      have hn : l.holder ≠ some x := fun he => by simpa [ho] using (h.holds x).mp he
      simp [FifoLock.queueUp, hw, hn]
    · rw [hne x hx]
      exact h.holds x
  · by_cases hx : x = who
    · simp [FifoLock.queueUp, hx, hw]
    · rw [hne x hx, ← h.waits x]
      simp [FifoLock.queueUp, hx]
  · rw [FifoLock.queueUp, List.nodup_append]
    refine ⟨h.nodup, by simp, ?_⟩
    rintro a ha b hb rfl
    exact hq (List.mem_singleton.mp hb ▸ ha)

theorem Agrees.leaveQueue (h : l.Agrees use) (ho : use who = .waits) (hw : use' who = .out)
    (hne : ∀ x, x ≠ who → use' x = use x) : (l.leaveQueue who).Agrees use' := by
  refine ⟨fun x => ?_, fun x => ?_, h.nodup.erase who⟩
  · by_cases hx : x = who
    · subst hx
      have hn : l.holder ≠ some x := fun he => by simpa [ho] using (h.holds x).mp he
      simp [FifoLock.leaveQueue, hw, hn]
    · rw [hne x hx]
      exact h.holds x
  · by_cases hx : x = who
    · subst hx
      simp [FifoLock.leaveQueue, hw, h.nodup.mem_erase_iff]
    · rw [hne x hx, ← h.waits x]
      simp [FifoLock.leaveQueue, h.nodup.mem_erase_iff, hx]

/-- The first waiter takes its turn. -/
theorem Agrees.turn (h : l.Agrees use) (ht : l.atTurn who = true) (hw : use' who = .holds)
    (hne : ∀ x, x ≠ who → use' x = use x) : ((l.leaveQueue who).hold who).Agrees use' := by
  simp only [atTurn, Bool.and_eq_true, Option.isNone_iff_eq_none, decide_eq_true_eq] at ht
  have hm : use who = .waits := (h.waits who).mp (List.mem_of_mem_head? ht.2)
  have hl : (l.leaveQueue who).Agrees fun x => if x = who then .out else use x :=
    h.leaveQueue who hm (by simp) fun x hx => by simp [hx]
  refine hl.hold who ht.1 ?_ hw fun x hx => by simp [hx, hne x hx]
  simp [FifoLock.leaveQueue, h.nodup.mem_erase_iff]

theorem Agrees.release (h : l.Agrees use) (ho : use who = .holds) (hw : use' who = .out)
    (hne : ∀ x, x ≠ who → use' x = use x) : l.release.Agrees use' := by
  refine ⟨fun x => ?_, fun x => ?_, h.nodup⟩
  · by_cases hx : x = who
    · simp [FifoLock.release, hx, hw]
    · have hn : l.holder ≠ some x := by
        rw [(h.holds who).mpr ho]
        simpa using Ne.symm hx
      rw [hne x hx, ← h.holds x]
      simp [FifoLock.release, hn]
  · by_cases hx : x = who
    · subst hx
      have hn : x ∉ l.waiters := fun hm => by simpa [ho] using (h.waits x).mp hm
      simp [FifoLock.release, hw, hn]
    · rw [hne x hx]
      exact h.waits x

end steps
end FifoLock
end DvrBridge
