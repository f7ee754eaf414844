import DvrBridge.RtspLock
import DvrBridge.RtspStop

/-! The write lock as one of the tasks at it sees it: what that task does to its view of the lock is
done to the lock, because it moves nobody else. -/
namespace DvrBridge
open PyText

namespace FifoLock

/-- Of the lock only the place of `who` has changed. -/
structure OnlyMoves {π : Type*} [DecidableEq π] (who : π) (l l' : FifoLock π) : Prop where
  holder : l'.holder = l.holder ∨ l'.holder = none ∨ l'.holder = some who
  waiters : l'.waiters = l.waiters ∨ l'.waiters = l.waiters ++ [who] ∧ who ∉ l.waiters ∨
    l'.waiters = l.waiters.erase who ∧ who ∉ l'.waiters

section moves
variable {π : Type*} [DecidableEq π] {who : π} {l l' : FifoLock π}

theorem OnlyMoves.of_eq (h : l' = l) : OnlyMoves who l l' := by
  rw [h]
  exact ⟨.inl rfl, .inl rfl⟩

theorem OnlyMoves.of_release (h : OnlyMoves who l.release l') : OnlyMoves who l l' := by
  refine ⟨.inr ?_, h.waiters⟩
  rcases h.holder with hh | hh | hh
  · exact .inl hh
  · exact .inl hh
  · exact .inr hh

/-- A waiter takes its turn or gives it up. -/
theorem OnlyMoves.of_leaveQueue (hn : l.waiters.Nodup)
    (hh : l'.holder = l.holder ∨ l'.holder = some who)
    (hw : l'.waiters = (l.leaveQueue who).waiters) : OnlyMoves who l l' := by
  refine ⟨hh.imp_right .inr, .inr (.inr ⟨hw, ?_⟩)⟩
  rw [hw]
  exact hn.not_mem_erase

end moves

section views
variable {l : FifoLock Writer} {who : Writer} {v : FifoLock Party}

theorem party_ne_other (p : Party) : p.other ≠ p := by
  cases p <;> simp [Party.other]

/-- A party as `who` sees it. -/
def seen (who x : Writer) : Party := if x = who then who.party else who.party.other

theorem seen_self (who : Writer) : seen who who = who.party := if_pos rfl

theorem seen_eq_iff (who x : Writer) : seen who x = who.party ↔ x = who := by
  unfold seen
  split
  · simp [*]
  · simp [*, party_ne_other]

theorem seenBy_holder (l : FifoLock Writer) (who : Writer) :
    (l.seenBy who).holder = l.holder.map (seen who) := rfl

theorem seenBy_waiters (l : FifoLock Writer) (who : Writer) :
    (l.seenBy who).waiters = l.waiters.map (seen who) := rfl

theorem mem_seenBy (l : FifoLock Writer) (who : Writer) :
    who.party ∈ (l.seenBy who).waiters ↔ who ∈ l.waiters := by
  rw [seenBy_waiters, List.mem_map]
  simp [seen_eq_iff]

theorem map_seen_erase (who : Writer) (ws : List Writer) :
    (ws.erase who).map (seen who) = (ws.map (seen who)).erase who.party := by
  induction ws with
  | nil => rfl
  | cons x ws ih =>
    by_cases hx : x = who
    · simp [hx, seen_self]
    · have hs : seen who x ≠ who.party := fun he => hx ((seen_eq_iff who x).mp he)
      rw [List.map_cons, List.erase_cons_tail (by simpa using hx),
        List.erase_cons_tail (by simpa using hs), List.map_cons, ih]

theorem mem_adopt {x : Writer} (h : x ∈ (l.adopt who v).waiters) : x = who ∨ x ∈ l.waiters := by
  simp only [adopt] at h
  split_ifs at h
  · exact .inr h
  · exact (List.mem_append.mp h).symm.imp_left List.mem_singleton.mp
  · exact .inr (List.mem_of_mem_erase h)

theorem holder_adopt {x : Writer} (h : (l.adopt who v).holder = some x) :
    x = who ∨ l.holder = some x := by
  obtain ⟨p, -, h⟩ := Option.bind_eq_some_iff.mp h
  split at h
  · exact .inl (Option.some.inj h).symm
  · exact .inr h

/-- Who stands at the lock. -/
def Has (l : FifoLock Writer) (x : Writer) : Prop := l.holder = some x ∨ x ∈ l.waiters

theorem has_adopt {x : Writer} (h : (l.adopt who v).Has x) : x = who ∨ l.Has x := by
  rcases h with h | h
  · exact (holder_adopt h).imp_right .inl
  · exact (mem_adopt h).imp_right .inr

/-- With one pump at the lock, that pump and the request loop see the same. -/
theorem seenBy_pump {n : Nat} (h : ∀ m, l.Has (.pump m) → m = n) :
    l.seenBy (.pump n) = l.seenBy .loop := by
  have hsee (x : Writer) (hx : l.Has x) : seen (.pump n) x = seen .loop x := by
    cases x with
    | loop => rfl
    | pump m =>
      obtain rfl := h m hx
      simp [seen, Writer.party, Party.other]
  have hholder : (l.seenBy (.pump n)).holder = (l.seenBy .loop).holder := by
    rw [seenBy_holder, seenBy_holder]
    exact Option.map_congr fun x hx => hsee x (.inl hx)
  have hwaiters : (l.seenBy (.pump n)).waiters = (l.seenBy .loop).waiters := by
    rw [seenBy_waiters, seenBy_waiters]
    exact List.map_congr_left fun x hx => hsee x (.inr hx)
  exact congrArg₂ FifoLock.mk hholder hwaiters

/-- What `who` does to the lock as it sees it is done to the lock. -/
theorem seenBy_adopt (h : OnlyMoves who.party (l.seenBy who) v) :
    (l.adopt who v).seenBy who = v := by
  obtain ⟨holder, waiters⟩ := v
  have hholder : ((l.adopt who ⟨holder, waiters⟩).seenBy who).holder = holder := by
    rw [seenBy_holder]
    rcases h.holder with hh | hh | hh
    · simp only at hh
      subst hh
      rw [seenBy_holder]
      cases hl : l.holder with
      | none => simp [adopt]
      | some x =>
        by_cases hx : x = who
        · simp [adopt, hx, seen_self]
        · have hs : seen who x ≠ who.party := fun he => hx ((seen_eq_iff who x).mp he)
          simp [adopt, hs, hl]
    · simp only at hh
      simp [adopt, hh]
    · simp only at hh
      simp [adopt, hh, seen_self]
  have hwaiters : ((l.adopt who ⟨holder, waiters⟩).seenBy who).waiters = waiters := by
    rw [seenBy_waiters]
    rcases h.waiters with hw | ⟨hw, hn⟩ | ⟨hw, hn⟩
    · simp only at hw
      subst hw
      by_cases hm : who ∈ l.waiters
      · simp [adopt, seenBy_waiters, seen_eq_iff, hm]
      · simp [adopt, seenBy_waiters, seen_eq_iff, hm, List.erase_of_not_mem]
    · simp only at hw
      subst hw
      rw [mem_seenBy] at hn
      simp [adopt, hn, seenBy_waiters, seen_self]
    · simp only at hw hn
      rw [hw] at hn ⊢
      simp only [adopt, if_neg hn]
      rw [map_seen_erase, seenBy_waiters]
  exact congrArg₂ FifoLock.mk hholder hwaiters

end views
end FifoLock

namespace Conn
open FifoLock

section steps
variable {srv : Server} {c c' : Conn} {o : List Effect}

theorem Stopped.lock {why : Leave} (h : Stopped c why c' o) : c'.lock = c.lock := by
  cases h <;> rfl

theorem Exited.lock {p : Pump} (h : Exited c p c' o) : c'.lock = c.lock := by
  cases h <;> rfl

theorem SetupStep.lock {url cseq token : Str} {headers : Headers} {out : Outcome}
    (h : SetupStep srv c url headers cseq token c' out) : c'.lock = c.lock := by
  cases h <;> rfl

theorem Sent.onlyMoves {handler : Option Str} {r : Response} {k : After}
    (h : Sent c handler r k c' o) (hq : .loop ∉ c.lock.waiters) :
    OnlyMoves .loop c.lock c'.lock := by
  cases h with
  | written => exact ⟨.inr (.inr rfl), .inl rfl⟩
  | queued => exact ⟨.inl rfl, .inr (.inl ⟨rfl, hq⟩)⟩

theorem HandlerStep.onlyMoves {url cseq token : Str} {headers : Headers} {m : Method}
    (h : HandlerStep srv c url headers cseq token m c' o) (hq : .loop ∉ c.lock.waiters) :
    OnlyMoves .loop c.lock c'.lock := by
  cases h with
  | answers _ _ hs | refuses _ hs => exact hs.onlyMoves hq
  | describeCrashes _ hs => exact .of_eq hs.lock
  | waits => exact .of_eq rfl
  | setupCrashes _ hset hs => exact .of_eq (hs.lock.trans hset.lock)
  | setupRefuses _ hset hs | setupAnswers _ hset hs =>
    rw [← hset.lock] at hq ⊢
    exact hs.onlyMoves hq
  | setupOpens _ hset => exact .of_eq hset.lock

/-- The request loop moves no pump in the lock. -/
theorem LoopStep.onlyMoves {i : LoopInput} (h : LoopStep srv c i c' o) (hl : c.LockAgrees) :
    OnlyMoves .loop c.lock c'.lock := by
  have hq (hu : loopUse c.pc ≠ .waits) : .loop ∉ c.lock.waiters :=
    fun hm => hu ((hl.waits .loop).mp hm)
  cases h with
  | badLine hp _ hs | unauthorized hp _ _ hs | unknown hp _ _ _ hs | malformed hp _ hs
  | ready hp _ hs | notReady hp hs => exact hs.onlyMoves (hq (by simp [hp, loopUse]))
  | opened hp _ _ hs =>
    have hm := hs.onlyMoves (hq (by simp [hp, loopUse]))
    exact hm
  | handles hp _ _ _ hs => exact hs.onlyMoves (hq (by simp [hp, loopUse]))
  | authCrashes _ _ _ hs | gone _ hs | readyCrashes _ hs | openFails _ hs | joined _ _ _ hs =>
    exact .of_eq hs.lock
  | openedCrashes _ _ hs => exact .of_eq hs.lock
  | skipped | closed => exact .of_eq rfl
  | acquired => exact .of_leaveQueue hl.nodup (.inr rfl) rfl
  | drained | playsOn | subscribes => exact OnlyMoves.of_release (.of_eq rfl)
  | playCrashes _ _ _ hs | tearsDown _ hs | quits _ _ hs =>
    exact OnlyMoves.of_release (.of_eq hs.lock)
  | timedOut hp hs => exact OnlyMoves.of_release (hs.onlyMoves (hq (by simp [hp, loopUse])))

/-- A pump does not move the request loop in the lock. -/
theorem PumpStep.onlyMoves {p : Pump} {i : PumpInput} (h : PumpStep c p i c' o)
    (hl : c.LockAgrees) (hp : c.playTask = some p) : OnlyMoves .pump c.lock c'.lock := by
  have hq (hu : pumpUse (some p) ≠ .waits) : .pump ∉ c.lock.waiters := by
    intro hm
    have := (hl.waits .pump).mp hm
    rw [hp] at this
    exact hu this
  cases h with
  | unstarted | starts | sends | drops => exact .of_eq rfl
  | cancelledGetting _ _ hex => exact .of_eq hex.lock
  | cancelledWaiting _ _ hex | crashTurn _ _ _ hex =>
    rw [hex.lock]
    exact .of_leaveQueue hl.nodup (.inl rfl) rfl
  | cancelledDraining _ _ hex | lost _ _ hex | crashes _ _ _ hex =>
    exact OnlyMoves.of_release (.of_eq hex.lock)
  | writes => exact ⟨.inr (.inr rfl), .inl rfl⟩
  | queues hpc =>
    exact ⟨.inl rfl, .inr (.inl ⟨rfl, hq (by simp [pumpUse_of_pc, hpc])⟩)⟩
  | acquired => exact .of_leaveQueue hl.nodup (.inr rfl) rfl
  | drained => exact OnlyMoves.of_release (.of_eq rfl)
  | crashWaits hpc =>
    refine OnlyMoves.of_release ⟨.inl rfl, .inr (.inl ⟨rfl, ?_⟩)⟩
    exact hq (by simp [pumpUse_of_pc, hpc])

end steps
end Conn
end DvrBridge
