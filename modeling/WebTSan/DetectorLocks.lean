import WebTSan.FlatShadow
import WebTSan.LockOrder

/-!
# The locks of the detector

Every member function of the detector takes its locks with `base::AutoLock`, for the extent of a
scope. There is one lock each for the threads, the clocks of sync addresses, the edges of messages,
the table of shadow buffers and the reported sites, and every shadow buffer has a lock for its pages
and up to `65536` locks for stripes of `64` bytes. `WaitSync` calls the detector while it holds the
mutex of the wait list.

Here a function is the program of its locks. What the code decides by data that other threads may
change (whether the detector is enabled, what a table holds, whether there is a race) is left open,
and so is the time at which the loop of `ClearRange` ends. The loops over bytes take the stripes of
these bytes.

## Main definitions

* `WebTSan.DetectorLock`, `WebTSan.DetectorLock.rank`.
* `WebTSan.DetectorCall`, `WebTSan.DetectorCall.locks`: the calls, and their locks.

## Main results

* `WebTSan.DetectorCall.ordered_locks`: every call takes its locks in the order of their ranks.
* `WebTSan.LockedCalls.no_deadlock`.
* `WebTSan.LockedCalls.exists_exec`: as long as not all threads are done, some thread can go on.
-/

namespace WebTSan

/-- The locks; shadow buffers are numbered. -/
inductive DetectorLock
  /-- The mutex of the futex wait list. -/
  | waitList
  | thread
  | sync
  | hb
  | shadow
  | stripe (buffer index : ℕ)
  | page (buffer : ℕ)
  | reportedRaceSites
deriving DecidableEq

/-- The order of the locks. -/
def DetectorLock.rank : DetectorLock → Fin 8
  | .waitList => 0
  | .thread => 1
  | .sync => 2
  | .hb => 3
  | .shadow => 4
  | .stripe _ _ => 5
  | .page _ => 6
  | .reportedRaceSites => 7

/-- The locks that a function takes. -/
abbrev Locking := LockProgram DetectorLock

namespace Locking

open LockProgram

/-- `if (!enabled_) return;`. -/
def ifEnabled (p : Locking) : Locking := choice skip p

/-! ### `ShadowBuffer` -/

/-- The lock of the stripe of a byte, in a buffer with `byteLength` bytes. -/
def stripeLock (buffer byteLength byte : ℕ) : DetectorLock :=
  let stripeCount := (ShadowBuffer.new buffer byteLength).stripeCount
  .stripe buffer (byte / ShadowBuffer.kStripeBytes % stripeCount)

def getOrCreatePage (buffer : ℕ) : Locking := lock (.page buffer) skip

/-- `RecordAccess`. The loop ends early when a race is found. -/
def recordAccess (buffer byteLength offset : ℕ) : (size : ℕ) → Locking
  | 0 => skip
  | size + 1 =>
    if offset < byteLength then
      seq (lock (stripeLock buffer byteLength offset) (getOrCreatePage buffer))
        (choice skip (recordAccess buffer byteLength (offset + 1) size))
    else skip

/-- The inner loop of `ClearRange`. -/
def clearBytes (buffer byteLength byte : ℕ) : (count : ℕ) → Locking
  | 0 => skip
  | count + 1 =>
    seq (lock (stripeLock buffer byteLength byte) skip)
      (clearBytes buffer byteLength (byte + 1) count)

/-- The first `rounds` rounds of the outer loop of `ClearRange`. -/
def clearLoop (buffer byteLength endByte : ℕ) : (rounds : ℕ) → (byte : ℕ) → Locking
  | 0, _ => skip
  | rounds + 1, byte =>
    if byte < endByte then
      let nextPage := (ShadowBuffer.pageIndex byte + 1) * kPageBytes % 2 ^ 64
      let pageEnd := min endByte nextPage
      seq (lock (.page buffer) skip)
        (choice (clearLoop buffer byteLength endByte rounds nextPage)
          (seq (clearBytes buffer byteLength byte (pageEnd - byte))
            (clearLoop buffer byteLength endByte rounds (max byte pageEnd))))
    else skip

/-- `ClearRange`; the loop goes through some number of rounds. -/
def clearRange (buffer byteLength offset size : ℕ) : Locking :=
  let sum := (offset + size) % 2 ^ 64
  let endByte := if sum > byteLength then byteLength else sum
  branch fun rounds ↦ clearLoop buffer byteLength endByte rounds offset

/-! ### `WebTSan` -/

def reset : Locking :=
  lock .thread (lock .sync (lock .hb (lock .shadow (lock .reportedRaceSites skip))))

/-- A function that takes the lock of the threads and returns before that unless `check` holds. -/
def threadLock (check : Prop) [Decidable check] : Locking :=
  ifEnabled (if check then lock .thread skip else skip)

/-- A function that takes the lock of the threads and another one, and returns before that unless
`check` holds. -/
def threadLockAnd (l : DetectorLock) (check : Prop) [Decidable check] : Locking :=
  ifEnabled (if check then lock .thread (lock l skip) else skip)

def threadCreate : Locking := lock .thread skip

def threadFinish : Locking := threadLock True

/-- `ThreadDestroy` takes the lock on both of its branches. -/
def threadDestroy : Locking := choice (lock .thread skip) (lock .thread skip)

def threadJoin (joinerTid childTid : ℕ) : Locking :=
  threadLock (joinerTid < kMaxThreads ∧ childTid < kMaxThreads)

def threadDetach (childTid : ℕ) : Locking := threadLock (childTid < kMaxThreads)

def threadAbsorb (dstTid srcTid : ℕ) : Locking :=
  threadLock ((dstTid < kMaxThreads ∧ srcTid < kMaxThreads) ∧ dstTid ≠ srcTid)

def acquire : Locking := threadLockAnd .sync True

def release : Locking := threadLockAnd .sync True

def mutexCreate : Locking := ifEnabled (lock .sync skip)

def mutexDestroy : Locking := ifEnabled (lock .sync skip)

def mutexPreLock : Locking := skip

def mutexPostLock (tid : ℕ) : Locking := threadLockAnd .sync (tid < kMaxThreads)

def mutexUnlock (tid : ℕ) : Locking := threadLockAnd .sync (tid < kMaxThreads)

def mutexReadLock (tid : ℕ) : Locking := threadLockAnd .sync (tid < kMaxThreads)

def mutexReadUnlock : Locking := skip

def happensBefore : Locking := threadLockAnd .hb True

def happensAfter (edgeId : ℕ) : Locking := threadLockAnd .hb (edgeId ≠ 0)

def getOrCreateShadow : Locking := lock .shadow skip

/-- `MemoryAccess`, in buffers of the lengths `byteLength`. It holds no lock while it records the
access in the shadow that it has found. -/
def memoryAccess (byteLength : ℕ → ℕ) (sabByteLength offset size : ℕ) : Locking :=
  let record := seq (lock .thread skip) (branch fun buffer ↦
    seq (recordAccess buffer (byteLength buffer) offset size)
      (choice skip (lock .reportedRaceSites skip)))
  ifEnabled (if sabByteLength = 0 then seq (lock .shadow skip) (choice skip record)
    else seq getOrCreateShadow record)

def removeShadow : Locking := ifEnabled (lock .shadow skip)

/-- `ClearShadow` clears the range while it holds the lock of the table. -/
def clearShadow (byteLength : ℕ → ℕ) (offset size : ℕ) : Locking :=
  ifEnabled (lock .shadow (choice skip (branch fun buffer ↦
    clearRange buffer (byteLength buffer) offset size)))

end Locking

/-- A call of a member function of the detector. -/
inductive DetectorCall
  | reset
  | threadCreate (parentTid : ℕ)
  | threadFinish (tid : ℕ)
  | threadDestroy (tid : ℕ)
  | threadJoin (joinerTid childTid : ℕ)
  | threadDetach (childTid : ℕ)
  | threadAbsorb (dstTid srcTid : ℕ)
  | acquire (tid syncAddr : ℕ)
  | release (tid syncAddr : ℕ)
  | mutexCreate (addr : ℕ)
  | mutexDestroy (addr : ℕ)
  | mutexPreLock (tid addr : ℕ)
  | mutexPostLock (tid addr : ℕ)
  | mutexUnlock (tid addr : ℕ)
  | mutexReadLock (tid addr : ℕ)
  | mutexReadUnlock (tid addr : ℕ)
  | happensBefore (senderTid : ℕ)
  | happensAfter (receiverTid edgeId : ℕ)
  | memoryAccess (backingStore sabByteLength offset size tid : ℕ) (isWrite : Bool)
  | removeShadow (backingStore : ℕ)
  | clearShadow (backingStore offset size : ℕ)

/-- The locks of a call. -/
def DetectorCall.locks (byteLength : ℕ → ℕ) : DetectorCall → Locking
  | .reset => Locking.reset
  | .threadCreate _ => Locking.threadCreate
  | .threadFinish _ => Locking.threadFinish
  | .threadDestroy _ => Locking.threadDestroy
  | .threadJoin joinerTid childTid => Locking.threadJoin joinerTid childTid
  | .threadDetach childTid => Locking.threadDetach childTid
  | .threadAbsorb dstTid srcTid => Locking.threadAbsorb dstTid srcTid
  | .acquire _ _ => Locking.acquire
  | .release _ _ => Locking.release
  | .mutexCreate _ => Locking.mutexCreate
  | .mutexDestroy _ => Locking.mutexDestroy
  | .mutexPreLock _ _ => Locking.mutexPreLock
  | .mutexPostLock tid _ => Locking.mutexPostLock tid
  | .mutexUnlock tid _ => Locking.mutexUnlock tid
  | .mutexReadLock tid _ => Locking.mutexReadLock tid
  | .mutexReadUnlock _ _ => Locking.mutexReadUnlock
  | .happensBefore _ => Locking.happensBefore
  | .happensAfter _ edgeId => Locking.happensAfter edgeId
  | .memoryAccess _ sabByteLength offset size _ _ =>
    Locking.memoryAccess byteLength sabByteLength offset size
  | .removeShadow _ => Locking.removeShadow
  | .clearShadow _ offset size => Locking.clearShadow byteLength offset size

/-- The locks of a sequence of calls of one thread, each made with the mutex of the wait list or
without it. -/
def DetectorCall.locksAll (byteLength : ℕ → ℕ) : List (Bool × DetectorCall) → Locking
  | [] => .skip
  | (underWaitList, c) :: calls =>
    .seq (if underWaitList then .lock .waitList (c.locks byteLength) else c.locks byteLength)
      (locksAll byteLength calls)

namespace Locking

variable {held : List DetectorLock}

theorem ordered_recordAccess (h : ∀ l ∈ held, l.rank < 5) (buffer byteLength offset size : ℕ) :
    (recordAccess buffer byteLength offset size).Ordered DetectorLock.rank held := by
  induction size generalizing offset with
  | zero => trivial
  | succ size ih =>
    rw [recordAccess]
    split_ifs
    · refine ⟨⟨h, fun l hl ↦ ?_, trivial⟩, LockProgram.ordered_choice.mpr ⟨trivial, ih _⟩⟩
      rcases List.mem_cons.mp hl with rfl | hl
      · exact (by decide : (5 : Fin 8) < 6)
      · exact (h l hl).trans (by decide : (5 : Fin 8) < 6)
    · trivial

theorem ordered_clearBytes (h : ∀ l ∈ held, l.rank < 5) (buffer byteLength byte count : ℕ) :
    (clearBytes buffer byteLength byte count).Ordered DetectorLock.rank held := by
  induction count generalizing byte with
  | zero => trivial
  | succ count ih => exact ⟨⟨h, trivial⟩, ih _⟩

theorem ordered_clearLoop (h : ∀ l ∈ held, l.rank < 5) (buffer byteLength endByte rounds byte : ℕ) :
    (clearLoop buffer byteLength endByte rounds byte).Ordered DetectorLock.rank held := by
  induction rounds generalizing byte with
  | zero => trivial
  | succ rounds ih =>
    rw [clearLoop]
    split_ifs
    · refine ⟨⟨fun l hl ↦ (h l hl).trans (by decide : (5 : Fin 8) < 6), trivial⟩, ?_⟩
      exact LockProgram.ordered_choice.mpr ⟨ih _, ordered_clearBytes h .., ih _⟩
    · trivial

/-! ### Under the mutex of the wait list -/

theorem ordered_ifEnabled {p : Locking} :
    (ifEnabled p).Ordered DetectorLock.rank held ↔ p.Ordered DetectorLock.rank held := by
  simp [ifEnabled]

theorem ordered_threadLock (check : Prop) [Decidable check] :
    (threadLock check).Ordered DetectorLock.rank [.waitList] := by
  simp [threadLock, ordered_ifEnabled, LockProgram.ordered_ite, DetectorLock.rank]

theorem ordered_threadLockAnd {l : DetectorLock} (hl : 1 < l.rank) (check : Prop)
    [Decidable check] : (threadLockAnd l check).Ordered DetectorLock.rank [.waitList] := by
  have hpos : 0 < l.rank := (by decide : (0 : Fin 8) < 1).trans hl
  simp [threadLockAnd, ordered_ifEnabled, LockProgram.ordered_ite, DetectorLock.rank] at hpos hl ⊢
  exact fun _ ↦ ⟨hl, hpos⟩

theorem ordered_memoryAccess (byteLength : ℕ → ℕ) (sabByteLength offset size : ℕ) :
    (memoryAccess byteLength sabByteLength offset size).Ordered DetectorLock.rank [.waitList] := by
  have hheld : ∀ l ∈ [DetectorLock.waitList], l.rank < 5 := by decide
  have hrecord (buffer : ℕ) := ordered_recordAccess hheld buffer (byteLength buffer) offset size
  simp [memoryAccess, getOrCreateShadow, ordered_ifEnabled, LockProgram.ordered_ite,
    DetectorLock.rank, hrecord]

theorem ordered_clearShadow (byteLength : ℕ → ℕ) (offset size : ℕ) :
    (clearShadow byteLength offset size).Ordered DetectorLock.rank [.waitList] := by
  have hheld : ∀ l ∈ [DetectorLock.shadow, .waitList], l.rank < 5 := by decide
  have hclear (buffer endByte rounds : ℕ) :=
    ordered_clearLoop hheld buffer (byteLength buffer) endByte rounds offset
  simp [clearShadow, clearRange, ordered_ifEnabled, DetectorLock.rank, hclear]

end Locking

namespace DetectorCall

/-- Every call takes its locks in the order of their ranks, also with the mutex of the wait list. -/
theorem ordered_locks (byteLength : ℕ → ℕ) (c : DetectorCall) :
    (c.locks byteLength).Ordered DetectorLock.rank [.waitList] := by
  cases c with
  | reset | threadCreate | threadDestroy =>
    simp [locks, Locking.reset, Locking.threadCreate, Locking.threadDestroy, DetectorLock.rank]
  | threadFinish | threadJoin | threadDetach | threadAbsorb => exact Locking.ordered_threadLock _
  | acquire | release | mutexPostLock | mutexUnlock | mutexReadLock | happensBefore
  | happensAfter => exact Locking.ordered_threadLockAnd (by decide) _
  | mutexCreate | mutexDestroy | removeShadow =>
    simp [locks, Locking.mutexCreate, Locking.mutexDestroy, Locking.removeShadow,
      Locking.ordered_ifEnabled, DetectorLock.rank]
  | mutexPreLock | mutexReadUnlock => trivial
  | memoryAccess => exact Locking.ordered_memoryAccess _ _ _ _
  | clearShadow => exact Locking.ordered_clearShadow _ _ _

/-- So does every sequence of calls of a thread. -/
theorem ordered_locksAll (byteLength : ℕ → ℕ) (calls : List (Bool × DetectorCall)) :
    (locksAll byteLength calls).Ordered DetectorLock.rank [] := by
  induction calls with
  | nil => trivial
  | cons c calls ih =>
    refine ⟨?_, ih⟩
    split_ifs
    · exact ⟨nofun, c.2.ordered_locks byteLength⟩
    · exact (c.2.ordered_locks byteLength).mono (List.nil_subset _)

end DetectorCall

/-- Threads that call the detector, in buffers of the lengths `byteLength`. -/
abbrev LockedCalls {T : Type*} [DecidableEq T] (byteLength : ℕ → ℕ)
    (calls : T → List (Bool × DetectorCall)) :=
  LockRun fun t ↦ DetectorCall.locksAll byteLength (calls t)

namespace LockedCalls

open Relation

variable {T : Type*} [DecidableEq T] {byteLength : ℕ → ℕ} {calls : T → List (Bool × DetectorCall)}

theorem disciplined (r : LockedCalls byteLength calls) {k : ℕ} (hk : k ≤ r.ops.length) :
    (r.state k).Disciplined DetectorLock.rank :=
  LockRun.disciplined r (fun t ↦ DetectorCall.ordered_locksAll byteLength (calls t)) hk

/-- As long as a thread is not done, it or one that it waits for, at once or through others, can go
on. -/
theorem exists_exec (r : LockedCalls byteLength calls) {k : ℕ} (hk : k ≤ r.ops.length) {t : T}
    (ht : (r.state k).threads t ≠ []) :
    ∃ u, ReflTransGen (r.state k).WaitsFor t u ∧ ∀ n, ((r.state k).exec (u, n)).isSome = true :=
  (r.disciplined hk).exists_exec ht

/-- In no state do threads wait for each other in a circle, and no thread comes to a lock that it
holds. -/
theorem no_deadlock (r : LockedCalls byteLength calls) {k : ℕ} (hk : k ≤ r.ops.length) :
    (∀ t, ¬TransGen (r.state k).WaitsFor t t) ∧
      ∀ t l, (r.state k).Tries t l → (r.state k).owner l ≠ some t :=
  ⟨(r.disciplined hk).not_transGen_waitsFor, fun _ _ ↦ (r.disciplined hk).owner_ne⟩

/-- Thread 0 acquires a sync address, and thread 1 does so with the mutex of the wait list, while
thread 0 holds the lock of the threads. -/
def waiting : LockedCalls (fun _ ↦ 64) fun t : ℕ ↦ [(t = 1, .acquire t 500)] :=
  .ofOps [(0, 0), (0, 1), (0, 0), (1, 0), (1, 0), (1, 1)] (by decide)

theorem no_deadlock_waiting :
    (waiting.state 6).WaitsFor 1 0 ∧ ¬TransGen (waiting.state 6).WaitsFor 1 1 :=
  ⟨⟨.thread, ⟨_, _, rfl⟩, rfl⟩, (no_deadlock waiting (k := 6) (by decide)).1 1⟩

end LockedCalls

end WebTSan
