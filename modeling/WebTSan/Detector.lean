import WebTSan.Shadow

/-!
# The detector

`Detector` is the state of the `WebTSan` singleton. Its member functions are state transformers
under the names of the source. A member function runs under the locks of the source, so that calls
are atomic steps; the locks themselves do not appear. Host addresses, wasm addresses, byte lengths
and edge ids are natural numbers.

`threadCreate` returns no value when its `CHECK` stops the process, and `clearShadow` returns no
value when the loop of `ClearRange` does not end.

## Main definitions

* `WebTSan.Detector`, `WebTSan.Detector.initial`.
* Thread lifecycle: `threadCreate`, `threadFinish`, `threadDestroy`, `threadJoin`, `threadDetach`,
  `threadAbsorb`.
* Synchronization: `acquire`, `release`, the mutex primitives, `happensBefore`, `happensAfter`.
* Memory: `memoryAccess`, `removeShadow`, `clearShadow`.
-/

namespace WebTSan

/-- The state of the `WebTSan` singleton. -/
structure Detector where
  enabled : Bool
  /-- Per-thread vector clocks. -/
  threadClocks : Tid → VClock
  threadAlive : Tid → Bool
  nextTid : ℕ
  /-- The join of the final clocks of all finished threads. -/
  orphanClock : VClock
  /-- Per-address vector clocks. -/
  syncClocks : ℕ → Option VClock
  /-- Happens-before edges of messages. -/
  hbEdges : ℕ → Option VClock
  nextEdgeId : ℕ
  /-- Shadow buffers, by the address of their backing store. -/
  shadowBuffers : ℕ → Option ShadowBuffer
  firstRaceLogged : Bool
  racesDetected : ℕ
  accessesChecked : ℕ
  accessesSuppressed : ℕ
  /-- The sites that have been reported once. -/
  reportedRaceSites : Finset ℕ

namespace Detector

/-- The constructed singleton after `Enable`. -/
def initial : Detector :=
  { enabled := true
    threadClocks := fun _ ↦ VClock.empty
    threadAlive := fun _ ↦ false
    nextTid := 0
    orphanClock := VClock.empty
    syncClocks := fun _ ↦ none
    hbEdges := fun _ ↦ none
    nextEdgeId := 1
    shadowBuffers := fun _ ↦ none
    firstRaceLogged := false
    racesDetected := 0
    accessesChecked := 0
    accessesSuppressed := 0
    reportedRaceSites := ∅ }

/-! ### Thread lifecycle -/

/-- The slot tried in round `i` of the search of `ThreadCreate`. -/
def candidate (s : Detector) (i : ℕ) : Tid :=
  ⟨(s.nextTid + i) % kMaxThreads, Nat.mod_lt _ (by decide)⟩

/-- The search loop of `ThreadCreate`: the first candidate that is not alive, and `next_tid_` when
the loop runs through. -/
def findSlot (s : Detector) : ℕ :=
  match (List.range kMaxThreads).find? fun i ↦ !s.threadAlive (s.candidate i) with
  | some i => s.candidate i
  | none => s.nextTid

/-- The parent whose clock the new thread `tid` inherits. The new thread is already marked alive
when this is decided. -/
def liveParent (s : Detector) (tid : Tid) (parentTid : ℕ) : Option Tid :=
  if h : parentTid ≠ uint32Max ∧ parentTid < kMaxThreads then
    if Function.update s.threadAlive tid true ⟨parentTid, h.2⟩ then some ⟨parentTid, h.2⟩ else none
  else none

/-- The clock of a new thread before its first tick. -/
def birthClock (s : Detector) (tid : Tid) (parentTid : ℕ) : VClock :=
  match s.liveParent tid parentTid with
  | some parent => (s.threadClocks parent).join s.orphanClock
  | none => VClock.empty.join s.orphanClock

/-- The part of `ThreadCreate` after its `CHECK`. -/
def occupy (s : Detector) (tid : Tid) (parentTid : ℕ) : Detector :=
  { s with
    threadAlive := Function.update s.threadAlive tid true
    threadClocks :=
      Function.update s.threadClocks tid ((s.birthClock tid parentTid).increment tid)
    nextTid := (tid + 1) % kMaxThreads }

/-- `ThreadCreate`, with `CHECK_LT(tid, kMaxThreads)` between the search and the creation. -/
def threadCreate (s : Detector) (parentTid : ℕ) : Option (Tid × Detector) :=
  let tid := s.findSlot
  if h : tid < kMaxThreads then some (⟨tid, h⟩, s.occupy ⟨tid, h⟩ parentTid) else none

/-- `ThreadFinish`: publish the final clock to the orphan clock and to every other live thread. -/
def threadFinish (s : Detector) (tid : Tid) : Detector :=
  if !s.enabled then s
  else
    let finishing := s.threadClocks tid
    { s with
      orphanClock := s.orphanClock.join finishing
      threadClocks := fun i ↦
        if i = tid ∨ s.threadAlive i = false then s.threadClocks i
        else (s.threadClocks i).join finishing }

/-- `ThreadDestroy`. Of the effects of `ThreadFinish` only the one on the orphan clock is made up
for. -/
def threadDestroy (s : Detector) (tid : Tid) : Detector :=
  if s.enabled then
    { s with
      orphanClock :=
        if s.threadAlive tid then s.orphanClock.join (s.threadClocks tid) else s.orphanClock
      threadAlive := Function.update s.threadAlive tid false }
  else { s with threadAlive := Function.update s.threadAlive tid false }

/-- `ThreadJoin`: the joiner takes over the clock of the child, whose slot becomes free. -/
def threadJoin (s : Detector) (joinerTid childTid : Tid) : Detector :=
  if !s.enabled then s
  else
    { s with
      threadClocks := Function.update s.threadClocks joinerTid
        ((s.threadClocks joinerTid).join (s.threadClocks childTid))
      threadAlive := Function.update s.threadAlive childTid false }

/-- `ThreadDetach` has no effect. -/
def threadDetach (s : Detector) (_childTid : Tid) : Detector := s

/-- `ThreadAbsorb`: merge the clock of `srcTid` into the one of `dstTid`. -/
def threadAbsorb (s : Detector) (dstTid srcTid : Tid) : Detector :=
  if !s.enabled then s
  else if dstTid = srcTid then s
  else
    { s with
      threadClocks := Function.update s.threadClocks dstTid
        ((s.threadClocks dstTid).join (s.threadClocks srcTid)) }

/-! ### Synchronization -/

/-- Join the clock stored at an address, if there is one, into the clock of a thread. -/
def joinSync (s : Detector) (tid : Tid) (addr : ℕ) : Detector :=
  match s.syncClocks addr with
  | none => s
  | some clk =>
    { s with
      threadClocks := Function.update s.threadClocks tid ((s.threadClocks tid).join clk) }

/-- Join the clock of a thread into the clock stored at an address, then tick the thread. -/
def publishSync (s : Detector) (tid : Tid) (addr : ℕ) : Detector :=
  { s with
    syncClocks := Function.update s.syncClocks addr
      (some (((s.syncClocks addr).getD VClock.empty).join (s.threadClocks tid)))
    threadClocks := Function.update s.threadClocks tid ((s.threadClocks tid).increment tid) }

/-- Forget the clock stored at an address. -/
def eraseSync (s : Detector) (addr : ℕ) : Detector :=
  { s with syncClocks := Function.update s.syncClocks addr none }

def acquire (s : Detector) (tid : Tid) (syncAddr : ℕ) : Detector :=
  if !s.enabled then s else s.joinSync tid syncAddr

def release (s : Detector) (tid : Tid) (syncAddr : ℕ) : Detector :=
  if !s.enabled then s else s.publishSync tid syncAddr

def mutexCreate (s : Detector) (addr : ℕ) : Detector :=
  if !s.enabled then s else s.eraseSync addr

def mutexDestroy (s : Detector) (addr : ℕ) : Detector :=
  if !s.enabled then s else s.eraseSync addr

/-- `MutexPreLock` has no effect. -/
def mutexPreLock (s : Detector) (_tid : Tid) (_addr : ℕ) : Detector := s

def mutexPostLock (s : Detector) (tid : Tid) (addr : ℕ) : Detector :=
  if !s.enabled then s else s.joinSync tid addr

def mutexUnlock (s : Detector) (tid : Tid) (addr : ℕ) : Detector :=
  if !s.enabled then s else s.publishSync tid addr

def mutexReadLock (s : Detector) (tid : Tid) (addr : ℕ) : Detector :=
  if !s.enabled then s else s.joinSync tid addr

/-- `MutexReadUnlock` does not publish. -/
def mutexReadUnlock (s : Detector) (_tid : Tid) (_addr : ℕ) : Detector := s

/-- `HappensBefore`: store the clock of the sender under a new edge id. The sender does not tick. -/
def happensBefore (s : Detector) (senderTid : Tid) : ℕ × Detector :=
  if !s.enabled then (0, s)
  else
    let id := s.nextEdgeId
    (id, { s with
      nextEdgeId := bump s.nextEdgeId
      hbEdges := Function.update s.hbEdges id (some (s.threadClocks senderTid)) })

/-- `HappensAfter`: each edge is consumed once. -/
def happensAfter (s : Detector) (receiverTid : Tid) (edgeId : ℕ) : Detector :=
  if !s.enabled ∨ edgeId = 0 then s
  else
    match s.hbEdges edgeId with
    | none => s
    | some clk =>
      { s with
        threadClocks :=
          Function.update s.threadClocks receiverTid ((s.threadClocks receiverTid).join clk)
        hbEdges := Function.update s.hbEdges edgeId none }

/-! ### Memory -/

def removeShadow (s : Detector) (backingStore : ℕ) : Detector :=
  if !s.enabled then s
  else { s with shadowBuffers := Function.update s.shadowBuffers backingStore none }

def clearShadow (s : Detector) (backingStore offset size : ℕ) : Option Detector :=
  if !s.enabled then some s
  else
    match s.shadowBuffers backingStore with
    | none => some s
    | some shadow =>
      (shadow.clearRange offset size).map fun shadow' ↦
        { s with shadowBuffers := Function.update s.shadowBuffers backingStore (some shadow') }

def getOrCreateShadow (s : Detector) (backingStore byteLength : ℕ) : ShadowBuffer × Detector :=
  match s.shadowBuffers backingStore with
  | some shadow => (shadow, s)
  | none =>
    let shadow := ShadowBuffer.new backingStore byteLength
    (shadow, { s with shadowBuffers := Function.update s.shadowBuffers backingStore (some shadow) })

/-- The shadow that `MemoryAccess` uses. With `sab_byte_length == 0` only an existing shadow is
used. -/
def shadowFor (s : Detector) (backingStore sabByteLength : ℕ) : Option (ShadowBuffer × Detector) :=
  if sabByteLength = 0 then (s.shadowBuffers backingStore).map fun shadow ↦ (shadow, s)
  else some (s.getOrCreateShadow backingStore sabByteLength)

/-- The key of the per-site filter: the backing store and the 8-byte bucket of the offset. -/
def siteKey (backingStore sabOffset : ℕ) : ℕ := backingStore ^^^ (sabOffset / 8 * 8)

/-- What a call of `MemoryAccess` finds and tells. -/
structure AccessOutcome where
  /-- The report of `RecordAccess`. -/
  found : Option RaceReport
  /-- The report that passed the per-site filter: it is counted, stored for V8 to pick up and
  passed to the callback. -/
  reported : Option RaceReport

/-- The reaction of `MemoryAccess` to a race. -/
def reportRace (s : Detector) (backingStore : ℕ) (report : RaceReport) : AccessOutcome × Detector :=
  let key := siteKey backingStore report.sabOffset
  if key ∈ s.reportedRaceSites then ({ found := some report, reported := none }, s)
  else
    ({ found := some report, reported := some report },
      { s with
        reportedRaceSites := insert key s.reportedRaceSites
        racesDetected := bump s.racesDetected
        firstRaceLogged := true })

/-- The part of `MemoryAccess` after the shadow is found. -/
def recordIn (s : Detector) (shadow : ShadowBuffer) (backingStore offset size : ℕ) (tid : Tid)
    (isWrite : Bool) : AccessOutcome × Detector :=
  let clockSnapshot := s.threadClocks tid
  let result := shadow.recordAccess offset size tid isWrite clockSnapshot
  let s := { s with
    shadowBuffers := Function.update s.shadowBuffers backingStore (some result.2) }
  match result.1 with
  | none => ({ found := none, reported := none }, s)
  | some report => s.reportRace backingStore report

/-- `MemoryAccess`. -/
def memoryAccess (s : Detector) (backingStore sabByteLength offset size : ℕ) (tid : Tid)
    (isWrite : Bool) : AccessOutcome × Detector :=
  if !s.enabled then ({ found := none, reported := none }, s)
  else
    let s := { s with accessesChecked := bump s.accessesChecked }
    match s.shadowFor backingStore sabByteLength with
    | none => ({ found := none, reported := none }, s)
    | some (shadow, s) => s.recordIn shadow backingStore offset size tid isWrite

/-! ### Control -/

def enable (s : Detector) : Detector := { s with enabled := true }

def disable (s : Detector) : Detector := { s with enabled := false }

def incrementSuppressedCount (s : Detector) : Detector :=
  { s with accessesSuppressed := bump s.accessesSuppressed }

/-- `Reset` clears all state but `enabled_` and the flag for the first log line. -/
def reset (s : Detector) : Detector :=
  { initial with enabled := s.enabled, firstRaceLogged := s.firstRaceLogged }

end Detector

end WebTSan
