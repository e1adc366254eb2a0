import Mathlib.Data.List.AList
import WebTSan.AsyncWaits
import WebTSan.LinkedLists

/-!
# Wait lists made of pointers

In `Futex.lean` a wait list is a list. In the source it is made of nodes on the heap with a pointer
to the previous and to the next one, and its head and its tail are in a map, from which it is erased
when it becomes empty. The loops follow the pointers. The node of an asynchronous wait is deleted in
the end; the node for the synchronous waits of an isolate is a part of the isolate.

The nodes have the same fields as before, and the steps are the same. A step that follows a null
pointer or a pointer to a deleted node, or that fails one of the `DCHECK`s about links, owners,
tasks and the entries of the maps, has no result; `Verify` and `NodeIsOnList` are left out. The
loops get a number of rounds, and a loop that goes on after these has no result.

`ResolveAsyncWaiterPromises` and `HandleAsyncWaiterTimeout` are run by tasks. A task for the
promises of an isolate is posted when its list gets its first node, and one for a time-out with its
node. It runs once, on the thread of its isolate, unless it is cancelled before. When an isolate
goes away, its tasks are cancelled.

## Main definitions

* `WebTSan.FutexWaitList`: the nodes and the two maps, with `addNode` and `removeNode`.
* `WebTSan.PointerState`, `WebTSan.PointerState.exec`, `WebTSan.PointerRun`.
* `WebTSan.PointerState.Enabled`: when a step may be taken.
-/

namespace WebTSan

/-- The maps and the nodes of `FutexWaitList`. -/
structure FutexWaitList where
  heap : NodeHeap NodeId FutexNode
  locationLists : AList fun _ : ℕ ↦ Ends NodeId
  isolatePromisesToResolve : AList fun _ : Isolate ↦ Ends NodeId

/-- Where a thread is in the code. In `ResolveAsyncWaiterPromises` it has a pointer to a node. -/
inductive PointerPc
  | idle
  | waking (loc count : ℕ)
  | waiting (loc : ℕ) (useTimeout : Bool) (phase : WaitPhase)
  | finishing (loc : ℕ) (result : WaitResult)
  | resolving (node : Option NodeId)
deriving DecidableEq

/-- The wait lists, the tasks and the threads. -/
structure PointerState extends FutexWaitList where
  detector : Detector
  currentTid : Isolate → Option Tid
  nextAsync : ℕ
  mutexHolder : Option Isolate
  pc : Isolate → PointerPc
  /-- The isolate that has a task for the time-out of a node. -/
  timeoutTasks : NodeId → Option Isolate
  /-- The number of tasks of an isolate for its promises. -/
  resolveTasks : Isolate → ℕ

/-- The node belongs to an asynchronous wait of the isolate. -/
def FutexNode.belongsTo (x : FutexNode) (a : Isolate) : Bool :=
  x.asyncState.any fun st ↦ st.isolateForAsyncWaiters = a

namespace FutexWaitList

variable (w : FutexWaitList)

/-- Write the fields of a node other than its pointers. -/
def setNode (n : NodeId) (x : FutexNode) : Option FutexWaitList :=
  (w.heap.setData n x).map fun heap ↦ { w with heap := heap }

/-- `AddNode`. -/
def addNode (n : NodeId) : Option FutexWaitList := do
  let x ← w.heap n
  if x.prev = none ∧ x.next = none then
    let loc := x.data.waitLocation
    match w.locationLists.lookup loc with
    | none => some { w with locationLists := w.locationLists.insert loc ⟨n, n⟩ }
    | some l => do
      let heap ← w.heap.setNext l.tail (some n)
      let heap ← heap.setPrev n (some l.tail)
      some { w with
        heap := heap
        locationLists := w.locationLists.insert loc { l with tail := n } }
  else none

/-- `RemoveNode`. -/
def removeNode (n : NodeId) : Option FutexWaitList := do
  let x ← w.heap n
  let loc := x.data.waitLocation
  match x.prev, x.next with
  | none, none =>
    -- the only node of its list
    if (w.locationLists.lookup loc).isSome then
      some { w with locationLists := w.locationLists.erase loc }
    else none
  | some prev, some next => do
    let heap ← w.heap.setNext prev (some next)
    let heap ← heap.setPrev next (some prev)
    let heap ← heap.setPrev n none
    let heap ← heap.setNext n none
    some { w with heap := heap }
  | some prev, none => do
    let l ← w.locationLists.lookup loc
    let heap ← w.heap.setNext prev none
    let heap ← heap.setPrev n none
    if n = l.tail then
      some { w with
        heap := heap
        locationLists := w.locationLists.insert loc { l with tail := prev } }
    else none
  | none, some next => do
    let l ← w.locationLists.lookup loc
    let heap ← w.heap.setPrev next none
    let heap ← heap.setNext n none
    if n = l.head then
      some { w with
        heap := heap
        locationLists := w.locationLists.insert loc { l with head := next } }
    else none

/-! ### Deleting nodes -/

/-- `DeleteAsyncWaiterNode`, with the next node. -/
def deleteAsyncWaiterNode (heap : NodeHeap NodeId FutexNode) (n : NodeId) :
    Option (NodeHeap NodeId FutexNode × Option NodeId) := do
  let x ← heap n
  let heap ← x.prev.elim (some heap) fun prev ↦ heap.setNext prev x.next
  let heap ← x.next.elim (some heap) fun next ↦ heap.setPrev next x.prev
  some (Function.update heap n none, x.next)

/-- The loop of `DeleteNodesForIsolate`, with the head and the tail of what is left. -/
def deleteNodesForIsolate (a : Isolate) (rounds : ℕ) (heap : NodeHeap NodeId FutexNode)
    (node newHead newTail : Option NodeId) :
    Option (NodeHeap NodeId FutexNode × Option NodeId × Option NodeId) :=
  match node with
  | none => some (heap, newHead, newTail)
  | some n =>
    match rounds with
    | 0 => none
    | rounds + 1 => do
      let x ← heap n
      if x.data.belongsTo a then
        let r ← deleteAsyncWaiterNode heap n
        deleteNodesForIsolate a rounds r.1 r.2 newHead newTail
      else deleteNodesForIsolate a rounds heap x.next (newHead.or (some n)) (some n)

/-- The loop of `IsolateDeinit` over the nodes whose promises are not resolved. -/
def deletePromises (a : Isolate) (rounds : ℕ) (heap : NodeHeap NodeId FutexNode)
    (node : Option NodeId) : Option (NodeHeap NodeId FutexNode) :=
  match node with
  | none => some heap
  | some n =>
    match rounds with
    | 0 => none
    | rounds + 1 => do
      let x ← heap n
      if x.data.belongsTo a then
        let r ← deleteAsyncWaiterNode heap n
        deletePromises a rounds r.1 r.2
      else none

/-- The loop of `IsolateDeinit` over the locations. -/
def deinitLocations (a : Isolate) (rounds : ℕ) : List ℕ → FutexWaitList → Option FutexWaitList
  | [], w => some w
  | loc :: locs, w => do
    let l ← w.locationLists.lookup loc
    let r ← deleteNodesForIsolate a rounds w.heap (some l.head) none none
    match r.2 with
    | (none, none) =>
      deinitLocations a rounds locs { w with
        heap := r.1
        locationLists := w.locationLists.erase loc }
    | (some head, some tail) =>
      deinitLocations a rounds locs { w with
        heap := r.1
        locationLists := w.locationLists.insert loc ⟨head, tail⟩ }
    | _ => none

/-- What `IsolateDeinit` does to the lists. -/
def isolateDeinit (a : Isolate) (rounds : ℕ) : Option FutexWaitList := do
  let w ← deinitLocations a rounds w.locationLists.keys w
  match w.isolatePromisesToResolve.lookup a with
  | none => some w
  | some l => do
    let heap ← deletePromises a rounds w.heap (some l.head)
    some { w with
      heap := heap
      isolatePromisesToResolve := w.isolatePromisesToResolve.erase a }

end FutexWaitList

namespace PointerState

/-- No thread waits. -/
def initial : PointerState where
  heap
    | .sync _ => some ⟨⟨0, false, false, none⟩, none, none⟩
    | .async _ => none
  locationLists := ∅
  isolatePromisesToResolve := ∅
  detector := Detector.initial
  currentTid _ := none
  nextAsync := 0
  mutexHolder := none
  pc _ := .idle
  timeoutTasks _ := none
  resolveTasks _ := 0

variable (s : PointerState)

def setLists (w : FutexWaitList) : PointerState := { s with toFutexWaitList := w }

def setPc (a : Isolate) (pc : PointerPc) : PointerState :=
  { s with pc := Function.update s.pc a pc }

/-- `OnAtomicsNotify`, called by a thread that has a tid. -/
def onAtomicsNotify (loc : ℕ) : Option Tid → Detector
  | some tid => if s.detector.enabled then s.detector.release tid loc else s.detector
  | none => s.detector

/-- `OnAtomicsWaitComplete`, called by a thread that has a tid. -/
def onAtomicsWaitComplete (loc : ℕ) : Option Tid → Detector
  | some tid => if s.detector.enabled then s.detector.acquire tid loc else s.detector
  | none => s.detector

/-! ### `Wake` -/

/-- `NotifyAsyncWaiter`. -/
def notifyAsyncWaiter (n : NodeId) : Option PointerState := do
  let x ← s.heap n
  let st ← x.data.asyncState
  let w ← s.setNode n { x.data with asyncState := some { st with hasTimeoutTime := false } }
  let w ← w.removeNode n
  let isolate := st.isolateForAsyncWaiters
  match w.isolatePromisesToResolve.lookup isolate with
  | none =>
    some { s.setLists { w with
        isolatePromisesToResolve := w.isolatePromisesToResolve.insert isolate ⟨n, n⟩ } with
      resolveTasks := Function.update s.resolveTasks isolate (s.resolveTasks isolate + 1) }
  | some l => do
    let heap ← w.heap.setPrev n (some l.tail)
    let heap ← heap.setNext l.tail (some n)
    some (s.setLists { w with
      heap := heap
      isolatePromisesToResolve :=
        w.isolatePromisesToResolve.insert isolate { l with tail := n } })

/-- The loop of `Wake` from a node on: the number of waiters woken, and the state after it. -/
def wakeLoop (rounds : ℕ) (s : PointerState) (node : Option NodeId) (count woken : ℕ) :
    Option (ℕ × PointerState) :=
  match node with
  | none => some (woken, s)
  | some n =>
    if count = 0 then some (woken, s)
    else
      match rounds with
      | 0 => none
      | rounds + 1 => do
        let x ← s.heap n
        if x.data.waiting = false then s.wakeLoop rounds x.next count woken
        else
          match x.data.asyncState with
          | none => do
            let w ← s.setNode n { x.data with waiting := false }
            (s.setLists w).wakeLoop rounds x.next (if count = kWakeAll then count else count - 1)
              (woken + 1)
          | some st =>
            if st.backingStoreExpired = false then do
              let w ← s.setNode n { x.data with waiting := false }
              let s ← (s.setLists w).notifyAsyncWaiter n
              s.wakeLoop rounds x.next (if count = kWakeAll then count else count - 1) (woken + 1)
            else if st.hasTimeoutTime = false then
              if st.hasTimeoutTask = false then do
                let st := { st with waitingForMainThreadCleanup := true }
                let w ← s.setNode n { x.data with waiting := false, asyncState := some st }
                let s ← (s.setLists w).notifyAsyncWaiter n
                let x ← s.heap n
                s.wakeLoop rounds x.next count woken
              else none
            else s.wakeLoop rounds x.next count woken

/-- The critical section of `Wake`. -/
def wake (rounds loc count : ℕ) : Option (ℕ × PointerState) :=
  match s.locationLists.lookup loc with
  | none => some (0, s)
  | some l => s.wakeLoop rounds (some l.head) count 0

/-! ### Waiters -/

/-- The first part of `WaitSyncImpl`, for a value in memory that is the expected one. -/
def startWait (a : Isolate) (loc : ℕ) : Option PointerState := do
  let x ← s.heap (.sync a)
  let w ← s.setNode (.sync a) { x.data with waitLocation := loc, waiting := true }
  let w ← w.addNode (.sync a)
  some (s.setLists w)

/-- The last part of `WaitSyncImpl`. -/
def finishWait (a : Isolate) (loc : ℕ) (result : WaitResult) : Option PointerState := do
  let x ← s.heap (.sync a)
  let w ← s.setNode (.sync a) { x.data with waiting := false }
  let w ← w.removeNode (.sync a)
  some ((s.setLists w).setPc a (.finishing loc result))

/-- The part of `WaitAsync` that makes a node, and posts a task for its time-out. -/
def startAsync (a : Isolate) (loc : ℕ) (useTimeout : Bool) : Option PointerState := do
  let n := NodeId.async s.nextAsync
  let x : FutexNode :=
    { waitLocation := loc
      waiting := true
      interrupted := false
      asyncState := some
        { isolateForAsyncWaiters := a
          backingStoreExpired := false
          hasTimeoutTime := useTimeout
          hasTimeoutTask := useTimeout
          waitingForMainThreadCleanup := false } }
  let w := { s.toFutexWaitList with heap := Function.update s.heap n (some ⟨x, none, none⟩) }
  let w ← w.addNode n
  some { s.setLists w with
    nextAsync := s.nextAsync + 1
    timeoutTasks := Function.update s.timeoutTasks n (if useTimeout then some a else none) }

/-- `CancelTimeoutTask`. -/
def cancelTimeoutTask (n : NodeId) : Option PointerState := do
  let x ← s.heap n
  let st ← x.data.asyncState
  if st.hasTimeoutTask then do
    let w ← s.setNode n { x.data with asyncState := some { st with hasTimeoutTask := false } }
    some { s.setLists w with timeoutTasks := Function.update s.timeoutTasks n none }
  else some s

/-- A round of the loop of `ResolveAsyncWaiterPromises`. -/
def resolveNode (a : Isolate) (n : NodeId) : Option PointerState := do
  let x ← s.heap n
  if x.data.belongsTo a ∧ x.data.waiting = false then
    let loc := x.data.waitLocation
    let d := if loc = 0 then s.detector else s.onAtomicsWaitComplete loc (s.currentTid a)
    let s ← { s with detector := d }.cancelTimeoutTask n
    let r ← FutexWaitList.deleteAsyncWaiterNode s.heap n
    some ({ s with heap := r.1 }.setPc a (.resolving r.2))
  else none

/-- `HandleAsyncWaiterTimeout`. -/
def handleAsyncWaiterTimeout (n : NodeId) : Option PointerState := do
  let x ← s.heap n
  let st ← x.data.asyncState
  let w ← s.setNode n { x.data with asyncState := some { st with hasTimeoutTask := false } }
  if x.data.waiting = false then some (s.setLists w)
  else
    let w ← w.removeNode n
    some (s.setLists { w with heap := Function.update w.heap n none })

end PointerState

namespace PointerState

/-- The state after a step, if the step is possible and goes well, and its loops end within a number
of rounds. -/
def exec (rounds : ℕ) (s : PointerState) : FutexStep → Option PointerState
  | .setTid a tid =>
    if s.pc a = .idle then some { s with currentTid := Function.update s.currentTid a tid }
    else none
  | .call o => (o.exec s.detector).map fun d ↦ { s with detector := d }
  | .expire n =>
    -- the weak pointer in a node that exists
    match s.heap.data n with
    | none => some s
    | some x => (s.setNode n { x with
        asyncState := x.asyncState.map fun st ↦ { st with backingStoreExpired := true } }).map
          s.setLists
  | .notify a loc count =>
    if s.pc a = .idle then
      some ({ s with detector := s.onAtomicsNotify loc (s.currentTid a) }.setPc a
        (.waking loc count))
    else none
  | .wake a =>
    match s.pc a with
    | .waking loc count =>
      if s.mutexHolder = none then (s.wake rounds loc count).map fun r ↦ r.2.setPc a .idle else none
    | _ => none
  | .waitSync a loc useTimeout equal =>
    if s.pc a = .idle ∧ s.mutexHolder = none ∧ loc ≠ 0 then
      if equal then
        (s.startWait a loc).map fun s ↦
          { s with mutexHolder := some a }.setPc a (.waiting loc useTimeout .loop)
      else some ({ s with mutexHolder := some a }.setPc a (.finishing loc .notEqual))
    else none
  | .iterate a timeOver =>
    match s.pc a with
    | .waiting loc useTimeout .loop => do
      let x ← s.heap (.sync a)
      if x.data.interrupted then
        let w ← s.setNode (.sync a) { x.data with interrupted := false }
        some ({ s.setLists w with mutexHolder := none }.setPc a
          (.waiting loc useTimeout .interrupts))
      else if x.data.waiting = false then s.finishWait a loc .ok
      else if useTimeout && timeOver then s.finishWait a loc .timedOut
      else some ({ s with mutexHolder := none }.setPc a (.waiting loc useTimeout .blocked))
    | _ => none
  | .resume a =>
    match s.pc a with
    | .waiting loc useTimeout .blocked =>
      if s.mutexHolder = none then
        some ({ s with mutexHolder := some a }.setPc a (.waiting loc useTimeout .loop))
      else none
    | _ => none
  | .notifyWake a =>
    if s.mutexHolder = none then do
      let x ← s.heap (.sync a)
      let w ← s.setNode (.sync a) { x.data with interrupted := true }
      some (s.setLists w)
    else none
  | .interruptsHandled a exception =>
    match s.pc a with
    | .waiting loc useTimeout .interrupts =>
      if s.mutexHolder = none then
        if exception then { s with mutexHolder := some a }.finishWait a loc .exception
        else some ({ s with mutexHolder := some a }.setPc a (.waiting loc useTimeout .loop))
      else none
    | _ => none
  | .waitComplete a =>
    match s.pc a with
    | .finishing loc _ =>
      some ({ s with
        detector := s.onAtomicsWaitComplete loc (s.currentTid a)
        mutexHolder := none }.setPc a .idle)
    | _ => none
  | .waitAsync a loc relTimeout equal =>
    if s.pc a = .idle ∧ s.mutexHolder = none ∧ loc ≠ 0 then
      if equal = false ∨ relTimeout = some 0 then some s
      else s.startAsync a loc relTimeout.isSome
    else none
  | .takePromises a =>
    -- a task for the promises runs
    if s.pc a = .idle ∧ s.mutexHolder = none ∧ 0 < s.resolveTasks a then do
      let l ← s.isolatePromisesToResolve.lookup a
      some ({ s with
        isolatePromisesToResolve := s.isolatePromisesToResolve.erase a
        resolveTasks := Function.update s.resolveTasks a (s.resolveTasks a - 1) }.setPc a
          (.resolving (some l.head)))
    else none
  | .resolveNext a =>
    match s.pc a with
    | .resolving none => some (s.setPc a .idle)
    | .resolving (some n) => s.resolveNode a n
    | _ => none
  | .asyncTimeout a n =>
    -- the task for the time-out runs
    if s.pc a = .idle ∧ s.mutexHolder = none ∧ s.timeoutTasks n = some a then
      { s with timeoutTasks := Function.update s.timeoutTasks n none }.handleAsyncWaiterTimeout n
    else none
  | .isolateDeinit a =>
    if s.pc a = .idle ∧ s.mutexHolder = none then do
      let w ← s.isolateDeinit a rounds
      some { s.setLists w with
        timeoutTasks := fun n ↦ if s.timeoutTasks n = some a then none else s.timeoutTasks n
        resolveTasks := Function.update s.resolveTasks a 0 }
    else none

/-- A step may be taken: its thread is at the right place, the mutex is free if the step locks it,
and the task is posted if the step is one. -/
def Enabled (s : PointerState) : FutexStep → Prop
  | .setTid a _ | .notify a _ _ => s.pc a = .idle
  | .call o => (o.exec s.detector).isSome = true
  | .expire _ => True
  | .wake a => s.mutexHolder = none ∧ ∃ loc count, s.pc a = .waking loc count
  | .waitSync a loc _ _ | .waitAsync a loc _ _ =>
    s.pc a = .idle ∧ s.mutexHolder = none ∧ loc ≠ 0
  | .iterate a _ => ∃ loc useTimeout, s.pc a = .waiting loc useTimeout .loop
  | .resume a => s.mutexHolder = none ∧ ∃ loc useTimeout, s.pc a = .waiting loc useTimeout .blocked
  | .notifyWake _ => s.mutexHolder = none
  | .interruptsHandled a _ =>
    s.mutexHolder = none ∧ ∃ loc useTimeout, s.pc a = .waiting loc useTimeout .interrupts
  | .waitComplete a => ∃ loc result, s.pc a = .finishing loc result
  | .takePromises a => s.pc a = .idle ∧ s.mutexHolder = none ∧ 0 < s.resolveTasks a
  | .resolveNext a => ∃ node, s.pc a = .resolving node
  | .asyncTimeout a n => s.pc a = .idle ∧ s.mutexHolder = none ∧ s.timeoutTasks n = some a
  | .isolateDeinit a => s.pc a = .idle ∧ s.mutexHolder = none

end PointerState

/-- A sequence of steps of the threads, from an empty wait list, with loops of at most `rounds`
rounds. -/
abbrev PointerRun (rounds : ℕ) := Execution (PointerState.exec rounds) PointerState.initial

end WebTSan
