import WebTSan.HappensBefore

/-!
# Wait lists

`Atomics.wait`, `Atomics.waitAsync` and `Atomics.notify` meet in the wait lists of
`FutexEmulation`. A `FutexState` holds the nodes of all waits, the lists of nodes for every
location, the nodes whose promises every isolate has to resolve, and the point in the code where
the thread of every isolate is. A step is a critical section of the mutex of the wait lists, a hook
of the detector, or a part of the code between two of them. Steps of all threads interleave, with
any other calls into the detector in between.

A thread that waits for the condition variable may go on at any time, as after a spurious wake-up,
a time-out or a notification. Whether a value in memory is the expected one, whether a time has
passed and whether an interrupt throws are decided by the step. The last hook of a wait and the
handing out of its result are one step, since the code between them looks at the node only.

## Main definitions

* `WebTSan.FutexNode`, `WebTSan.FutexState`.
* `WebTSan.FutexState.wakeLoop`: the loop of `Wake` over the nodes of a location.
* `WebTSan.FutexStep`, `WebTSan.FutexState.exec`, `WebTSan.FutexState.completes`.
* `WebTSan.FutexState.Step`: the paths through the code of a step.

## Main results

* `WebTSan.FutexState.step_of_exec`: a step takes one of the paths.
-/

namespace WebTSan

/-- An isolate, with the thread that it runs on. -/
abbrev Isolate := ℕ

/-- `kWakeAll`. -/
def kWakeAll : ℕ := uint32Max

/-- The result of a wait. -/
inductive WaitResult
  | ok
  | notEqual
  | timedOut
  | exception
deriving DecidableEq

/-- The nodes: every isolate has one for its synchronous waits, and every asynchronous wait makes
one. -/
inductive NodeId
  | sync (isolate : Isolate)
  | async (id : ℕ)
deriving DecidableEq

/-- The `AsyncState` of a node. -/
structure AsyncState where
  isolateForAsyncWaiters : Isolate
  /-- The weak pointer to the backing store has expired. -/
  backingStoreExpired : Bool
  /-- `timeout_time` is not null. -/
  hasTimeoutTime : Bool
  /-- `timeout_task_id` is valid. -/
  hasTimeoutTask : Bool
  waitingForMainThreadCleanup : Bool

/-- A `FutexWaitListNode`. -/
structure FutexNode where
  waitLocation : ℕ
  waiting : Bool
  interrupted : Bool
  asyncState : Option AsyncState

/-- The result with which `ResolveAsyncWaiterPromise` resolves a promise, if it does. -/
def AsyncState.promiseResult (st : AsyncState) : Option WaitResult :=
  if st.waitingForMainThreadCleanup then none
  else if st.hasTimeoutTime then some .timedOut else some .ok

/-- Where a thread is in the loop of `WaitSyncImpl`. -/
inductive WaitPhase
  /-- At the top of the loop, with the mutex. -/
  | loop
  /-- Waiting for the condition variable. -/
  | blocked
  /-- In `HandleInterrupts`. -/
  | interrupts
deriving DecidableEq

/-- Where a thread is in the code. -/
inductive FutexPc
  | idle
  /-- In `Wake`, between the hook and the mutex. -/
  | waking (loc count : ℕ)
  /-- In the loop of `WaitSyncImpl`. -/
  | waiting (loc : ℕ) (useTimeout : Bool) (phase : WaitPhase)
  /-- In `WaitSync` with the mutex, before the hook. -/
  | finishing (loc : ℕ) (result : WaitResult)
  /-- In `ResolveAsyncWaiterPromises`, with the nodes that are left. -/
  | resolving (nodes : List NodeId)
deriving DecidableEq

/-- The wait lists and the threads that use them. -/
structure FutexState where
  detector : Detector
  /-- What `get_current_tid` returns on the thread of an isolate; `UINT32_MAX` is no tid. -/
  currentTid : Isolate → Option Tid
  node : NodeId → FutexNode
  nextAsync : ℕ
  /-- The nodes that wait on a location. -/
  locationLists : ℕ → List NodeId
  /-- The nodes that wait for their promises to be resolved. -/
  promisesToResolve : Isolate → List NodeId
  mutexHolder : Option Isolate
  pc : Isolate → FutexPc

namespace FutexState

/-- No thread waits. -/
def initial : FutexState :=
  { detector := Detector.initial
    currentTid := fun _ ↦ none
    node := fun _ ↦ ⟨0, false, false, none⟩
    nextAsync := 0
    locationLists := fun _ ↦ []
    promisesToResolve := fun _ ↦ []
    mutexHolder := none
    pc := fun _ ↦ .idle }

variable (s : FutexState)

/-! ### Hooks -/

/-- `OnAtomicsNotify`, called by a thread that has a tid. -/
def onAtomicsNotify (loc : ℕ) : Option Tid → Detector
  | some tid => if s.detector.enabled then s.detector.release tid loc else s.detector
  | none => s.detector

/-- `OnAtomicsWaitComplete`, called by a thread that has a tid. -/
def onAtomicsWaitComplete (loc : ℕ) : Option Tid → Detector
  | some tid => if s.detector.enabled then s.detector.acquire tid loc else s.detector
  | none => s.detector

/-! ### Lists -/

/-- Replace the state of a node. -/
def setNode (n : NodeId) (x : FutexNode) : FutexState :=
  { s with node := Function.update s.node n x }

/-- `AddNode`: append a node to the list of its location. -/
def addNode (n : NodeId) : FutexState :=
  let loc := (s.node n).waitLocation
  { s with locationLists := Function.update s.locationLists loc (s.locationLists loc ++ [n]) }

/-- `RemoveNode`: take a node out of the list of its location. -/
def removeNode (n : NodeId) : FutexState :=
  let loc := (s.node n).waitLocation
  { s with locationLists :=
      Function.update s.locationLists loc ((s.locationLists loc).filter (· ≠ n)) }

def setPc (a : Isolate) (pc : FutexPc) : FutexState :=
  { s with pc := Function.update s.pc a pc }

/-! ### `Wake` -/

/-- `NotifyAsyncWaiter`: move a node to the list of its isolate. -/
def notifyAsyncWaiter (n : NodeId) (st : AsyncState) : FutexState :=
  let s := s.setNode n { s.node n with asyncState := some { st with hasTimeoutTime := false } }
  let s := s.removeNode n
  let isolate := st.isolateForAsyncWaiters
  { s with promisesToResolve :=
      Function.update s.promisesToResolve isolate (s.promisesToResolve isolate ++ [n]) }

/-- What `Wake` does with a waiter that it wakes. Notifying the condition variable changes nothing
here. -/
def wakeNode (n : NodeId) : FutexState :=
  let s := s.setNode n { s.node n with waiting := false }
  match (s.node n).asyncState with
  | none => s
  | some st => s.notifyAsyncWaiter n st

/-- What `Wake` does with a node whose backing store has expired and that has no time-out. -/
def discardNode (n : NodeId) (st : AsyncState) : FutexState :=
  let st := { st with waitingForMainThreadCleanup := true }
  let s := s.setNode n { s.node n with waiting := false, asyncState := some st }
  s.notifyAsyncWaiter n st

/-- The loop of `Wake` over the nodes of a location: the number of waiters woken, and the state
after it. A node that is discarded has no next node any more, which ends the loop. -/
def wakeLoop (s : FutexState) : List NodeId → ℕ → ℕ × FutexState
  | [], _ => (0, s)
  | n :: nodes, count =>
    if count = 0 then (0, s)
    else if (s.node n).waiting = false then s.wakeLoop nodes count
    else
      let rest := (s.wakeNode n).wakeLoop nodes (if count = kWakeAll then count else count - 1)
      match (s.node n).asyncState with
      | none => (rest.1 + 1, rest.2)
      | some st =>
        if st.backingStoreExpired = false then (rest.1 + 1, rest.2)
        else if st.hasTimeoutTime = false then (0, s.discardNode n st)
        else s.wakeLoop nodes count

/-! ### Waiters -/

/-- The first part of `WaitSyncImpl`, for a value in memory that is the expected one. -/
def startWait (a : Isolate) (loc : ℕ) : FutexState :=
  (s.setNode (.sync a) { s.node (.sync a) with waitLocation := loc, waiting := true }).addNode
    (.sync a)

/-- The last part of `WaitSyncImpl`. -/
def finishWait (a : Isolate) (loc : ℕ) (result : WaitResult) : FutexState :=
  ((s.setNode (.sync a) { s.node (.sync a) with waiting := false }).removeNode (.sync a)).setPc a
    (.finishing loc result)

/-- The part of `WaitAsync` that makes a node. -/
def startAsync (a : Isolate) (loc : ℕ) (useTimeout : Bool) : FutexState :=
  let n := NodeId.async s.nextAsync
  let s := { s with nextAsync := s.nextAsync + 1 }
  (s.setNode n
    { waitLocation := loc
      waiting := true
      interrupted := false
      asyncState := some
        { isolateForAsyncWaiters := a
          backingStoreExpired := false
          hasTimeoutTime := useTimeout
          hasTimeoutTask := useTimeout
          waitingForMainThreadCleanup := false } }).addNode n

/-- The node is one of the asynchronous waits of an isolate. -/
def belongsTo (n : NodeId) (a : Isolate) : Bool :=
  (s.node n).asyncState.any fun st ↦ st.isolateForAsyncWaiters = a

/-- The node with its time-out task cancelled, or run. -/
def cancelTimeoutTask (n : NodeId) : FutexNode :=
  { s.node n with
    asyncState := (s.node n).asyncState.map fun st ↦ { st with hasTimeoutTask := false } }

end FutexState

/-- A step of the threads that use the wait lists. -/
inductive FutexStep
  /-- An isolate gets another tid. -/
  | setTid (a : Isolate) (tid : Option Tid)
  /-- Any other call into the detector, by any thread. -/
  | call (o : Op)
  /-- The backing store of an asynchronous wait goes away. -/
  | expire (n : NodeId)
  /-- `Wake` is called, and calls its hook. -/
  | notify (a : Isolate) (loc count : ℕ)
  /-- The critical section of `Wake`. -/
  | wake (a : Isolate)
  /-- `WaitSync` is called; `equal` tells whether the value in memory is the expected one. -/
  | waitSync (a : Isolate) (loc : ℕ) (useTimeout equal : Bool)
  /-- A round of the loop of `WaitSyncImpl`; `timeOver` tells whether its time has passed. -/
  | iterate (a : Isolate) (timeOver : Bool)
  /-- The condition variable returns. -/
  | resume (a : Isolate)
  /-- `NotifyWake`: an interrupt for an isolate. -/
  | notifyWake (a : Isolate)
  /-- `HandleInterrupts` returns. -/
  | interruptsHandled (a : Isolate) (exception : Bool)
  /-- The hook at the end of `WaitSync`, which then returns. -/
  | waitComplete (a : Isolate)
  /-- `WaitAsync` is called. -/
  | waitAsync (a : Isolate) (loc : ℕ) (relTimeout : Option ℕ) (equal : Bool)
  /-- `ResolveAsyncWaiterPromises` takes the nodes of its isolate. -/
  | takePromises (a : Isolate)
  /-- `ResolveAsyncWaiterPromises` calls the hook for the next node and resolves its promise. -/
  | resolveNext (a : Isolate)
  /-- `HandleAsyncWaiterTimeout`. -/
  | asyncTimeout (a : Isolate) (n : NodeId)
  /-- `IsolateDeinit`. -/
  | isolateDeinit (a : Isolate)

namespace FutexState

/-- The state after a step, if the step is possible. -/
def exec (s : FutexState) : FutexStep → Option FutexState
  | .setTid a tid =>
    if s.pc a = .idle then some { s with currentTid := Function.update s.currentTid a tid }
    else none
  | .call o => (o.exec s.detector).map fun d ↦ { s with detector := d }
  | .expire n =>
    some (s.setNode n { s.node n with
      asyncState := (s.node n).asyncState.map fun st ↦ { st with backingStoreExpired := true } })
  | .notify a loc count =>
    if s.pc a = .idle then
      some ({ s with detector := s.onAtomicsNotify loc (s.currentTid a) }.setPc a
        (.waking loc count))
    else none
  | .wake a =>
    match s.pc a with
    | .waking loc count =>
      if s.mutexHolder = none then
        some ((s.wakeLoop (s.locationLists loc) count).2.setPc a .idle)
      else none
    | _ => none
  | .waitSync a loc useTimeout equal =>
    -- a location lies inside of a buffer, so it is not null
    if s.pc a = .idle ∧ s.mutexHolder = none ∧ loc ≠ 0 then
      if equal then
        some ({ s.startWait a loc with mutexHolder := some a }.setPc a
          (.waiting loc useTimeout .loop))
      else some ({ s with mutexHolder := some a }.setPc a (.finishing loc .notEqual))
    else none
  | .iterate a timeOver =>
    match s.pc a with
    | .waiting loc useTimeout .loop =>
      if (s.node (.sync a)).interrupted then
        some ({ s.setNode (.sync a) { s.node (.sync a) with interrupted := false } with
          mutexHolder := none }.setPc a (.waiting loc useTimeout .interrupts))
      else if (s.node (.sync a)).waiting = false then some (s.finishWait a loc .ok)
      else if useTimeout && timeOver then some (s.finishWait a loc .timedOut)
      else some ({ s with mutexHolder := none }.setPc a (.waiting loc useTimeout .blocked))
    | _ => none
  | .resume a =>
    match s.pc a with
    | .waiting loc useTimeout .blocked =>
      if s.mutexHolder = none then
        some ({ s with mutexHolder := some a }.setPc a (.waiting loc useTimeout .loop))
      else none
    | _ => none
  | .notifyWake a =>
    if s.mutexHolder = none then
      some (s.setNode (.sync a) { s.node (.sync a) with interrupted := true })
    else none
  | .interruptsHandled a exception =>
    match s.pc a with
    | .waiting loc useTimeout .interrupts =>
      if s.mutexHolder = none then
        if exception then some ({ s with mutexHolder := some a }.finishWait a loc .exception)
        else some ({ s with mutexHolder := some a }.setPc a (.waiting loc useTimeout .loop))
      else none
    | _ => none
  | .waitComplete a =>
    match s.pc a with
    | .finishing loc _ =>
      some ({ s with
        detector := s.onAtomicsWaitComplete loc (s.currentTid a)
        mutexHolder := none }.setPc a .idle)
    | _ => none
  | .waitAsync a loc relTimeout equal =>
    if s.pc a = .idle ∧ s.mutexHolder = none ∧ loc ≠ 0 then
      if equal = false ∨ relTimeout = some 0 then some s
      else some (s.startAsync a loc relTimeout.isSome)
    else none
  | .takePromises a =>
    if s.pc a = .idle ∧ s.mutexHolder = none then
      some ({ s with promisesToResolve := Function.update s.promisesToResolve a [] }.setPc a
        (.resolving (s.promisesToResolve a)))
    else none
  | .resolveNext a =>
    match s.pc a with
    | .resolving [] => some (s.setPc a .idle)
    | .resolving (n :: nodes) =>
      let loc := (s.node n).waitLocation
      let d := if loc = 0 then s.detector else s.onAtomicsWaitComplete loc (s.currentTid a)
      some (({ s with detector := d }.setNode n (s.cancelTimeoutTask n)).setPc a
        (.resolving nodes))
    | _ => none
  | .asyncTimeout a n =>
    if s.pc a = .idle ∧ s.mutexHolder = none ∧
        ((s.node n).asyncState.any fun st ↦ st.isolateForAsyncWaiters = a ∧ st.hasTimeoutTask) then
      let s' := s.setNode n (s.cancelTimeoutTask n)
      some (if (s.node n).waiting = false then s' else s'.removeNode n)
    else none
  | .isolateDeinit a =>
    if s.pc a = .idle ∧ s.mutexHolder = none then
      some { s with
        node := fun n ↦ if s.belongsTo n a then s.cancelTimeoutTask n else s.node n
        locationLists := fun loc ↦ (s.locationLists loc).filter fun n ↦ !s.belongsTo n a
        promisesToResolve := Function.update s.promisesToResolve a [] }
    else none

/-- The wait that a step completes: the isolate, the node and the result. -/
def completes (s : FutexState) : FutexStep → Option (Isolate × NodeId × WaitResult)
  | .waitComplete a =>
    match s.pc a with
    | .finishing _ result => some (a, .sync a, result)
    | _ => none
  | .resolveNext a =>
    match s.pc a with
    | .resolving (n :: _) =>
      ((s.node n).asyncState.bind AsyncState.promiseResult).map fun result ↦ (a, n, result)
    | _ => none
  | .asyncTimeout a n =>
    if (s.node n).waiting = false then none
    else ((s.node n).asyncState.bind AsyncState.promiseResult).map fun result ↦ (a, n, result)
  | _ => none

/-! ### What a step can do -/

/-- The paths through the code of a step, with the conditions under which they are taken and the
states that they lead to. -/
inductive Step (s : FutexState) : FutexStep → FutexState → Prop
  | setTid {a tid} (ha : s.pc a = .idle) :
      Step s (.setTid a tid) { s with currentTid := Function.update s.currentTid a tid }
  | call {o d} (hd : o.exec s.detector = some d) : Step s (.call o) { s with detector := d }
  | expire {n} : Step s (.expire n) (s.setNode n { s.node n with
      asyncState := (s.node n).asyncState.map fun st ↦ { st with backingStoreExpired := true } })
  | notify {a loc count} (ha : s.pc a = .idle) :
      Step s (.notify a loc count)
        ({ s with detector := s.onAtomicsNotify loc (s.currentTid a) }.setPc a
          (.waking loc count))
  | wake {a loc count} (ha : s.pc a = .waking loc count) (hmutex : s.mutexHolder = none) :
      Step s (.wake a) ((s.wakeLoop (s.locationLists loc) count).2.setPc a .idle)
  | startWait {a loc useTimeout} (ha : s.pc a = .idle) (hmutex : s.mutexHolder = none)
      (hloc : loc ≠ 0) :
      Step s (.waitSync a loc useTimeout true)
        ({ s.startWait a loc with mutexHolder := some a }.setPc a (.waiting loc useTimeout .loop))
  | notEqual {a loc useTimeout} (ha : s.pc a = .idle) (hmutex : s.mutexHolder = none)
      (hloc : loc ≠ 0) :
      Step s (.waitSync a loc useTimeout false)
        ({ s with mutexHolder := some a }.setPc a (.finishing loc .notEqual))
  | interrupted {a loc useTimeout timeOver} (ha : s.pc a = .waiting loc useTimeout .loop)
      (hnode : (s.node (.sync a)).interrupted = true) :
      Step s (.iterate a timeOver)
        ({ s.setNode (.sync a) { s.node (.sync a) with interrupted := false } with
          mutexHolder := none }.setPc a (.waiting loc useTimeout .interrupts))
  | woken {a loc useTimeout timeOver} (ha : s.pc a = .waiting loc useTimeout .loop)
      (hint : (s.node (.sync a)).interrupted = false)
      (hnode : (s.node (.sync a)).waiting = false) :
      Step s (.iterate a timeOver) (s.finishWait a loc .ok)
  | timedOut {a loc} (ha : s.pc a = .waiting loc true .loop)
      (hint : (s.node (.sync a)).interrupted = false)
      (hnode : (s.node (.sync a)).waiting = true) :
      Step s (.iterate a true) (s.finishWait a loc .timedOut)
  | block {a loc useTimeout timeOver} (ha : s.pc a = .waiting loc useTimeout .loop)
      (hint : (s.node (.sync a)).interrupted = false)
      (hnode : (s.node (.sync a)).waiting = true) (htime : ¬(useTimeout && timeOver)) :
      Step s (.iterate a timeOver)
        ({ s with mutexHolder := none }.setPc a (.waiting loc useTimeout .blocked))
  | resume {a loc useTimeout} (ha : s.pc a = .waiting loc useTimeout .blocked)
      (hmutex : s.mutexHolder = none) :
      Step s (.resume a)
        ({ s with mutexHolder := some a }.setPc a (.waiting loc useTimeout .loop))
  | notifyWake {a} (hmutex : s.mutexHolder = none) :
      Step s (.notifyWake a) (s.setNode (.sync a) { s.node (.sync a) with interrupted := true })
  | threw {a loc useTimeout} (ha : s.pc a = .waiting loc useTimeout .interrupts)
      (hmutex : s.mutexHolder = none) :
      Step s (.interruptsHandled a true)
        ({ s with mutexHolder := some a }.finishWait a loc .exception)
  | handled {a loc useTimeout} (ha : s.pc a = .waiting loc useTimeout .interrupts)
      (hmutex : s.mutexHolder = none) :
      Step s (.interruptsHandled a false)
        ({ s with mutexHolder := some a }.setPc a (.waiting loc useTimeout .loop))
  | waitComplete {a loc result} (ha : s.pc a = .finishing loc result) :
      Step s (.waitComplete a)
        ({ s with
          detector := s.onAtomicsWaitComplete loc (s.currentTid a)
          mutexHolder := none }.setPc a .idle)
  | immediate {a loc relTimeout equal} (ha : s.pc a = .idle) (hmutex : s.mutexHolder = none)
      (hloc : loc ≠ 0) (hresult : equal = false ∨ relTimeout = some 0) :
      Step s (.waitAsync a loc relTimeout equal) s
  | startAsync {a loc relTimeout} (ha : s.pc a = .idle) (hmutex : s.mutexHolder = none)
      (hloc : loc ≠ 0) (htime : relTimeout ≠ some 0) :
      Step s (.waitAsync a loc relTimeout true) (s.startAsync a loc relTimeout.isSome)
  | takePromises {a} (ha : s.pc a = .idle) (hmutex : s.mutexHolder = none) :
      Step s (.takePromises a)
        ({ s with promisesToResolve := Function.update s.promisesToResolve a [] }.setPc a
          (.resolving (s.promisesToResolve a)))
  | resolved {a} (ha : s.pc a = .resolving []) : Step s (.resolveNext a) (s.setPc a .idle)
  | resolveNext {a n nodes} (ha : s.pc a = .resolving (n :: nodes)) :
      Step s (.resolveNext a)
        (({ s with detector :=
            if (s.node n).waitLocation = 0 then s.detector
            else s.onAtomicsWaitComplete (s.node n).waitLocation (s.currentTid a) }.setNode n
          (s.cancelTimeoutTask n)).setPc a (.resolving nodes))
  | wokenInTime {a n st} (ha : s.pc a = .idle) (hmutex : s.mutexHolder = none)
      (hst : (s.node n).asyncState = some st) (howner : st.isolateForAsyncWaiters = a)
      (htask : st.hasTimeoutTask = true) (hnode : (s.node n).waiting = false) :
      Step s (.asyncTimeout a n) (s.setNode n (s.cancelTimeoutTask n))
  | asyncTimeout {a n st} (ha : s.pc a = .idle) (hmutex : s.mutexHolder = none)
      (hst : (s.node n).asyncState = some st) (howner : st.isolateForAsyncWaiters = a)
      (htask : st.hasTimeoutTask = true) (hnode : (s.node n).waiting = true) :
      Step s (.asyncTimeout a n) ((s.setNode n (s.cancelTimeoutTask n)).removeNode n)
  | isolateDeinit {a} (ha : s.pc a = .idle) (hmutex : s.mutexHolder = none) :
      Step s (.isolateDeinit a) { s with
        node := fun n ↦ if s.belongsTo n a then s.cancelTimeoutTask n else s.node n
        locationLists := fun loc ↦ (s.locationLists loc).filter fun n ↦ !s.belongsTo n a
        promisesToResolve := Function.update s.promisesToResolve a [] }

/-- A step takes one of the paths. -/
theorem step_of_exec {s s' : FutexState} {o : FutexStep} (hs : s.exec o = some s') :
    s.Step o s' := by
  cases o with
  | setTid a tid =>
    simp only [exec] at hs
    split_ifs at hs with ha
    exact Option.some.inj hs ▸ .setTid ha
  | call o =>
    obtain ⟨d, hd, rfl⟩ := Option.map_eq_some_iff.mp hs
    exact .call hd
  | expire n => exact Option.some.inj hs ▸ .expire
  | notify a loc count =>
    simp only [exec] at hs
    split_ifs at hs with ha
    exact Option.some.inj hs ▸ .notify ha
  | wake a =>
    simp only [exec] at hs
    split at hs
    · next loc count ha =>
      split_ifs at hs with hmutex
      exact Option.some.inj hs ▸ .wake ha hmutex
    · cases hs
  | waitSync a loc useTimeout equal =>
    simp only [exec] at hs
    split_ifs at hs with hguard hequal
    · exact hequal ▸ Option.some.inj hs ▸ .startWait hguard.1 hguard.2.1 hguard.2.2
    · obtain rfl := (Bool.not_eq_true _).mp hequal
      exact Option.some.inj hs ▸ .notEqual hguard.1 hguard.2.1 hguard.2.2
  | iterate a timeOver =>
    simp only [exec] at hs
    split at hs
    · next loc useTimeout ha =>
      split_ifs at hs with hint hwait htime
      · exact Option.some.inj hs ▸ .interrupted ha hint
      · exact Option.some.inj hs ▸ .woken ha ((Bool.not_eq_true _).mp hint) hwait
      · obtain ⟨rfl, rfl⟩ := (Bool.and_eq_true _ _).mp htime
        exact Option.some.inj hs ▸
          .timedOut ha ((Bool.not_eq_true _).mp hint) ((Bool.not_eq_false _).mp hwait)
      · exact Option.some.inj hs ▸
          .block ha ((Bool.not_eq_true _).mp hint) ((Bool.not_eq_false _).mp hwait) htime
    · cases hs
  | resume a =>
    simp only [exec] at hs
    split at hs
    · next loc useTimeout ha =>
      split_ifs at hs with hmutex
      exact Option.some.inj hs ▸ .resume ha hmutex
    · cases hs
  | notifyWake a =>
    simp only [exec] at hs
    split_ifs at hs with hmutex
    exact Option.some.inj hs ▸ .notifyWake hmutex
  | interruptsHandled a exception =>
    simp only [exec] at hs
    split at hs
    · next loc useTimeout ha =>
      split_ifs at hs with hmutex hthrew
      · exact hthrew ▸ Option.some.inj hs ▸ .threw ha hmutex
      · obtain rfl := (Bool.not_eq_true _).mp hthrew
        exact Option.some.inj hs ▸ .handled ha hmutex
    · cases hs
  | waitComplete a =>
    simp only [exec] at hs
    split at hs
    · next loc result ha => exact Option.some.inj hs ▸ .waitComplete ha
    · cases hs
  | waitAsync a loc relTimeout equal =>
    simp only [exec] at hs
    split_ifs at hs with hguard hresult
    · exact Option.some.inj hs ▸ .immediate hguard.1 hguard.2.1 hguard.2.2 hresult
    · obtain ⟨hequal, htime⟩ := not_or.mp hresult
      obtain rfl := (Bool.not_eq_false _).mp hequal
      exact Option.some.inj hs ▸ .startAsync hguard.1 hguard.2.1 hguard.2.2 htime
  | takePromises a =>
    simp only [exec] at hs
    split_ifs at hs with hguard
    exact Option.some.inj hs ▸ .takePromises hguard.1 hguard.2
  | resolveNext a =>
    simp only [exec] at hs
    split at hs
    · next ha => exact Option.some.inj hs ▸ .resolved ha
    · next n nodes ha => exact Option.some.inj hs ▸ .resolveNext ha
    · cases hs
  | asyncTimeout a n =>
    simp only [exec] at hs
    split_ifs at hs with hguard hwait
    all_goals
      obtain ⟨ha, hmutex, hany⟩ := hguard
      obtain ⟨st, hst, htask⟩ := (Option.any_eq_true _ _).mp hany
      obtain ⟨howner, htask⟩ := of_decide_eq_true htask
    · exact Option.some.inj hs ▸ .wokenInTime ha hmutex hst howner htask hwait
    · exact Option.some.inj hs ▸
        .asyncTimeout ha hmutex hst howner htask ((Bool.not_eq_false _).mp hwait)
  | isolateDeinit a =>
    simp only [exec] at hs
    split_ifs at hs with hguard
    exact Option.some.inj hs ▸ .isolateDeinit hguard.1 hguard.2

end FutexState

end WebTSan
