import WebTSan.Messages

/-!
# Messages that are dropped

A `postMessage` leaves an edge in the detector, and the hook of the receiver takes it back. Of the
three ways from a sender to a receiver, each has checks that drop a message. `DispatchMessageEvent`
of a port calls the hook before its check, and so does `ReceiveMessage` of a worker, which has none.
`PostMessageToWorkerObject` returns before it calls the hook, when the worker object is gone or the
worker has been asked to terminate. The same holds of the checks on the way to a worker, and of a
port of a shared worker in the back/forward cache.

Messages are dropped without any check as well. When a worker shuts down, the tasks of its scheduler
are not run any more; when a port closes, its pipe goes away; when a messaging proxy goes away, so
do its early tasks. Messages that are sent to such a place later are dropped at once.

So the edges are those of the messages in flight exactly as long as no message has been dropped
before the hook. The edge of a message that was dropped so stays until the detector is reset.

The serialization of the messages of ports is not part of the repository. `serializesEdgeId` tells
whether it carries `tsan_edge_id`, or leaves it at its default, `0`.

## Main definitions

* `WebTSan.Message`, `WebTSan.MessagingState`, `WebTSan.MessagingOp`, `WebTSan.MessagingRun`.
* `WebTSan.MessagingState.EdgesInFlight`: the edges are those of the messages in flight.
* `WebTSan.MessagingState.PassesHook`: a step drops no message before its hook.

## Main results

* `WebTSan.MessagingOp.exec_cases`: what a step does to the edges and the messages in flight.
* `WebTSan.MessagingOp.edgesInFlight_iff`: a step keeps the edges those of the messages in flight if
  and only if it drops no message before the hook.
* `WebTSan.MessagingRun.lost_stays`: the edge of a message that was dropped so stays.
* `WebTSan.MessagingRun.edgesInFlight_iff`.
-/

namespace WebTSan

namespace Detector

variable {s : Detector}

theorem hasEdge_happensBefore (he : s.enabled = true) (t : Tid) (id : ℕ) :
    ((s.happensBefore t).2.hbEdges id).isSome = true ↔
      id = s.nextEdgeId ∨ (s.hbEdges id).isSome = true := by
  rw [hbEdges_happensBefore he]
  split_ifs with h <;> simp [h]

theorem hasEdge_happensAfter (he : s.enabled = true) (t : Tid) {id id' : ℕ}
    (hpos : 0 < id) : ((s.happensAfter t id).hbEdges id').isSome = true ↔
      id' ≠ id ∧ (s.hbEdges id').isSome = true := by
  rw [hbEdges_happensAfter he]
  split_ifs with h
  · simp [h.1]
  · rw [iff_and_self]
    rintro - rfl
    exact h ⟨rfl, hpos.ne'⟩

end Detector

/-- Where a message waits: in a task of the parent of a worker, in `queued_early_tasks_` of a
messaging proxy, in a task of a worker, in the pipe to a port, or in a task that a port in the
back/forward cache has posted. -/
inductive MessageQueue
  | parentTask (worker : ℕ)
  | earlyTask (worker : ℕ)
  | workerTask (worker : ℕ)
  | pipe (port : ℕ)
  | dispatchTask (port : ℕ)
deriving DecidableEq

/-- `BlinkTransferableMessage`, with the place where it waits. -/
structure Message where
  queue : MessageQueue
  tsanEdgeId : ℕ
deriving DecidableEq

/-- `DedicatedWorkerMessagingProxy`. -/
structure MessagingProxy where
  /-- The worker object has not been collected. -/
  workerObject : Bool := true
  askedToTerminate : Bool := false
  wasScriptEvaluated : Bool := false
  /-- `GetWorkerThread()` is not null. -/
  workerThread : Bool := true
  /-- The scheduler of the worker has not been disposed. -/
  workerScheduler : Bool := true
  /-- The parent runs tasks for the proxy: its scheduler has not been disposed, and the proxy has
  not gone away. -/
  parentScheduler : Bool := true

/-- What a `MessagePort` asks about itself and its execution context. -/
structure MessagePort where
  isSharedWorkerPort : Bool := false
  /-- The context is in the back/forward cache, and `kBFCacheWithSharedWorker` is enabled. -/
  isInBackForwardCache : Bool := false
  /-- The context is a worker global scope that is closing. -/
  isClosing : Bool := false
  /-- The pipe to the port has gone away. -/
  closed : Bool := false

/-- The detector, the receivers and the messages that have been sent and neither delivered nor
dropped. -/
structure MessagingState where
  detector : Detector
  proxies : ℕ → MessagingProxy
  ports : ℕ → MessagePort
  inFlight : List Message

namespace MessagingState

def initial : MessagingState :=
  { detector := Detector.initial
    proxies := fun _ ↦ {}
    ports := fun _ ↦ {}
    inFlight := [] }

variable (s : MessagingState)

/-! ### The hooks -/

/-- `OnPostMessageSend`. -/
def onPostMessageSend (senderTid : Tid) : ℕ × MessagingState :=
  if s.detector.enabled then
    let (id, detector) := s.detector.happensBefore senderTid
    (id, { s with detector := detector })
  else (0, s)

/-- `OnPostMessageReceive`. -/
def onPostMessageReceive (receiverTid : Tid) (edgeId : ℕ) : MessagingState :=
  if s.detector.enabled then { s with detector := s.detector.happensAfter receiverTid edgeId }
  else s

/-! ### The queues -/

/-- A message for the queue is not dropped at once. -/
def isOpen : MessageQueue → Bool
  | .parentTask worker => (s.proxies worker).parentScheduler
  | .workerTask worker => (s.proxies worker).workerScheduler
  | .pipe port => !(s.ports port).closed
  | .earlyTask _ | .dispatchTask _ => true

/-- Put a message into a queue. -/
def post (queue : MessageQueue) (edgeId : ℕ) : MessagingState :=
  if s.isOpen queue then { s with inFlight := ⟨queue, edgeId⟩ :: s.inFlight } else s

/-- Take a message out of its queue. -/
def take (m : Message) : MessagingState := { s with inFlight := s.inFlight.erase m }

/-- Drop all messages in some queues. -/
def dropAll (queues : List MessageQueue) : MessagingState :=
  { s with inFlight := s.inFlight.filter fun m ↦ m.queue ∉ queues }

/-- Move all messages in a queue to another one. -/
def moveAll (queue queue' : MessageQueue) : MessagingState :=
  if s.isOpen queue' then
    { s with
      inFlight := s.inFlight.map fun m ↦ if m.queue = queue then ⟨queue', m.tsanEdgeId⟩ else m }
  else s.dropAll [queue]

def setProxy (worker : ℕ) (proxy : MessagingProxy) : MessagingState :=
  { s with proxies := Function.update s.proxies worker proxy }

/-! ### From a worker to its parent -/

/-- `DedicatedWorkerGlobalScope::postMessage`. -/
def workerPostMessage (tid : Tid) (worker : ℕ) : MessagingState :=
  let (id, s) := s.onPostMessageSend tid
  s.post (.parentTask worker) id

/-- `PostMessageToWorkerObject`, up to the event. -/
def postMessageToWorkerObject (tid : Tid) (worker edgeId : ℕ) : MessagingState :=
  if !(s.proxies worker).workerObject ∨ (s.proxies worker).askedToTerminate then s
  else s.onPostMessageReceive tid edgeId

/-! ### From a parent to its worker -/

/-- `PostMessageToWorkerGlobalScope`. -/
def postMessageToWorkerGlobalScope (worker edgeId : ℕ) : MessagingState :=
  if (s.proxies worker).askedToTerminate then s
  else if !(s.proxies worker).wasScriptEvaluated then s.post (.earlyTask worker) edgeId
  else s.post (.workerTask worker) edgeId

/-- `DedicatedWorker::postMessage`. -/
def parentPostMessage (tid : Tid) (worker : ℕ) : MessagingState :=
  let (id, s) := s.onPostMessageSend tid
  s.postMessageToWorkerGlobalScope worker id

/-- `DidEvaluateScript`. -/
def didEvaluateScript (worker : ℕ) : MessagingState :=
  let s := s.setProxy worker { s.proxies worker with wasScriptEvaluated := true }
  if !(s.proxies worker).workerThread then s.dropAll [.earlyTask worker]
  else s.moveAll (.earlyTask worker) (.workerTask worker)

/-- `WorkerGlobalScope::ReceiveMessage`, up to the event. -/
def receiveMessage (tid : Tid) (edgeId : ℕ) : MessagingState := s.onPostMessageReceive tid edgeId

/-! ### From port to port -/

/-- `MessagePort::postMessage`, to the port at the other end. -/
def portPostMessage (tid : Tid) (port : ℕ) : MessagingState :=
  let (id, s) := s.onPostMessageSend tid
  s.post (.pipe port) id

/-- `DispatchMessageEvent`, and whether it gets to the event. -/
def dispatchMessageEvent (tid : Tid) (port edgeId : ℕ) : Bool × MessagingState :=
  let s := s.onPostMessageReceive tid edgeId
  if (s.ports port).isClosing then (false, s) else (true, s)

/-- `MessagePort::Accept`: drop a message that cannot be deserialized or that arrives at a shared
worker in the cache, post a task for it, or dispatch its event with the edge id that has arrived. -/
def accept (tid : Tid) (port edgeId arrivedId : ℕ) (deserialized : Bool) : MessagingState :=
  let s := s.take ⟨.pipe port, edgeId⟩
  if !deserialized then s
  else if (s.ports port).isInBackForwardCache then
    if (s.ports port).isSharedWorkerPort then s
    else s.post (.dispatchTask port) edgeId
  else (s.dispatchMessageEvent tid port arrivedId).2

/-! ### Receivers that go away -/

/-- What `PrepareForShutdownOnWorkerThread` does to the tasks of a worker: it disposes of their
scheduler. -/
def prepareForShutdownOnWorkerThread (worker : ℕ) : MessagingState :=
  (s.setProxy worker { s.proxies worker with workerScheduler := false }).dropAll
    [.workerTask worker]

/-- The scheduler of the parent of a worker is disposed. -/
def disposeParentScheduler (worker : ℕ) : MessagingState :=
  (s.setProxy worker { s.proxies worker with parentScheduler := false }).dropAll
    [.parentTask worker]

/-- The messaging proxy of a worker goes away, with `queued_early_tasks_` and the tasks for it. -/
def destroyMessagingProxy (worker : ℕ) : MessagingState :=
  (s.setProxy worker { s.proxies worker with parentScheduler := false }).dropAll
    [.earlyTask worker, .parentTask worker]

/-- `MessagePort::close`, or `Dispose`. The port lets go of its pipe, and the tasks that it has
posted are invalidated. -/
def closePort (port : ℕ) : MessagingState :=
  { s with
    ports := Function.update s.ports port { s.ports port with closed := true } }.dropAll
      [.pipe port, .dispatchTask port]

end MessagingState

/-- A step: a call of the detector that has nothing to do with messages, a send, the arrival of a
message, or a change of a receiver. -/
inductive MessagingOp
  | call (o : Op) (hsend : o.sendsMessage = false) (hdeliver : ∀ u id, o ≠ .happensAfter u id)
  | workerPostMessage (tid : Tid) (worker : ℕ)
  | parentPostMessage (tid : Tid) (worker : ℕ)
  | portPostMessage (tid : Tid) (port : ℕ)
  | postMessageToWorkerObject (tid : Tid) (worker edgeId : ℕ)
  | receiveMessage (tid : Tid) (worker edgeId : ℕ)
  | accept (tid : Tid) (port edgeId : ℕ) (deserialized : Bool)
  | dispatchMessageEvent (tid : Tid) (port edgeId : ℕ)
  | didEvaluateScript (worker : ℕ)
  /-- `Disentangle` invalidates the tasks that the port has posted. -/
  | disentangle (port : ℕ)
  | collectWorkerObject (worker : ℕ)
  | askToTerminate (worker : ℕ)
  /-- Only after it has been asked to terminate. -/
  | workerThreadTerminated (worker : ℕ)
  | prepareForShutdownOnWorkerThread (worker : ℕ)
  | disposeParentScheduler (worker : ℕ)
  /-- Only after the worker object has been collected. -/
  | destroyMessagingProxy (worker : ℕ)
  | closePort (port : ℕ)
  /-- A closed port stays closed. -/
  | changePort (port : ℕ) (p : MessagePort)

namespace MessagingOp

/-- The step sends a message. -/
def sends : MessagingOp → Bool
  | .workerPostMessage .. | .parentPostMessage .. | .portPostMessage .. => true
  | _ => false

/-- The state after a step, if it returns. A message arrives only where it waits. -/
def exec (serializesEdgeId : Bool) (s : MessagingState) : MessagingOp → Option MessagingState
  | .call o _ _ => (o.exec s.detector).map fun detector ↦ { s with detector := detector }
  | .workerPostMessage tid worker => some (s.workerPostMessage tid worker)
  | .parentPostMessage tid worker =>
    -- a member function of the worker object
    if (s.proxies worker).workerObject then some (s.parentPostMessage tid worker) else none
  | .portPostMessage tid port => some (s.portPostMessage tid port)
  | .postMessageToWorkerObject tid worker edgeId =>
    if ⟨.parentTask worker, edgeId⟩ ∈ s.inFlight then
      some ((s.take ⟨.parentTask worker, edgeId⟩).postMessageToWorkerObject tid worker edgeId)
    else none
  | .receiveMessage tid worker edgeId =>
    if ⟨.workerTask worker, edgeId⟩ ∈ s.inFlight then
      some ((s.take ⟨.workerTask worker, edgeId⟩).receiveMessage tid edgeId)
    else none
  | .accept tid port edgeId deserialized =>
    if ⟨.pipe port, edgeId⟩ ∈ s.inFlight then
      some (s.accept tid port edgeId (if serializesEdgeId then edgeId else 0) deserialized)
    else none
  | .dispatchMessageEvent tid port edgeId =>
    if ⟨.dispatchTask port, edgeId⟩ ∈ s.inFlight then
      some ((s.take ⟨.dispatchTask port, edgeId⟩).dispatchMessageEvent tid port
        (if serializesEdgeId then edgeId else 0)).2
    else none
  | .didEvaluateScript worker => some (s.didEvaluateScript worker)
  | .disentangle port => some (s.dropAll [.dispatchTask port])
  | .collectWorkerObject worker =>
    some (s.setProxy worker { s.proxies worker with workerObject := false })
  | .askToTerminate worker =>
    some (s.setProxy worker { s.proxies worker with askedToTerminate := true })
  | .workerThreadTerminated worker =>
    if (s.proxies worker).askedToTerminate then
      some (s.setProxy worker { s.proxies worker with workerThread := false })
    else none
  | .prepareForShutdownOnWorkerThread worker => some (s.prepareForShutdownOnWorkerThread worker)
  | .disposeParentScheduler worker => some (s.disposeParentScheduler worker)
  | .destroyMessagingProxy worker =>
    if (s.proxies worker).workerObject then none else some (s.destroyMessagingProxy worker)
  | .closePort port => some (s.closePort port)
  | .changePort port p =>
    some { s with
      ports := Function.update s.ports port { p with closed := (s.ports port).closed } }

end MessagingOp

/-- A sequence of steps from the enabled detector, without workers that have been terminated, and
without messages. -/
abbrev MessagingRun (serializesEdgeId : Bool) :=
  Execution (MessagingOp.exec serializesEdgeId) MessagingState.initial

namespace MessagingState

variable (s : MessagingState)

/-- The edge ids of the messages in flight. -/
def ids : List ℕ := s.inFlight.map Message.tsanEdgeId

/-- The edges of the detector are those of the messages in flight. -/
def EdgesInFlight : Prop :=
  ∀ id, (s.detector.hbEdges id).isSome = true ↔ ∃ m ∈ s.inFlight, m.tsanEdgeId = id

/-- No message is waiting in the queues. -/
def NoneIn (queues : List MessageQueue) : Prop := ∀ m ∈ s.inFlight, m.queue ∉ queues

/-- The step drops no message before it calls the hook, and the hook gets the edge id with which
the message was sent. -/
def PassesHook (serializesEdgeId : Bool) : MessagingOp → Prop
  | .workerPostMessage _ worker => s.isOpen (.parentTask worker) = true
  | .parentPostMessage _ worker =>
    (s.proxies worker).askedToTerminate = false ∧
      ((s.proxies worker).wasScriptEvaluated = true → s.isOpen (.workerTask worker) = true)
  | .portPostMessage _ port => s.isOpen (.pipe port) = true
  | .postMessageToWorkerObject _ worker _ =>
    (s.proxies worker).workerObject = true ∧ (s.proxies worker).askedToTerminate = false
  | .accept _ port _ deserialized =>
    deserialized = true ∧
      if (s.ports port).isInBackForwardCache then (s.ports port).isSharedWorkerPort = false
      else serializesEdgeId = true
  | .dispatchMessageEvent .. => serializesEdgeId = true
  | .didEvaluateScript worker =>
    ((s.proxies worker).workerThread = true ∧ s.isOpen (.workerTask worker) = true) ∨
      s.NoneIn [.earlyTask worker]
  | .disentangle port => s.NoneIn [.dispatchTask port]
  | .prepareForShutdownOnWorkerThread worker => s.NoneIn [.workerTask worker]
  | .disposeParentScheduler worker => s.NoneIn [.parentTask worker]
  | .destroyMessagingProxy worker => s.NoneIn [.earlyTask worker, .parentTask worker]
  | .closePort port => s.NoneIn [.pipe port, .dispatchTask port]
  | _ => True

/-- `n` messages have been sent. Those in flight have pairwise distinct ids, each with an edge. -/
structure Numbered (n : ℕ) : Prop where
  enabled : s.detector.enabled = true
  nextEdgeId_eq : s.detector.nextEdgeId = (n + 1) % 2 ^ 64
  nodup : s.ids.Nodup
  id_pos : ∀ id ∈ s.ids, 0 < id
  hasEdge : ∀ id ∈ s.ids, (s.detector.hbEdges id).isSome = true
  edge_le : ∀ id, (s.detector.hbEdges id).isSome = true → id ≤ n

/-- There is an edge for the id, but no message in flight carries it. -/
structure Lost (id : ℕ) : Prop where
  hasEdge : (s.detector.hbEdges id).isSome = true
  not_mem : id ∉ s.ids

variable {s}

theorem edgesInFlight_iff_ids :
    s.EdgesInFlight ↔ ∀ id, (s.detector.hbEdges id).isSome = true ↔ id ∈ s.ids := by
  simp [EdgesInFlight, ids]

namespace Numbered

variable {n : ℕ}

theorem nextEdgeId (hn : s.Numbered n) (hlt : n + 1 < 2 ^ 64) : s.detector.nextEdgeId = n + 1 := by
  rw [hn.nextEdgeId_eq, Nat.mod_eq_of_lt hlt]

theorem nextEdgeId_notMem (hn : s.Numbered n) (hlt : n + 1 < 2 ^ 64) :
    s.detector.nextEdgeId ∉ s.ids := by
  intro hmem
  have hle := hn.edge_le _ (hn.hasEdge _ hmem)
  rw [hn.nextEdgeId hlt] at hle
  exact Nat.not_succ_le_self n hle

end Numbered

theorem onPostMessageSend_eq (he : s.detector.enabled = true) (t : Tid) :
    s.onPostMessageSend t = (s.detector.nextEdgeId,
      { s with detector := (s.detector.happensBefore t).2 }) := by
  rw [onPostMessageSend, if_pos he, Detector.happensBefore, if_neg (by simp [he])]

theorem onPostMessageReceive_eq (he : s.detector.enabled = true) (t : Tid) (id : ℕ) :
    s.onPostMessageReceive t id = { s with detector := s.detector.happensAfter t id } :=
  if_pos he

@[simp] theorem dispatchMessageEvent_snd (t : Tid) (port id : ℕ) :
    (s.dispatchMessageEvent t port id).2 = s.onPostMessageReceive t id := by
  unfold dispatchMessageEvent
  dsimp only
  split_ifs <;> rfl

/-- There are not more edges than messages in flight. -/
theorem EdgesInFlight.encard_le (hs : s.EdgesInFlight) :
    {id | (s.detector.hbEdges id).isSome = true}.encard ≤ s.inFlight.length := by
  have hset : {id | (s.detector.hbEdges id).isSome = true} = (s.ids.toFinset : Set ℕ) := by
    ext id
    simpa using edgesInFlight_iff_ids.mp hs id
  rw [hset, Set.encard_coe_eq_coe_finsetCard]
  have hcard := s.ids.toFinset_card_le
  rw [ids, List.length_map] at hcard
  exact_mod_cast hcard

theorem Lost.not_edgesInFlight {id : ℕ} (h : s.Lost id) : ¬s.EdgesInFlight := fun hs ↦
  h.not_mem ((edgesInFlight_iff_ids.mp hs id).mp h.hasEdge)

theorem perm_ids_take {m : Message} (h : m ∈ s.inFlight) :
    s.ids.Perm (m.tsanEdgeId :: (s.take m).ids) :=
  (List.perm_cons_erase h).map Message.tsanEdgeId

theorem ids_moveAll {queue queue' : MessageQueue} (h : s.isOpen queue' = true) :
    (s.moveAll queue queue').ids = s.ids := by
  rw [moveAll, if_pos h]
  simp only [ids, List.map_map]
  refine List.map_congr_left fun m _ ↦ ?_
  simp only [Function.comp]
  split_ifs <;> rfl

theorem moveAll_detector (s : MessagingState) (queue queue' : MessageQueue) :
    (s.moveAll queue queue').detector = s.detector := by
  unfold moveAll
  split_ifs <;> rfl

/-- `DidEvaluateScript` moves the early messages if the worker runs tasks, and drops them
otherwise. -/
theorem didEvaluateScript_eq (s : MessagingState) (worker : ℕ) :
    ∃ t : MessagingState, t.detector = s.detector ∧ t.inFlight = s.inFlight ∧
      t.isOpen (.workerTask worker) = s.isOpen (.workerTask worker) ∧
      s.didEvaluateScript worker =
        if (s.proxies worker).workerThread = true ∧ s.isOpen (.workerTask worker) = true then
          t.moveAll (.earlyTask worker) (.workerTask worker)
        else t.dropAll [.earlyTask worker] := by
  set t := s.setProxy worker { s.proxies worker with wasScriptEvaluated := true } with ht
  have hthread : (t.proxies worker).workerThread = (s.proxies worker).workerThread := by
    simp [ht, setProxy]
  have hopen : t.isOpen (.workerTask worker) = s.isOpen (.workerTask worker) := by
    simp [ht, setProxy, isOpen]
  refine ⟨t, rfl, rfl, hopen, ?_⟩
  rw [didEvaluateScript, ← ht, hthread]
  cases (s.proxies worker).workerThread with
  | false => simp
  | true =>
    simp only [Bool.not_true, Bool.false_eq_true, if_false, true_and]
    split_ifs with h
    · rfl
    · rw [moveAll, if_neg (by rwa [hopen])]

theorem ids_dropAll_sublist (queues : List MessageQueue) :
    (s.dropAll queues).ids.Sublist s.ids :=
  List.filter_sublist.map Message.tsanEdgeId

theorem perm_ids_dropAll_iff (queues : List MessageQueue) :
    s.ids.Perm (s.dropAll queues).ids ↔ s.NoneIn queues := by
  have hlength : s.ids.Perm (s.dropAll queues).ids ↔
      (s.inFlight.filter fun m ↦ m.queue ∉ queues).length = s.inFlight.length := by
    constructor
    · intro h
      simpa [ids, dropAll] using h.length_eq.symm
    · intro h
      have heq := (s.ids_dropAll_sublist queues).eq_of_length (by simpa [ids, dropAll] using h)
      rw [heq]
  rw [hlength, List.length_filter_eq_length_iff]
  simp [NoneIn]

end MessagingState

/-- What a step does to the edges and the messages in flight. It sends a message, which may be
dropped at once; or it hands the id of a message back to the detector; or it leaves the edges alone
and only drops messages. -/
inductive EdgeStep (serializesEdgeId : Bool) (s : MessagingState) (o : MessagingOp)
    (s' : MessagingState) : Prop
  | sent (hsends : o.sends = true) (t : Tid)
      (hdetector : s'.detector = (s.detector.happensBefore t).2)
      (hids : s.PassesHook serializesEdgeId o ∧ s'.ids = s.detector.nextEdgeId :: s.ids ∨
        ¬s.PassesHook serializesEdgeId o ∧ s'.ids = s.ids)
  | received (hsends : o.sends = false) (hpass : s.PassesHook serializesEdgeId o) (t : Tid) (id : ℕ)
      (hdetector : s'.detector = s.detector.happensAfter t id) (hids : s.ids.Perm (id :: s'.ids))
  | quiet (hsends : o.sends = false) (henabled : s'.detector.enabled = s.detector.enabled)
      (hedges : s'.detector.hbEdges = s.detector.hbEdges)
      (hnext : s'.detector.nextEdgeId = s.detector.nextEdgeId) (hids : s'.ids.Subperm s.ids)
      (hpass : s.PassesHook serializesEdgeId o ↔ s.ids.Perm s'.ids)

namespace EdgeStep

variable {serializesEdgeId : Bool} {s s' : MessagingState} {o : MessagingOp} {m : Message} {t : Tid}

/-- The step leaves the detector alone. -/
theorem of_detector_eq (hsends : o.sends = false) (hdetector : s'.detector = s.detector)
    (hids : s'.ids.Subperm s.ids) (hpass : s.PassesHook serializesEdgeId o ↔ s.ids.Perm s'.ids) :
    EdgeStep serializesEdgeId s o s' := by
  refine .quiet hsends ?_ ?_ ?_ hids hpass
  all_goals rw [hdetector]

/-- The step changes neither the edges nor the messages. -/
theorem of_same (hsends : o.sends = false) (hpass : s.PassesHook serializesEdgeId o)
    (hdetector : s'.detector = s.detector) (hids : s'.ids = s.ids) :
    EdgeStep serializesEdgeId s o s' := by
  refine of_detector_eq hsends hdetector ?_ (iff_of_true hpass ?_)
  all_goals rw [hids]

/-- The step drops the messages in some queues. -/
theorem of_dropAll (hsends : o.sends = false) {queues : List MessageQueue}
    (hpass : s.PassesHook serializesEdgeId o ↔ s.NoneIn queues)
    (hdetector : s'.detector = s.detector) (hids : s'.ids = (s.dropAll queues).ids) :
    EdgeStep serializesEdgeId s o s' := by
  refine of_detector_eq hsends hdetector ?_ ?_
  · rw [hids]
    exact (s.ids_dropAll_sublist queues).subperm
  · rw [hids, hpass, s.perm_ids_dropAll_iff]

/-- The step sends a message to a queue. -/
theorem of_post (hsends : o.sends = true) (t : Tid) {queue : MessageQueue}
    (hpass : s.PassesHook serializesEdgeId o ↔ s.isOpen queue = true) :
    EdgeStep serializesEdgeId s o
      ({ s with detector := (s.detector.happensBefore t).2 }.post queue s.detector.nextEdgeId) := by
  rw [MessagingState.post]
  split_ifs with hopen
  · exact .sent hsends t rfl (.inl ⟨hpass.mpr hopen, rfl⟩)
  · exact .sent hsends t rfl (.inr ⟨fun h ↦ hopen (hpass.mp h), rfl⟩)

/-- The step drops one message. -/
theorem of_take (hsends : o.sends = false) (hm : m ∈ s.inFlight)
    (hpass : ¬s.PassesHook serializesEdgeId o) (hdetector : s'.detector = s.detector)
    (hids : s'.ids = (s.take m).ids) : EdgeStep serializesEdgeId s o s' := by
  have hperm := MessagingState.perm_ids_take hm
  refine of_detector_eq hsends hdetector ?_ (iff_of_false hpass fun h ↦ ?_)
  · rw [hids]
    exact (List.sublist_cons_self _ _).subperm.trans hperm.symm.subperm
  · rw [hids] at h
    simpa using (h.symm.trans hperm).length_eq

/-- The step hands the id of a message back. -/
theorem of_receive (he : s.detector.enabled = true) (hsends : o.sends = false)
    (hm : m ∈ s.inFlight) (hpass : s.PassesHook serializesEdgeId o) :
    EdgeStep serializesEdgeId s o ((s.take m).onPostMessageReceive t m.tsanEdgeId) := by
  rw [MessagingState.onPostMessageReceive_eq (s := s.take m) he]
  exact .received hsends hpass t _ rfl (MessagingState.perm_ids_take hm)

/-- The step hands back the id of a message that comes from a port. -/
theorem of_dispatch (he : s.detector.enabled = true) (hsends : o.sends = false)
    (hm : m ∈ s.inFlight) (hpass : s.PassesHook serializesEdgeId o ↔ serializesEdgeId = true) :
    EdgeStep serializesEdgeId s o
      ((s.take m).onPostMessageReceive t (if serializesEdgeId then m.tsanEdgeId else 0)) := by
  cases hser : serializesEdgeId with
  | true =>
    subst hser
    exact of_receive he hsends hm (hpass.mpr rfl)
  | false =>
    subst hser
    rw [MessagingState.onPostMessageReceive_eq (s := s.take m) he]
    refine of_take hsends hm (fun h ↦ Bool.false_ne_true (hpass.mp h)) ?_ rfl
    exact if_pos (.inr rfl)

end EdgeStep

namespace MessagingOp

variable {serializesEdgeId : Bool} {s s' : MessagingState} {o : MessagingOp}

theorem exec_cases (he : s.detector.enabled = true) (h : o.exec serializesEdgeId s = some s') :
    EdgeStep serializesEdgeId s o s' := by
  cases o with
  | call o hsend hdeliver =>
    obtain ⟨detector, hd, rfl⟩ := Option.map_eq_some_iff.mp h
    obtain ⟨hedges, hnext⟩ := Op.exec_edges he hd hsend hdeliver
    exact .quiet rfl (Op.exec_enabled hd) hedges hnext (List.Subperm.refl _)
      (iff_of_true trivial (List.Perm.refl _))
  | workerPostMessage t worker =>
    obtain rfl := Option.some.inj h
    rw [MessagingState.workerPostMessage, s.onPostMessageSend_eq he]
    exact .of_post rfl t Iff.rfl
  | portPostMessage t port =>
    obtain rfl := Option.some.inj h
    rw [MessagingState.portPostMessage, s.onPostMessageSend_eq he]
    exact .of_post rfl t Iff.rfl
  | parentPostMessage t worker =>
    obtain ⟨-, hs⟩ := Option.ite_none_right_eq_some.mp h
    obtain rfl := Option.some.inj hs
    rw [MessagingState.parentPostMessage, s.onPostMessageSend_eq he]
    dsimp only
    rw [MessagingState.postMessageToWorkerGlobalScope]
    dsimp only
    by_cases hasked : (s.proxies worker).askedToTerminate = true
    · rw [if_pos hasked]
      exact .sent rfl t rfl (.inr ⟨by simp [MessagingState.PassesHook, hasked], rfl⟩)
    · rw [if_neg hasked]
      by_cases heval : (s.proxies worker).wasScriptEvaluated = true
      · rw [if_neg (by simp [heval])]
        exact .of_post rfl t (by simp [MessagingState.PassesHook, hasked, heval])
      · rw [if_pos (by simp [heval])]
        refine .of_post rfl t (iff_of_true ?_ rfl)
        simp [MessagingState.PassesHook, hasked, heval]
  | postMessageToWorkerObject t worker id =>
    obtain ⟨hm, hs⟩ := Option.ite_none_right_eq_some.mp h
    obtain rfl := Option.some.inj hs
    unfold MessagingState.postMessageToWorkerObject
    split_ifs with hdrop
    · refine .of_take rfl hm (fun hpass ↦ ?_) rfl rfl
      simp [MessagingState.take, hpass.1, hpass.2] at hdrop
    · refine .of_receive he rfl hm ?_
      simpa [MessagingState.PassesHook, MessagingState.take] using hdrop
  | receiveMessage t worker id =>
    obtain ⟨hm, hs⟩ := Option.ite_none_right_eq_some.mp h
    obtain rfl := Option.some.inj hs
    exact .of_receive he rfl hm trivial
  | accept t port id deserialized =>
    obtain ⟨hm, hs⟩ := Option.ite_none_right_eq_some.mp h
    obtain rfl := Option.some.inj hs
    unfold MessagingState.accept
    dsimp only
    cases deserialized with
    | false => exact .of_take rfl hm (fun hpass ↦ Bool.false_ne_true hpass.1) rfl rfl
    | true =>
      rw [if_neg (by simp)]
      by_cases hcache : (s.ports port).isInBackForwardCache = true
      · rw [if_pos (by exact hcache)]
        by_cases hshared : (s.ports port).isSharedWorkerPort = true
        · rw [if_pos (by exact hshared)]
          exact .of_take rfl hm (by simp [MessagingState.PassesHook, hcache, hshared]) rfl rfl
        · rw [if_neg (by exact hshared)]
          have hperm := MessagingState.perm_ids_take hm
          exact .quiet rfl rfl rfl rfl hperm.symm.subperm
            (iff_of_true (by simp [MessagingState.PassesHook, hcache, hshared]) hperm)
      · rw [if_neg (by exact hcache), MessagingState.dispatchMessageEvent_snd]
        exact .of_dispatch he rfl hm (by simp [MessagingState.PassesHook, hcache])
  | dispatchMessageEvent t port id =>
    obtain ⟨hm, hs⟩ := Option.ite_none_right_eq_some.mp h
    obtain rfl := Option.some.inj hs
    rw [MessagingState.dispatchMessageEvent_snd]
    exact .of_dispatch he rfl hm Iff.rfl
  | didEvaluateScript worker =>
    obtain rfl := Option.some.inj h
    obtain ⟨t, hdetector, hids, hopen, hs⟩ := s.didEvaluateScript_eq worker
    rw [hs]
    split_ifs with hready
    · refine .of_same rfl (.inl hready) ((t.moveAll_detector _ _).trans hdetector) ?_
      rw [MessagingState.ids_moveAll (hopen.trans hready.2), MessagingState.ids, hids]
      rfl
    · refine .of_dropAll rfl (or_iff_right hready) hdetector ?_
      rw [MessagingState.ids, MessagingState.dropAll, hids]
      rfl
  | disentangle port | prepareForShutdownOnWorkerThread worker | disposeParentScheduler worker
  | closePort port =>
    obtain rfl := Option.some.inj h
    exact .of_dropAll rfl Iff.rfl rfl rfl
  | destroyMessagingProxy worker =>
    obtain ⟨-, hs⟩ := Option.ite_none_left_eq_some.mp h
    obtain rfl := Option.some.inj hs
    exact .of_dropAll rfl Iff.rfl rfl rfl
  | workerThreadTerminated worker =>
    obtain ⟨-, hs⟩ := Option.ite_none_right_eq_some.mp h
    obtain rfl := Option.some.inj hs
    exact .of_same rfl trivial rfl rfl
  | collectWorkerObject worker | askToTerminate worker | changePort port p =>
    obtain rfl := Option.some.inj h
    exact .of_same rfl trivial rfl rfl

end MessagingOp

namespace EdgeStep

variable {serializesEdgeId : Bool} {s s' : MessagingState} {o : MessagingOp} {n : ℕ}

/-- The messages after a step carry the ids of before, or the next one. -/
theorem mem_ids (h : EdgeStep serializesEdgeId s o s') {id : ℕ} (hid : id ∈ s'.ids) :
    id ∈ s.ids ∨ o.sends = true ∧ id = s.detector.nextEdgeId := by
  cases h with
  | sent hsends t hdetector hids =>
    rcases hids with ⟨-, hids⟩ | ⟨-, hids⟩ <;> rw [hids] at hid
    · rcases List.mem_cons.mp hid with rfl | hid
      · exact .inr ⟨hsends, rfl⟩
      · exact .inl hid
    · exact .inl hid
  | received hsends hpass t id' hdetector hids =>
    exact .inl (hids.mem_iff.mpr (List.mem_cons_of_mem _ hid))
  | quiet hsends henabled hedges hnext hids hpass => exact .inl (hids.subset hid)

/-- A step keeps the ids of the messages in flight pairwise distinct, and their edges. -/
theorem numbered (h : EdgeStep serializesEdgeId s o s') (hn : s.Numbered n)
    (hlt : n + o.sends.toNat < 2 ^ 64) : s'.Numbered (n + o.sends.toNat) := by
  have hpos : ∀ id ∈ s'.ids, 0 < id := by
    intro id hid
    rcases h.mem_ids hid with hid | ⟨hsends, rfl⟩
    · exact hn.id_pos id hid
    · rw [hsends] at hlt
      exact hn.nextEdgeId hlt ▸ Nat.succ_pos n
  cases h with
  | sent hsends t hdetector hids =>
    rw [hsends] at hlt ⊢
    have hnext := hn.nextEdgeId hlt
    have hnot := hn.nextEdgeId_notMem hlt
    refine ⟨?_, ?_, ?_, hpos, fun id hid ↦ ?_, fun id hid ↦ ?_⟩
    · rw [hdetector]
      exact (Op.exec_enabled (o := .happensBefore t) rfl).trans hn.enabled
    · have hbump : (s.detector.happensBefore t).2.nextEdgeId = bump s.detector.nextEdgeId :=
        Op.exec_nextEdgeId hn.enabled (o := .happensBefore t) rfl
      rw [hdetector, hbump, bump, hn.nextEdgeId_eq, Nat.mod_add_mod]
      rfl
    · rcases hids with ⟨-, hids⟩ | ⟨-, hids⟩ <;> rw [hids]
      · exact List.nodup_cons.mpr ⟨hnot, hn.nodup⟩
      · exact hn.nodup
    · rw [hdetector, Detector.hasEdge_happensBefore hn.enabled]
      rcases hids with ⟨-, hids⟩ | ⟨-, hids⟩ <;> rw [hids] at hid
      · exact (List.mem_cons.mp hid).imp_right (hn.hasEdge id)
      · exact .inr (hn.hasEdge id hid)
    · rw [hdetector, Detector.hasEdge_happensBefore hn.enabled] at hid
      rcases hid with rfl | hid
      · exact hnext.le
      · exact (hn.edge_le id hid).trans (Nat.le_succ n)
  | received hsends hpass t id' hdetector hids =>
    rw [hsends]
    have hnodup := List.nodup_cons.mp (hids.nodup_iff.mp hn.nodup)
    have hpos' : 0 < id' := hn.id_pos id' (hids.mem_iff.mpr List.mem_cons_self)
    refine ⟨?_, ?_, hnodup.2, hpos, fun id hid ↦ ?_, fun id hid ↦ ?_⟩
    · rw [hdetector]
      exact (Op.exec_enabled (o := .happensAfter t id') rfl).trans hn.enabled
    · rw [hdetector]
      exact (Op.exec_nextEdgeId hn.enabled (o := .happensAfter t id') rfl).trans hn.nextEdgeId_eq
    · rw [hdetector, Detector.hasEdge_happensAfter hn.enabled t hpos']
      refine ⟨?_, hn.hasEdge id (hids.mem_iff.mpr (List.mem_cons_of_mem _ hid))⟩
      rintro rfl
      exact hnodup.1 hid
    · rw [hdetector, Detector.hasEdge_happensAfter hn.enabled t hpos'] at hid
      exact hn.edge_le id hid.2
  | quiet hsends henabled hedges hnext hids hpass =>
    rw [hsends]
    obtain ⟨l, hperm, hsub⟩ := hids
    refine ⟨henabled.trans hn.enabled, hnext.trans hn.nextEdgeId_eq, ?_, hpos, fun id hid ↦ ?_,
      fun id hid ↦ ?_⟩
    · exact hperm.nodup_iff.mp (hsub.nodup hn.nodup)
    · rw [hedges]
      exact hn.hasEdge id (hsub.subset (hperm.mem_iff.mpr hid))
    · exact hn.edge_le id (hedges ▸ hid)

/-- The edge of a message that is dropped before its hook stays behind. -/
theorem exists_lost (h : EdgeStep serializesEdgeId s o s') (hn : s.Numbered n)
    (hlt : n + o.sends.toNat < 2 ^ 64) (hdrop : ¬s.PassesHook serializesEdgeId o) :
    ∃ id, s'.Lost id := by
  cases h with
  | sent hsends t hdetector hids =>
    obtain ⟨-, hids⟩ := hids.resolve_left fun h ↦ hdrop h.1
    rw [hsends] at hlt
    refine ⟨s.detector.nextEdgeId, ?_, ?_⟩
    · rw [hdetector, Detector.hasEdge_happensBefore hn.enabled]
      exact .inl rfl
    · rw [hids]
      exact hn.nextEdgeId_notMem hlt
  | received hsends hpass => exact absurd hpass hdrop
  | quiet hsends henabled hedges hnext hids hpass =>
    obtain ⟨l, hperm, hsub⟩ := hids
    by_contra hnone
    refine hdrop (hpass.mpr ?_)
    have hnodup : s'.ids.Nodup := hperm.nodup_iff.mp (hsub.nodup hn.nodup)
    refine (List.perm_ext_iff_of_nodup hn.nodup hnodup).mpr fun id ↦ ⟨fun hid ↦ ?_, fun hid ↦ ?_⟩
    · by_contra hnot
      exact hnone ⟨id, hedges ▸ hn.hasEdge id hid, hnot⟩
    · exact hsub.subset (hperm.mem_iff.mpr hid)

/-- An edge that no message in flight carries stays. -/
theorem lost (h : EdgeStep serializesEdgeId s o s') (hn : s.Numbered n)
    (hlt : n + o.sends.toNat < 2 ^ 64) {id : ℕ} (hid : s.Lost id) : s'.Lost id := by
  refine ⟨?_, fun hmem ↦ ?_⟩
  · cases h with
    | sent hsends t hdetector hids =>
      rw [hdetector, Detector.hasEdge_happensBefore hn.enabled]
      exact .inr hid.hasEdge
    | received hsends hpass t id' hdetector hids =>
      have hmem : id' ∈ s.ids := hids.mem_iff.mpr List.mem_cons_self
      rw [hdetector, Detector.hasEdge_happensAfter hn.enabled t (hn.id_pos id' hmem)]
      refine ⟨?_, hid.hasEdge⟩
      rintro rfl
      exact hid.not_mem hmem
    | quiet hsends henabled hedges hnext hids hpass => exact hedges ▸ hid.hasEdge
  · rcases h.mem_ids hmem with hmem | ⟨hsends, rfl⟩
    · exact hid.not_mem hmem
    · rw [hsends] at hlt
      have hle := hn.edge_le _ hid.hasEdge
      rw [hn.nextEdgeId hlt] at hle
      exact Nat.not_succ_le_self n hle

/-- A step that drops no message before its hook keeps the edges those of the messages in flight. -/
theorem edgesInFlight (h : EdgeStep serializesEdgeId s o s') (hn : s.Numbered n)
    (hs : s.EdgesInFlight) (hpass : s.PassesHook serializesEdgeId o) : s'.EdgesInFlight := by
  rw [MessagingState.edgesInFlight_iff_ids] at hs ⊢
  intro id
  cases h with
  | sent hsends t hdetector hids =>
    obtain ⟨-, hids⟩ := hids.resolve_right fun h ↦ h.1 hpass
    rw [hdetector, Detector.hasEdge_happensBefore hn.enabled, hids, List.mem_cons, hs]
  | received hsends _ t id' hdetector hids =>
    have hnodup := List.nodup_cons.mp (hids.nodup_iff.mp hn.nodup)
    have hpos : 0 < id' := hn.id_pos id' (hids.mem_iff.mpr List.mem_cons_self)
    rw [hdetector, Detector.hasEdge_happensAfter hn.enabled t hpos, hs, hids.mem_iff, List.mem_cons]
    constructor
    · rintro ⟨hne, hmem⟩
      exact hmem.resolve_left hne
    · intro hmem
      refine ⟨?_, .inr hmem⟩
      rintro rfl
      exact hnodup.1 hmem
  | quiet hsends henabled hedges hnext hids hiff => rw [hedges, hs, (hiff.mp hpass).mem_iff]

end EdgeStep

namespace MessagingRun

variable {serializesEdgeId : Bool} {r : MessagingRun serializesEdgeId} {j k : ℕ}

/-- The number of messages sent before point `k`. -/
def sendCount (r : MessagingRun serializesEdgeId) (k : ℕ) : ℕ :=
  (r.ops.take k).countP MessagingOp.sends

theorem sendCount_succ {o : MessagingOp} (ho : r.ops[k]? = some o) :
    r.sendCount (k + 1) = r.sendCount k + o.sends.toNat := countP_take_succ ho _

theorem sendCount_mono (h : j ≤ k) : r.sendCount j ≤ r.sendCount k :=
  (List.take_sublist_take_left h).countP_le

theorem numbered (hk : k ≤ r.ops.length) (hs : r.sendCount k < 2 ^ 64) :
    (r.state k).Numbered (r.sendCount k) := by
  induction k with
  | zero =>
    rw [r.state_zero]
    exact ⟨rfl, rfl, List.nodup_nil, nofun, nofun, nofun⟩
  | succ k ih =>
    have hn := ih (Nat.le_of_succ_le hk) ((sendCount_mono (Nat.le_succ k)).trans_lt hs)
    have ho := List.getElem?_eq_getElem hk
    rw [sendCount_succ ho] at hs ⊢
    exact (MessagingOp.exec_cases hn.enabled (r.step ho)).numbered hn hs

/-- An edge that no message in flight carries stays. -/
theorem lost_stays (hjk : j ≤ k) (hk : k ≤ r.ops.length) (hs : r.sendCount k < 2 ^ 64) {id : ℕ}
    (h : (r.state j).Lost id) : (r.state k).Lost id := by
  refine r.invariant_from (P := fun s ↦ s.Lost id) hjk hk h fun {m o} _ hmk ho hm ↦ ?_
  have hcount : r.sendCount (m + 1) < 2 ^ 64 := (sendCount_mono hmk).trans_lt hs
  have hn := numbered (hmk.le.trans hk) ((sendCount_mono hmk.le).trans_lt hs)
  rw [sendCount_succ ho] at hcount
  exact (MessagingOp.exec_cases hn.enabled (r.step ho)).lost hn hcount hm

/-- As long as fewer than `2 ^ 64` messages have been sent, the edges are those of the messages in
flight, and there are not more of them, exactly if no message has been dropped before its hook. -/
theorem edgesInFlight_iff (r : MessagingRun serializesEdgeId) (hk : k ≤ r.ops.length)
    (hs : r.sendCount k < 2 ^ 64) :
    ((r.state k).EdgesInFlight ∧
      {id | ((r.state k).detector.hbEdges id).isSome = true}.encard ≤
        (r.state k).inFlight.length) ↔
      ∀ j o, j < k → r.ops[j]? = some o → (r.state j).PassesHook serializesEdgeId o := by
  have hn {m : ℕ} (hmk : m ≤ k) : (r.state m).Numbered (r.sendCount m) :=
    numbered (hmk.trans hk) ((sendCount_mono hmk).trans_lt hs)
  constructor
  · rintro ⟨hedges, -⟩ j o hjk ho
    by_contra hdrop
    have hcount : r.sendCount (j + 1) < 2 ^ 64 := (sendCount_mono hjk).trans_lt hs
    rw [sendCount_succ ho] at hcount
    have hstep := MessagingOp.exec_cases (hn hjk.le).enabled (r.step ho)
    obtain ⟨id, hlost⟩ := hstep.exists_lost (hn hjk.le) hcount hdrop
    exact (lost_stays hjk hk hs hlost).not_edgesInFlight hedges
  · intro hpass
    have hedges : (r.state k).EdgesInFlight := by
      refine r.invariant_from (P := MessagingState.EdgesInFlight) (Nat.zero_le k) hk ?_
        fun {m o} _ hmk ho hm ↦ ?_
      · rw [r.state_zero, MessagingState.edgesInFlight_iff_ids]
        exact fun id ↦ iff_of_false nofun nofun
      · have hstep := MessagingOp.exec_cases (hn hmk.le).enabled (r.step ho)
        exact hstep.edgesInFlight (hn hmk.le) hm (hpass m o hmk ho)
    exact ⟨hedges, hedges.encard_le⟩

/-- Two threads. Thread 1 sends a message to its parent, which gets it, and thread 0 sends one to a
port whose scope is closing. -/
def closingPort : MessagingRun true :=
  .ofOps [.call (.threadCreate uint32Max) rfl (by simp),
    .call (.threadCreate uint32Max) rfl (by simp), .workerPostMessage 1 0,
    .postMessageToWorkerObject 0 0 1, .portPostMessage 0 0, .changePort 0 { isClosing := true },
    .accept 1 0 2 true] (by decide)

theorem edgesInFlight_iff_closingPort : (closingPort.state 7).EdgesInFlight := by
  refine ((closingPort.edgesInFlight_iff (k := 7) (by decide) (by decide)).mpr ?_).1
  intro j o hj ho
  interval_cases j <;> cases ho
  all_goals first | exact trivial | exact ⟨rfl, rfl⟩ | exact rfl

/-- Two threads. Thread 1 sends a message to its parent, which asks it to terminate before the
message arrives. -/
def terminatedWorker : MessagingRun true :=
  .ofOps [.call (.threadCreate uint32Max) rfl (by simp),
    .call (.threadCreate uint32Max) rfl (by simp), .workerPostMessage 1 0, .askToTerminate 0,
    .postMessageToWorkerObject 0 0 1] (by decide)

/-- The message is dropped, and its edge stays. -/
theorem terminatedWorker_lost :
    ¬∀ k ≤ terminatedWorker.ops.length, (terminatedWorker.state k).EdgesInFlight := by
  intro h
  have hedge := (h 5 (by decide) 1).mp (by decide)
  obtain ⟨m, hm, -⟩ := hedge
  have hnone : (terminatedWorker.state 5).inFlight = [] := by decide
  rw [hnone] at hm
  cases hm

end MessagingRun

end WebTSan
