import WebTSan.Detection
import WebTSan.NotifyWake

/-!
# The two entries to a wait

`FutexEmulation::Wait` waits synchronously or asynchronously. Both ways load the value of the
location under the mutex of the wait lists and have the same outcomes, but only some of the exits
call the hook that acquires the location: all of those of `WaitSync`, and the one of
`ResolveAsyncWaiterPromises`. An asynchronous wait that is over at once, or that times out, calls
none. Here the wait lists are run together with a memory, so that it can be told what a wait has
loaded.

## Main definitions

* `WebTSan.WaitMode`, `WebTSan.WaitAnswer`, `WebTSan.FutexState.answers`.
* `WebTSan.FutexRun.detectorRun`: the calls of the detector in a run of the wait lists.
* `WebTSan.WaitState`, `WebTSan.WaitEvent`, `WebTSan.WaitRun`.
* `WebTSan.WaitRun.LoadsStore`: a wait that loads the value of a store.

## Main results

* `WebTSan.FutexState.detectorOp_of_answers`: which answers come with an acquire.
* `WebTSan.WaitRun.LoadsStore.answers`: the wait answers that the value is another one.
* `WebTSan.WaitRun.waits_acquire_iff`: when a wait has acquired its location.
-/

namespace WebTSan

/-- How a wait is called. -/
inductive WaitMode
  | sync
  | async
deriving DecidableEq

/-- What the thread of an isolate is told about a wait. -/
structure WaitAnswer where
  isolate : Isolate
  mode : WaitMode
  location : ℕ
  result : WaitResult
deriving DecidableEq

namespace FutexState

/-- The answer to a wait that a step makes visible. -/
def answers (s : FutexState) : FutexStep → Option WaitAnswer
  | .waitComplete a =>
    match s.pc a with
    | .finishing loc result => some ⟨a, .sync, loc, result⟩
    | _ => none
  | .waitAsync a loc relTimeout equal =>
    if equal = false then some ⟨a, .async, loc, .notEqual⟩
    else if relTimeout = some 0 then some ⟨a, .async, loc, .timedOut⟩
    else none
  | .resolveNext a =>
    match s.pc a with
    | .resolving (n :: _) =>
      ((s.node n).asyncState.bind AsyncState.promiseResult).map fun result ↦
        ⟨a, .async, (s.node n).waitLocation, result⟩
    | _ => none
  | .asyncTimeout a n =>
    if (s.node n).waiting = false then none
    else ((s.node n).asyncState.bind AsyncState.promiseResult).map fun result ↦
      ⟨a, .async, (s.node n).waitLocation, result⟩
  | _ => none

/-! ### The calls of the detector -/

/-- The call of a hook, which is left out for a thread without a tid. -/
def hookOp (f : Tid → Op) : Option Tid → Op
  | some tid => f tid
  | none => .threadDetach 0

/-- The call of the detector that a step makes. Where there is none, it is `ThreadDetach`, which has
no effect. -/
def detectorOp (s : FutexState) : FutexStep → Op
  | .call o => o
  | .notify a loc _ => hookOp (fun tid ↦ .release tid loc) (s.currentTid a)
  | .waitComplete a =>
    match s.pc a with
    | .finishing loc _ => hookOp (fun tid ↦ .acquire tid loc) (s.currentTid a)
    | _ => .threadDetach 0
  | .resolveNext a =>
    match s.pc a with
    | .resolving (n :: _) =>
      if (s.node n).waitLocation = 0 then .threadDetach 0
      else hookOp (fun tid ↦ .acquire tid (s.node n).waitLocation) (s.currentTid a)
    | _ => .threadDetach 0
  | _ => .threadDetach 0

/-- What a step does to the detector. -/
theorem exec_detectorOp {s s' : FutexState} {o : FutexStep} (h : s.WellFormed)
    (he : s.detector.enabled = true) (hs : s.exec o = some s') :
    (s.detectorOp o).exec s.detector = some s'.detector := by
  have hcomplete (loc : ℕ) (tid : Option Tid) :
      (hookOp (fun tid ↦ .acquire tid loc) tid).exec s.detector =
        some (s.onAtomicsWaitComplete loc tid) := by
    cases tid with
    | none => rfl
    | some t => simp [hookOp, Op.exec, onAtomicsWaitComplete, he]
  cases step_of_exec hs with
  | call hd => exact hd
  | @notify a loc count ha =>
    cases htid : s.currentTid a with
    | none => simp [detectorOp, hookOp, Op.exec, onAtomicsNotify, setPc, htid,
        Detector.threadDetach]
    | some t => simp [detectorOp, hookOp, Op.exec, onAtomicsNotify, setPc, htid, he]
  | @wake a loc count => exact congrArg some (h.wake loc count).2.detector.symm
  | waitComplete ha =>
    simp only [detectorOp, ha]
    exact hcomplete ..
  | resolved ha =>
    simp only [detectorOp, ha]
    rfl
  | @resolveNext a n nodes ha =>
    simp only [detectorOp, ha]
    split_ifs
    · rfl
    · exact hcomplete ..
  | _ => rfl

/-! ### Time-outs of woken waits -/

/-- When waiters are notified, their time-out is reset. -/
def Reset (s : FutexState) : Prop :=
  ∀ n st, s.Notified n → (s.node n).asyncState = some st → st.hasTimeoutTime = false

/-- A step that notifies no node and sets no time-out. -/
theorem Reset.of_subset {s s' : FutexState} (h : s.Reset)
    (hnotified : ∀ n, s'.Notified n → s.Notified n)
    (hnode : ∀ n, s.Notified n → ∀ st', (s'.node n).asyncState = some st' → ∃ st,
      (s.node n).asyncState = some st ∧ st'.hasTimeoutTime = st.hasTimeoutTime) : s'.Reset := by
  intro n st' hn hst'
  obtain ⟨st, hst, htime⟩ := hnode n (hnotified n hn) st' hst'
  exact htime.trans (h n st (hnotified n hn) hst)

/-- A step that moves a thread out of `ResolveAsyncWaiterPromises`, or leaves it there. -/
theorem Notified.of_setPc {s : FutexState} {a : Isolate} {pc : FutexPc} {n : NodeId}
    (h : (s.setPc a pc).Notified n)
    (hpc : ∀ nodes, pc = .resolving nodes → ∀ m ∈ nodes, s.Notified m) : s.Notified n := by
  rcases h with hn | ⟨b, nodes, hb, hn⟩
  · exact .inl hn
  · by_cases hba : b = a
    · subst hba
      exact hpc nodes (by simpa using hb) n hn
    · exact .inr ⟨b, nodes, by simpa [hba] using hb, hn⟩

theorem Reset.notifyAsyncWaiter {s : FutexState} (h : s.Reset) (n : NodeId) (st : AsyncState) :
    (s.notifyAsyncWaiter n st).Reset := by
  intro m st' hm hst'
  rw [notifyAsyncWaiter_node] at hst'
  by_cases hmn : m = n
  · subst hmn
    rw [Function.update_self] at hst'
    rw [← Option.some.inj hst']
  · rw [Function.update_of_ne hmn] at hst'
    exact h m st' (hm.of_notifyAsyncWaiter.resolve_left hmn) hst'

/-- Replacing a node by one with the same time-out. -/
theorem Reset.setNode {s : FutexState} (h : s.Reset) {n : NodeId} {x : FutexNode}
    (hx : ∀ st', x.asyncState = some st' → ∃ st, (s.node n).asyncState = some st ∧
      st'.hasTimeoutTime = st.hasTimeoutTime) : (s.setNode n x).Reset := by
  refine h.of_subset (fun _ ↦ id) fun m _ st' hst' ↦ ?_
  by_cases hmn : m = n
  · subst hmn
    exact hx st' (by simpa using hst')
  · exact ⟨st', by simpa [hmn] using hst', rfl⟩

theorem Reset.wakeNode {s : FutexState} (h : s.Reset) (n : NodeId) : (s.wakeNode n).Reset := by
  have h' := h.setNode (n := n) (x := { s.node n with waiting := false })
    fun st hst ↦ ⟨st, hst, rfl⟩
  unfold FutexState.wakeNode
  dsimp only
  split
  · exact h'
  · exact h'.notifyAsyncWaiter _ _

theorem Reset.discardNode {s : FutexState} (h : s.Reset) {n : NodeId} {st : AsyncState}
    (hst : (s.node n).asyncState = some st) : (s.discardNode n st).Reset := by
  refine Reset.notifyAsyncWaiter (h.setNode fun st' hst' ↦ ⟨st, hst, ?_⟩) _ _
  rw [← Option.some.inj hst']

theorem Reset.wakeLoop {s : FutexState} (h : s.Reset) (nodes : List NodeId) (count : ℕ) :
    (s.wakeLoop nodes count).2.Reset := by
  induction nodes generalizing s count with
  | nil => exact h
  | cons n nodes ih =>
    unfold FutexState.wakeLoop
    dsimp only
    generalize (if count = kWakeAll then count else count - 1) = count'
    split_ifs
    · exact h
    · exact ih h count
    · split
      · exact ih (h.wakeNode n) count'
      · next st hst =>
        split_ifs
        · exact ih (h.wakeNode n) count'
        · exact h.discardNode hst
        · exact ih h count

theorem Reset.cancelTimeoutTask (s : FutexState) (n : NodeId) {st' : AsyncState}
    (h : (s.cancelTimeoutTask n).asyncState = some st') : ∃ st, (s.node n).asyncState = some st ∧
      st'.hasTimeoutTime = st.hasTimeoutTime := by
  obtain ⟨st, hst, rfl⟩ := Option.map_eq_some_iff.mp h
  exact ⟨st, hst, rfl⟩

theorem Reset.setPc {s : FutexState} (h : s.Reset) {a : Isolate} {pc : FutexPc}
    (hpc : ∀ nodes, pc = .resolving nodes → ∀ m ∈ nodes, s.Notified m) : (s.setPc a pc).Reset :=
  h.of_subset (fun _ hn ↦ hn.of_setPc hpc) fun _ _ st hst ↦ ⟨st, hst, rfl⟩

/-- A step that moves a thread to a place outside of `ResolveAsyncWaiterPromises`. -/
theorem Reset.setPc_of_ne {s : FutexState} (h : s.Reset) {a : Isolate} {pc : FutexPc}
    (hpc : ∀ nodes, pc ≠ .resolving nodes) : (s.setPc a pc).Reset :=
  h.setPc fun nodes heq ↦ absurd heq (hpc nodes)

theorem Reset.finishWait {s : FutexState} (h : s.Reset) (a : Isolate) (loc : ℕ)
    (result : WaitResult) : (s.finishWait a loc result).Reset := by
  have h' := h.setNode (n := .sync a) (x := { s.node (.sync a) with waiting := false })
    fun st hst ↦ ⟨st, hst, rfl⟩
  exact Reset.setPc_of_ne (s := (s.setNode _ _).removeNode _) h' fun _ ↦ by simp

/-- A step that empties a list of promises to resolve. -/
theorem Notified.of_update {s s' : FutexState} {a : Isolate} {n : NodeId} (h : s'.Notified n)
    (hpromises : s'.promisesToResolve = Function.update s.promisesToResolve a [])
    (hpc : s'.pc = s.pc) : s.Notified n := by
  unfold Notified at h
  rw [hpromises, hpc] at h
  exact h.imp_left fun ⟨b, hb⟩ ↦ ⟨b, mem_of_mem_update_nil hb⟩

/-- Every step keeps the time-outs of notified nodes reset. -/
theorem Reset.exec {s s' : FutexState} (h : s.Reset) (hwf : s.WellFormed) {o : FutexStep}
    (hs : s.exec o = some s') : s'.Reset := by
  cases step_of_exec hs with
  | setTid | call | immediate => exact h
  | expire =>
    refine h.setNode fun st' hst' ↦ ?_
    obtain ⟨st, hst, rfl⟩ := Option.map_eq_some_iff.mp hst'
    exact ⟨st, hst, rfl⟩
  | wake => exact (h.wakeLoop _ _).setPc_of_ne fun _ ↦ by simp
  | @startWait a loc =>
    have h' := h.setNode (n := .sync a)
      (x := { s.node (.sync a) with waitLocation := loc, waiting := true })
      fun st hst ↦ ⟨st, hst, rfl⟩
    exact Reset.setPc_of_ne (s := { s.startWait a loc with mutexHolder := some a }) h'
      fun _ ↦ by simp
  | @interrupted a =>
    have h' := h.setNode (n := .sync a) (x := { s.node (.sync a) with interrupted := false })
      fun st hst ↦ ⟨st, hst, rfl⟩
    exact Reset.setPc_of_ne (s := { s.setNode (.sync a)
      { s.node (.sync a) with interrupted := false } with mutexHolder := none }) h' fun _ ↦ by simp
  | woken | timedOut => exact h.finishWait _ _ _
  | @threw a => exact Reset.finishWait (s := { s with mutexHolder := some a }) h _ _ _
  | notifyWake => exact h.setNode fun st hst ↦ ⟨st, hst, rfl⟩
  | @startAsync a loc relTimeout =>
    refine h.of_subset (fun _ ↦ id) fun n hn st' hst' ↦ ⟨st', ?_, rfl⟩
    obtain ⟨-, -, id, hid, rfl⟩ := hwf.notified hn
    have hne : NodeId.async id ≠ .async s.nextAsync := fun heq ↦ hid.ne (NodeId.async.inj heq)
    simpa [FutexState.startAsync, FutexState.addNode, hne] using hst'
  | @takePromises a =>
    refine h.of_subset (fun n hn ↦ ?_) fun _ _ st hst ↦ ⟨st, hst, rfl⟩
    have hn' : (s.setPc a (.resolving (s.promisesToResolve a))).Notified n :=
      hn.of_update rfl rfl
    exact hn'.of_setPc fun nodes hnodes m hm ↦ .inl ⟨a, by rwa [FutexPc.resolving.inj hnodes]⟩
  | @resolveNext a n nodes ha =>
    have h' := h.setNode (n := n) fun _ ↦ Reset.cancelTimeoutTask s n
    refine Reset.setPc (s := { s with detector := _ }.setNode n (s.cancelTimeoutTask n)) h' ?_
    exact fun nodes' hnodes m hm ↦ .inr ⟨a, n :: nodes, ha, by
      rw [FutexPc.resolving.inj hnodes]
      exact List.mem_cons_of_mem n hm⟩
  | wokenInTime | asyncTimeout => exact h.setNode fun _ ↦ Reset.cancelTimeoutTask s _
  | @isolateDeinit a =>
    refine h.of_subset (fun n hn ↦ ?_) fun n _ st' hst' ↦ ?_
    · exact hn.of_update rfl rfl
    · dsimp only at hst'
      split_ifs at hst'
      · exact Reset.cancelTimeoutTask s n hst'
      · exact ⟨st', hst', rfl⟩
  | _ => exact Reset.setPc_of_ne (s := { s with detector := _, mutexHolder := _ }) h fun _ ↦ by simp

/-- An answer comes with an acquire of its location if and only if the wait is synchronous or was
woken. -/
theorem detectorOp_of_answers {s s' : FutexState} {o : FutexStep} {ans : WaitAnswer} {u : Tid}
    (h : s.Reset) (hwf : s.WellFormed) (hs : s.exec o = some s') (hans : s.answers o = some ans)
    (hu : s.currentTid ans.isolate = some u) : s.detectorOp o =
      if ans.mode = .sync ∨ ans.result = .ok then .acquire u ans.location else .threadDetach 0 := by
  cases step_of_exec hs with
  | waitComplete ha =>
    simp only [answers, ha] at hans
    obtain rfl := Option.some.inj hans
    simp only [detectorOp, ha]
    rw [hu, if_pos (.inl trivial)]
    rfl
  | immediate ha hmutex hloc hresult =>
    simp only [answers] at hans
    split_ifs at hans <;>
      · obtain rfl := Option.some.inj hans
        rfl
  | startAsync ha hmutex hloc htime => simp [answers, htime] at hans
  | resolved ha => simp [answers, ha] at hans
  | @resolveNext a n nodes ha =>
    have hn : s.Notified n := .inr ⟨a, n :: nodes, ha, List.mem_cons_self⟩
    simp only [answers, ha] at hans
    obtain ⟨result, hresult, rfl⟩ := Option.map_eq_some_iff.mp hans
    obtain ⟨st, hst, hresult⟩ := Option.bind_eq_some_iff.mp hresult
    have hok : result = .ok := by
      simp only [AsyncState.promiseResult, h n st hn hst, Bool.false_eq_true, if_false] at hresult
      split_ifs at hresult
      exact (Option.some.inj hresult).symm
    simp only [detectorOp, ha]
    rw [if_neg (hwf.notified hn).2.1, hu, if_pos (.inr hok)]
    rfl
  | wokenInTime _ _ _ _ _ hwait => simp [answers, hwait] at hans
  | asyncTimeout _ _ hst _ htask hwait =>
    have htime := hwf.timeout hst hwait htask
    simp only [answers, hwait, hst, Bool.true_eq_false, if_false, Option.bind_some,
      AsyncState.promiseResult, htime, if_true] at hans
    obtain ⟨result, hresult, rfl⟩ := Option.map_eq_some_iff.mp hans
    split_ifs at hresult
    obtain rfl := Option.some.inj hresult
    rfl
  | _ => cases hans

end FutexState

namespace FutexRun

variable (r : FutexRun)

/-- The run of the detector, with one call for every step. -/
def detectorRun : Run where
  ops := r.ops.mapIdx fun k o ↦ (r.state k).detectorOp o
  state k := (r.state k).detector
  state_zero := by rw [r.state_zero]; rfl
  step {k d} h := by
    rw [List.getElem?_mapIdx] at h
    obtain ⟨o, ho, rfl⟩ := Option.map_eq_some_iff.mp h
    have hk := (List.getElem?_eq_some_iff.mp ho).1.le
    exact FutexState.exec_detectorOp (wellFormed hk) (enabled hk) (r.step ho)

variable {r} {k : ℕ}

theorem detectorRun_getElem? {o : FutexStep} (ho : r.ops[k]? = some o) :
    r.detectorRun.ops[k]? = some ((r.state k).detectorOp o) := by
  change (r.ops.mapIdx _)[k]? = _
  rw [List.getElem?_mapIdx, ho]
  rfl

theorem reset (hk : k ≤ r.ops.length) : (r.state k).Reset := by
  refine r.invariant_of_step (P := FutexState.Reset) ?_ (fun ho h ↦ ?_) hk
  · rintro n st (⟨a, hn⟩ | ⟨a, nodes, ha, -⟩)
    · cases hn
    · cases ha
  · exact h.exec (wellFormed (List.getElem?_eq_some_iff.mp ho).1.le) (r.step ho)

/-- The step at position `k` makes an answer visible. -/
def Answers (r : FutexRun) (k : ℕ) (ans : WaitAnswer) : Prop :=
  ∃ o, r.ops[k]? = some o ∧ (r.state k).answers o = some ans

/-- The call of the detector in a step that makes an answer visible. -/
theorem Answers.detectorRun_getElem? {ans : WaitAnswer} (h : r.Answers k ans) {u : Tid}
    (hu : (r.state k).currentTid ans.isolate = some u) : r.detectorRun.ops[k]? = some
      (if ans.mode = .sync ∨ ans.result = .ok then .acquire u ans.location
        else .threadDetach 0) := by
  obtain ⟨o, ho, hans⟩ := h
  have hk := (List.getElem?_eq_some_iff.mp ho).1.le
  rw [FutexRun.detectorRun_getElem? ho,
    FutexState.detectorOp_of_answers (reset hk) (wellFormed hk) (r.step ho) hans hu]

end FutexRun

/-! ### Wait lists and memory -/

/-- A thread that has ended its wait goes on with the hook only. -/
theorem FutexState.exec_finishing {s s' : FutexState} {o : FutexStep} (h : s.WellFormed)
    (hs : s.exec o = some s') {a : Isolate} {loc : ℕ} {result : WaitResult}
    (ha : s.pc a = .finishing loc result) (ho : o ≠ .waitComplete a) :
    s'.pc a = .finishing loc result := by
  have hother {b : Isolate} {pc pc' : FutexPc} (hb : s.pc b = pc')
      (hne : pc' ≠ .finishing loc result) :
      Function.update s.pc b pc a = .finishing loc result := by
    have hab : a ≠ b := by
      rintro rfl
      exact hne (hb.symm.trans ha)
    rw [Function.update_of_ne hab, ha]
  cases step_of_exec hs with
  | @waitComplete b _ _ hb =>
    have hab : a ≠ b := by
      rintro rfl
      exact ho rfl
    rw [setPc_pc, Function.update_of_ne hab, ha]
  | @wake b _ _ hb =>
    rw [setPc_pc, (h.wake _ _).2.pc]
    exact hother hb nofun
  | setTid | call | expire | notifyWake | immediate | startAsync | wokenInTime | asyncTimeout |
    isolateDeinit => exact ha
  | notify hb | startWait hb | notEqual hb | interrupted hb | woken hb | timedOut hb | block hb
  | resume hb | threw hb | handled hb | takePromises hb | resolved hb | resolveNext hb =>
    exact hother hb nofun

/-- The step enters a wait. -/
def FutexStep.entersWait : FutexStep → Bool
  | .waitSync .. | .waitAsync .. => true
  | _ => false

/-- The wait lists, and the values in the memory. -/
structure WaitState where
  futex : FutexState
  memory : ℕ → ℕ

/-- A step of the threads that share the memory. -/
inductive WaitEvent
  /-- `FutexEmulation::Wait`. -/
  | wait (mode : WaitMode) (a : Isolate) (loc : ℕ) (relTimeout : Option ℕ) (value : ℕ)
  | write (loc value : ℕ)
  /-- Any other step of the wait lists, or a call of the detector. -/
  | step (o : FutexStep)

namespace WaitEvent

/-- The step of the wait lists in an event; a wait compares the value that it loads. -/
def futexStep (memory : ℕ → ℕ) : WaitEvent → FutexStep
  | wait .sync a loc relTimeout value =>
    .waitSync a loc relTimeout.isSome (memory loc = value)
  | wait .async a loc relTimeout value => .waitAsync a loc relTimeout (memory loc = value)
  | write .. => .call (.threadDetach 0)
  | step o => o

/-- The memory after an event. -/
def written (memory : ℕ → ℕ) : WaitEvent → ℕ → ℕ
  | write loc value => Function.update memory loc value
  | _ => memory

/-- Waits are entered through `FutexEmulation::Wait`. -/
def allowed : WaitEvent → Bool
  | step o => !o.entersWait
  | _ => true

end WaitEvent

/-- The state after an event, if it is possible. -/
def WaitState.exec (s : WaitState) (ev : WaitEvent) : Option WaitState :=
  if ev.allowed then
    (s.futex.exec (ev.futexStep s.memory)).map fun futex ↦
      { futex := futex, memory := ev.written s.memory }
  else none

/-- A run of the threads that share a memory. -/
abbrev WaitRun (memory : ℕ → ℕ) := Execution WaitState.exec ⟨FutexState.initial, memory⟩

namespace WaitRun

variable {memory : ℕ → ℕ}

theorem exec_eq {s s' : WaitState} {ev : WaitEvent} (h : s.exec ev = some s') :
    s.futex.exec (ev.futexStep s.memory) = some s'.futex ∧ s'.memory = ev.written s.memory := by
  unfold WaitState.exec at h
  split_ifs at h
  obtain ⟨futex, hs, rfl⟩ := Option.map_eq_some_iff.mp h
  exact ⟨hs, rfl⟩

/-- The run of the wait lists. -/
def futexRun (e : WaitRun memory) : FutexRun where
  ops := e.ops.mapIdx fun k ev ↦ ev.futexStep (e.state k).memory
  state k := (e.state k).futex
  state_zero := by rw [e.state_zero]
  step {k o} h := by
    rw [List.getElem?_mapIdx] at h
    obtain ⟨ev, hev, rfl⟩ := Option.map_eq_some_iff.mp h
    exact (exec_eq (e.step hev)).1

variable {e : WaitRun memory}

theorem futexRun_length : e.futexRun.ops.length = e.ops.length := List.length_mapIdx

theorem futexRun_getElem? {k : ℕ} {ev : WaitEvent} (hev : e.ops[k]? = some ev) :
    e.futexRun.ops[k]? = some (ev.futexStep (e.state k).memory) := by
  change (e.ops.mapIdx _)[k]? = _
  rw [List.getElem?_mapIdx, hev]
  rfl

/-- The answer to the wait that isolate `a` enters at position `w` becomes visible at position `k`,
if the wait does not have to wait. -/
def AnsweredAt (e : WaitRun memory) (mode : WaitMode) (a : Isolate) (w k : ℕ) : Prop :=
  match mode with
  | .sync => w < k ∧ e.ops[k]? = some (.step (.waitComplete a)) ∧
      ∀ m, w < m → m < k → e.ops[m]? ≠ some (.step (.waitComplete a))
  | .async => k = w

/-- Thread `t` runs `Atomics.store` at a location, with its hook at position `i` and its write at
position `j`. At position `w` a wait of isolate `a` loads the value, which is not the expected one.
The answer becomes visible at position `k`, where the isolate has the tid `u`. No mutex is created
or destroyed at the location. -/
structure LoadsStore (e : WaitRun memory) (mode : WaitMode) (t u : Tid) (a : Isolate)
    (loc i j w k : ℕ) (value expected : ℕ) (relTimeout : Option ℕ) : Prop where
  hook : e.ops[i]? = some (.step (.call (.release t loc)))
  lt_write : i < j
  write : e.ops[j]? = some (.write loc value)
  lt_wait : j < w
  last (m v : ℕ) (hjm : j < m) (hmw : m < w) : e.ops[m]? ≠ some (.write loc v)
  wait : e.ops[w]? = some (.wait mode a loc relTimeout expected)
  ne : value ≠ expected
  answered : e.AnsweredAt mode a w k
  tid : (e.state k).futex.currentTid a = some u
  keepsSync : e.futexRun.detectorRun.KeepsSync loc i k

namespace LoadsStore

variable {mode : WaitMode} {t u : Tid} {a : Isolate} {loc i j w k value expected : ℕ}
  {relTimeout : Option ℕ}
  (h : e.LoadsStore mode t u a loc i j w k value expected relTimeout)
include h

theorem lt_length : w < e.ops.length := (List.getElem?_eq_some_iff.mp h.wait).1

/-- The value stays in the memory until the wait. -/
theorem memory_eq : (e.state w).memory loc = value := by
  refine e.invariant_from (P := fun s ↦ s.memory loc = value) h.lt_wait h.lt_length.le ?_
    fun {m ev} hjm hmw hev ih ↦ ?_
  · rw [(exec_eq (e.step h.write)).2]
    exact Function.update_self ..
  · rw [(exec_eq (e.step hev)).2]
    cases ev with
    | write loc' v =>
      have hne : loc ≠ loc' := by
        rintro rfl
        exact h.last m v hjm hmw hev
      rw [WaitEvent.written, Function.update_of_ne hne]
      exact ih
    | _ => exact ih

/-- The wait answers that the value is another one. -/
theorem answers : e.futexRun.Answers k ⟨a, mode, loc, .notEqual⟩ := by
  have hequal : decide ((e.state w).memory loc = expected) = false := by
    rw [h.memory_eq]
    exact decide_eq_false h.ne
  have hop := futexRun_getElem? h.wait
  cases mode with
  | async =>
    obtain rfl : k = w := h.answered
    refine ⟨_, hop, ?_⟩
    simp only [WaitEvent.futexStep, FutexState.answers, hequal, if_true]
  | sync =>
    obtain ⟨hwk, hcomplete, hfirst⟩ := h.answered
    have hklen := (List.getElem?_eq_some_iff.mp hcomplete).1
    have hpck : (e.futexRun.state k).pc a = .finishing loc .notEqual := by
      refine e.invariant_from (P := fun s ↦ s.futex.pc a = .finishing loc .notEqual) hwk hklen.le ?_
        fun {m ev} hwm hmk hev ih ↦ ?_
      · have hstep := e.futexRun.step hop
        simp only [WaitEvent.futexStep, hequal] at hstep
        have hpath := FutexState.step_of_exec hstep
        change (e.futexRun.state (w + 1)).pc a = _
        generalize e.futexRun.state (w + 1) = s' at hpath
        cases hpath with
        | notEqual => exact Function.update_self ..
      · have hwf : (e.futexRun.state m).WellFormed :=
          FutexRun.wellFormed (by rw [futexRun_length]; exact (hmk.trans hklen).le)
        refine FutexState.exec_finishing hwf (e.futexRun.step (futexRun_getElem? hev)) ih ?_
        intro heq
        cases ev with
        | step o =>
          obtain rfl : o = _ := heq
          exact hfirst m hwm hmk hev
        | wait mode' => cases mode' <;> cases heq
        | write => cases heq
    refine ⟨_, futexRun_getElem? hcomplete, ?_⟩
    simp only [WaitEvent.futexStep, FutexState.answers, hpck]

theorem lt_answer : i < k := by
  have hij := h.lt_write
  have hjw := h.lt_wait
  cases mode with
  | async =>
    obtain rfl : k = w := h.answered
    omega
  | sync =>
    obtain ⟨hwk, -⟩ := h.answered
    omega

theorem releasesAt : e.futexRun.detectorRun.ReleasesAt i t loc :=
  ⟨_, FutexRun.detectorRun_getElem? (futexRun_getElem? h.hook), rfl⟩

/-- What the storing thread knew at its store is handed over to the waiting thread if and only if
the wait is synchronous, or the waiting thread knew it already. -/
theorem handedOver_iff (hw : e.futexRun.detectorRun.NoWrap) :
    e.futexRun.detectorRun.HandedOver t u i (k + 1) ↔ mode = .sync ∨
      (e.state i).futex.detector.threadClocks t ≤ (e.state k).futex.detector.threadClocks u := by
  have hop := h.answers.detectorRun_getElem? h.tid
  have hlen : k < e.futexRun.detectorRun.ops.length := (List.getElem?_eq_some_iff.mp hop).1
  have hi : i ≤ e.futexRun.detectorRun.ops.length := (h.lt_answer.trans hlen).le
  cases mode with
  | sync =>
    refine ⟨fun _ ↦ .inl rfl, fun _ ↦ .of_clock_le hw hi ?_⟩
    have hacquire : e.futexRun.detectorRun.AcquiresAt k u loc := ⟨_, hop, rfl⟩
    exact (h.releasesAt.clock_le h.lt_answer hlen.le h.keepsSync).trans hacquire.clock_le
  | async =>
    have hsame : e.futexRun.detectorRun.state (k + 1) = e.futexRun.detectorRun.state k :=
      e.futexRun.detectorRun.state_succ hop rfl
    constructor
    · intro hover
      have hle := hover.clock_le
      rw [hsame] at hle
      exact .inr hle
    · rintro (hmode | hle)
      · cases hmode
      · refine .of_clock_le hw hi ?_
        rw [hsame]
        exact hle

end LoadsStore

end WaitRun

/-- A synchronous wait, which answers at position `k₁` of one run, and an asynchronous wait, which
answers at position `k₂` of another one, have the same outcome for the same location, for threads
with the same tid and with the same state of the detector. -/
structure FutexRun.SameOutcome (r₁ r₂ : FutexRun) (k₁ k₂ : ℕ) (u : Tid) (loc : ℕ)
    (result : WaitResult) : Prop where
  sync : ∃ a, r₁.Answers k₁ ⟨a, .sync, loc, result⟩ ∧ (r₁.state k₁).currentTid a = some u
  async : ∃ a, r₂.Answers k₂ ⟨a, .async, loc, result⟩ ∧ (r₂.state k₂).currentTid a = some u
  detector : (r₁.state k₁).detector = (r₂.state k₂).detector

/-- Both entries leave the thread with the same clock if and only if it was woken, or knew the clock
of the location already. -/
theorem FutexRun.SameOutcome.clocks_eq_iff {r₁ r₂ : FutexRun} {k₁ k₂ : ℕ} {u : Tid} {loc : ℕ}
    {result : WaitResult} (h : r₁.SameOutcome r₂ k₁ k₂ u loc result) :
    (r₁.state (k₁ + 1)).detector.threadClocks u = (r₂.state (k₂ + 1)).detector.threadClocks u ↔
      result = .ok ∨ (r₁.state k₁).detector.clockOf (.sync loc) ≤
        (r₁.state k₁).detector.threadClocks u := by
  obtain ⟨a₁, hans₁, hu₁⟩ := h.sync
  obtain ⟨a₂, hans₂, hu₂⟩ := h.async
  have hop₁ := hans₁.detectorRun_getElem? hu₁
  have hop₂ := hans₂.detectorRun_getElem? hu₂
  have he : (r₁.state k₁).detector.enabled = true :=
    r₁.detectorRun.enabled (List.getElem?_eq_some_iff.mp hop₁).1.le
  rw [if_pos (.inl rfl)] at hop₁
  have hstate₁ : (r₁.state (k₁ + 1)).detector = (r₁.state k₁).detector.acquire u loc :=
    r₁.detectorRun.state_succ hop₁ rfl
  have hclock : ((r₁.state k₁).detector.acquire u loc).threadClocks u =
      (r₁.state k₁).detector.threadClocks u ⊔ (r₁.state k₁).detector.clockOf (.sync loc) := by
    rw [← Detector.clockOf_thread, Detector.clockOf_acquire he, if_pos rfl, Detector.clockOf_thread]
  by_cases hok : result = .ok
  · rw [if_pos (.inr hok)] at hop₂
    have hstate₂ : (r₂.state (k₂ + 1)).detector = (r₂.state k₂).detector.acquire u loc :=
      r₂.detectorRun.state_succ hop₂ rfl
    rw [hstate₁, hstate₂, h.detector]
    simp [hok]
  · rw [if_neg (by simp [hok])] at hop₂
    have hstate₂ : (r₂.state (k₂ + 1)).detector = (r₂.state k₂).detector :=
      r₂.detectorRun.state_succ hop₂ rfl
    rw [hstate₁, hstate₂, ← h.detector, hclock]
    simp [hok]

namespace WaitRun

variable {memory : ℕ → ℕ}

/-- Waits acquire their location. A wait that loads the value of a store knows what the storing
thread knew if and only if it is synchronous or its thread knew it already; and for the same outcome
both entries leave the same clock if and only if the wait was woken or its thread knew the clock of
the location already. -/
theorem waits_acquire_iff :
    (∀ (e : WaitRun memory) {mode : WaitMode} {t u : Tid} {a : Isolate} {loc i j w k value
        expected : ℕ} {relTimeout : Option ℕ},
      e.LoadsStore mode t u a loc i j w k value expected relTimeout →
      e.futexRun.detectorRun.NoWrap →
        (e.futexRun.detectorRun.HandedOver t u i (k + 1) ↔ mode = .sync ∨
          (e.state i).futex.detector.threadClocks t ≤
            (e.state k).futex.detector.threadClocks u)) ∧
    ∀ {r₁ r₂ : FutexRun} {k₁ k₂ : ℕ} {u : Tid} {loc : ℕ} {result : WaitResult},
      r₁.SameOutcome r₂ k₁ k₂ u loc result →
        ((r₁.state (k₁ + 1)).detector.threadClocks u =
            (r₂.state (k₂ + 1)).detector.threadClocks u ↔
          result = .ok ∨ (r₁.state k₁).detector.clockOf (.sync loc) ≤
            (r₁.state k₁).detector.threadClocks u) :=
  ⟨fun _ _ _ _ _ _ _ _ _ _ _ _ _ h hw ↦ h.handedOver_iff hw, fun h ↦ h.clocks_eq_iff⟩

/-- Thread 0 writes a byte and stores 1 at a location. Thread 1 waits there for another value, in
the given mode, and then reads the byte. -/
def storeThenWait (mode : WaitMode) : List WaitEvent :=
  [.step (.call (.threadCreate uint32Max)), .step (.call (.threadCreate uint32Max)),
    .step (.setTid 1 (some 1)), .step (.call (.memoryAccess 4096 64 0 1 0 true)),
    .step (.call (.release 0 64)), .write 64 1, .wait mode 1 64 none 0]

def syncWait : WaitRun 0 :=
  .ofOps (storeThenWait .sync ++ [.step (.waitComplete 1)]) (by decide)

def asyncWait : WaitRun 0 := .ofOps (storeThenWait .async) (by decide)

theorem syncWait_loadsStore : syncWait.LoadsStore .sync 0 1 1 64 4 5 6 7 1 0 none := by
  refine ⟨rfl, by decide, rfl, by decide, ?_, rfl, by decide, ⟨by decide, rfl, ?_⟩, rfl, ?_⟩
  · intro m v hjm hmw
    omega
  · intro m hwm hmk
    omega
  · intro m o him hmk ho
    interval_cases m <;> cases ho <;> nofun

theorem asyncWait_loadsStore : asyncWait.LoadsStore .async 0 1 1 64 4 5 6 6 1 0 none := by
  refine ⟨rfl, by decide, rfl, by decide, ?_, rfl, by decide, rfl, rfl, ?_⟩
  · intro m v hjm hmw
    omega
  · intro m o him hmk ho
    interval_cases m
    cases ho
    nofun

/-- Thread `t` releases a location, and thread 1 waits there synchronously until it times out. -/
def syncTimeout (t : Tid) : FutexRun :=
  .ofOps [.call (.threadCreate uint32Max), .call (.threadCreate uint32Max), .setTid 1 (some 1),
    .call (.release t 64), .waitSync 1 64 true true, .iterate 1 true, .waitComplete 1] rfl

/-- Thread `t` releases a location, and thread 1 waits there asynchronously, with no time. -/
def asyncTimeout (t : Tid) : FutexRun :=
  .ofOps [.call (.threadCreate uint32Max), .call (.threadCreate uint32Max), .setTid 1 (some 1),
    .call (.release t 64), .waitAsync 1 64 (some 0) true] rfl

theorem timeouts_sameOutcome (t : Tid) :
    (syncTimeout t).SameOutcome (asyncTimeout t) 6 4 1 64 .timedOut :=
  ⟨⟨1, ⟨_, rfl, rfl⟩, rfl⟩, ⟨1, ⟨_, rfl, rfl⟩, rfl⟩, rfl⟩

/-- The synchronous wait knows what the storing thread knew; and the waits for a location that
thread 1 has released itself leave the same clock. -/
theorem syncWait_acquires : syncWait.futexRun.detectorRun.HandedOver 0 1 4 8 ∧
    ((syncTimeout 1).state 7).detector.threadClocks 1 =
      ((asyncTimeout 1).state 5).detector.threadClocks 1 := by
  have hw : syncWait.futexRun.detectorRun.NoWrap := Run.noWrap_of_length _ (by decide : 8 < 2 ^ 64)
  obtain ⟨hhanded, hclocks⟩ := @waits_acquire_iff 0
  refine ⟨(hhanded syncWait syncWait_loadsStore hw).mpr (.inl rfl),
    (hclocks (timeouts_sameOutcome 1)).mpr (.inr ?_)⟩
  exact (VClock.happensBefore_iff _ _).mp (by decide)

/-- The asynchronous wait that loads the value of the store knows nothing of thread 0, whose write
is reported when thread 1 reads the byte; and the waits for a location that thread 0 has released,
which both time out, leave different clocks. -/
theorem asyncWait_not_acquires :
    asyncWait.LoadsStore .async 0 1 1 64 4 5 6 6 1 0 none ∧
    ¬asyncWait.futexRun.detectorRun.HandedOver 0 1 4 7 ∧
    (Op.found (asyncWait.state 7).futex.detector
      (.memoryAccess 4096 64 0 1 1 false)).isSome = true ∧
    (syncTimeout 0).SameOutcome (asyncTimeout 0) 6 4 1 64 .timedOut ∧
    ((syncTimeout 0).state 7).detector.threadClocks 1 ≠
      ((asyncTimeout 0).state 5).detector.threadClocks 1 := by
  refine ⟨asyncWait_loadsStore, fun hover ↦ ?_, by decide, timeouts_sameOutcome 0, fun heq ↦ ?_⟩
  · have hle : (asyncWait.state 4).futex.detector.threadClocks 0 0 ≤
        (asyncWait.state 7).futex.detector.threadClocks 1 0 := hover.clock_le 0
    exact absurd hle (by decide)
  · exact absurd (congrFun heq 0) (by decide)

end WaitRun

end WebTSan
