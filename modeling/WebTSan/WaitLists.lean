import WebTSan.Futex

/-!
# The invariant of the wait lists

A node waits, in the list of its location, until a `Wake` clears its flag `waiting`. From then on it
awaits the thread that completes its wait: a synchronous wait goes through the rest of its loop, and
the promise of an asynchronous one is in the list of its isolate, or among those that the thread of
the isolate is resolving. No other step clears the flag of a node that is still awaited.

## Main definitions

* `WebTSan.FutexState.WellFormed`: the invariant of the wait lists.
* `WebTSan.FutexState.Awaits`: a wait that may still complete with `ok`.
* `WebTSan.FutexState.Wakes`, `WebTSan.FutexState.Spares`: what `Wake` and what the other steps do
  to the waits.

## Main results

* `WebTSan.FutexState.WellFormed.exec`: every step keeps the invariant.
* `WebTSan.FutexState.exec_awaits`: only `Wake` ends the waiting of a node that is still awaited.
* `WebTSan.FutexState.exec_detector`: a step makes at most one call into the detector.
* `WebTSan.FutexState.completes_ok`: the steps that complete a wait with `ok`.
-/

namespace WebTSan

/-- The thread is in the loop of `WaitSyncImpl`. -/
def FutexPc.loops : FutexPc → Bool
  | .waiting .. => true
  | _ => false

/-- The location of a synchronous wait that may still end with `ok`. -/
def FutexPc.waitsOn : FutexPc → Option ℕ
  | .waiting loc .. | .finishing loc .ok => some loc
  | _ => none

namespace FutexState

/-- The promise of a node is going to be resolved. -/
def Notified (s : FutexState) (n : NodeId) : Prop :=
  (∃ a, n ∈ s.promisesToResolve a) ∨ ∃ a nodes, s.pc a = .resolving nodes ∧ n ∈ nodes

section Effects

variable (s : FutexState) (n : NodeId) (x : FutexNode) (st : AsyncState) (a : Isolate)
  (pc : FutexPc)

@[simp] theorem setNode_node : (s.setNode n x).node = Function.update s.node n x := rfl

@[simp] theorem setPc_pc : (s.setPc a pc).pc = Function.update s.pc a pc := rfl

@[simp] theorem setPc_node : (s.setPc a pc).node = s.node := rfl

theorem notifyAsyncWaiter_node : (s.notifyAsyncWaiter n st).node = Function.update s.node n
    { s.node n with asyncState := some { st with hasTimeoutTime := false } } := rfl

theorem notifyAsyncWaiter_promisesToResolve : (s.notifyAsyncWaiter n st).promisesToResolve =
    Function.update s.promisesToResolve st.isolateForAsyncWaiters
      (s.promisesToResolve st.isolateForAsyncWaiters ++ [n]) := rfl

variable {s n st}

theorem mem_removeNode {m : NodeId} {loc : ℕ} : m ∈ (s.removeNode n).locationLists loc ↔
    m ∈ s.locationLists loc ∧ (loc = (s.node n).waitLocation → m ≠ n) := by
  unfold removeNode
  dsimp only
  by_cases hloc : loc = (s.node n).waitLocation
  · subst hloc
    simp
  · simp [hloc]

theorem mem_addNode {m : NodeId} {loc : ℕ} : m ∈ (s.addNode n).locationLists loc ↔
    m ∈ s.locationLists loc ∨ m = n ∧ loc = (s.node n).waitLocation := by
  unfold addNode
  dsimp only
  by_cases hloc : loc = (s.node n).waitLocation
  · subst hloc
    simp
  · simp [hloc]

theorem Notified.of_notifyAsyncWaiter {m : NodeId} (h : (s.notifyAsyncWaiter n st).Notified m) :
    m = n ∨ s.Notified m := by
  rcases h with ⟨a, hm⟩ | hm
  · rw [notifyAsyncWaiter_promisesToResolve] at hm
    by_cases ha : a = st.isolateForAsyncWaiters
    · subst ha
      rw [Function.update_self] at hm
      rcases List.mem_append.mp hm with hm | hm
      · exact .inr (.inl ⟨_, hm⟩)
      · exact .inl (List.mem_singleton.mp hm)
    · rw [Function.update_of_ne ha] at hm
      exact .inr (.inl ⟨a, hm⟩)
  · exact .inr (.inr hm)

end Effects

/-- The invariant of the wait lists. -/
structure WellFormed (s : FutexState) : Prop where
  /-- The nodes in the list of a location wait on it. -/
  listed {n : NodeId} {loc : ℕ} (h : n ∈ s.locationLists loc) :
    (s.node n).waitLocation = loc ∧ loc ≠ 0
  queued {a : Isolate} {loc : ℕ} (h : NodeId.sync a ∈ s.locationLists loc) :
    (s.pc a).loops = true
  created {id loc : ℕ} (h : NodeId.async id ∈ s.locationLists loc) : id < s.nextAsync
  location {a : Isolate} {loc : ℕ} (h : (s.pc a).waitsOn = some loc) :
    (s.node (.sync a)).waitLocation = loc
  resting {a : Isolate} (h : (s.pc a).loops = false) : (s.node (.sync a)).waiting = false
  notified {n : NodeId} (h : s.Notified n) :
    (s.node n).waiting = false ∧ (s.node n).waitLocation ≠ 0 ∧ ∃ id < s.nextAsync, n = .async id
  timeout {n : NodeId} {st : AsyncState} (h : (s.node n).asyncState = some st)
    (hw : (s.node n).waiting = true) (ht : st.hasTimeoutTask = true) : st.hasTimeoutTime = true
  sync (a : Isolate) : (s.node (.sync a)).asyncState = none

/-- A node changes no more than that its wait ends, or that its time-out is cancelled. -/
structure Settles (x x' : FutexNode) : Prop where
  waitLocation : x'.waitLocation = x.waitLocation
  waiting : x'.waiting = true → x.waiting = true
  asyncState {st'} : x'.asyncState = some st' → ∃ st, x.asyncState = some st ∧
    (x'.waiting = true → st'.hasTimeoutTask = true → st.hasTimeoutTask = true) ∧
    (x'.waiting = true → st.hasTimeoutTime = true → st'.hasTimeoutTime = true)

theorem mem_of_mem_update_nil {lists : Isolate → List NodeId} {a b : Isolate} {n : NodeId}
    (h : n ∈ Function.update lists a [] b) : n ∈ lists b := by
  by_cases hb : b = a
  · subst hb
    rw [Function.update_self] at h
    cases h
  · rwa [Function.update_of_ne hb] at h

theorem Settles.refl (x : FutexNode) : Settles x x :=
  ⟨rfl, id, fun {st} hst ↦ ⟨st, hst, fun _ ↦ id, fun _ ↦ id⟩⟩

namespace WellFormed

variable {s : FutexState} (h : s.WellFormed)
include h

theorem setPc {a : Isolate} {pc : FutexPc}
    (hqueued : ∀ {loc}, NodeId.sync a ∈ s.locationLists loc → pc.loops = true)
    (hlocation : ∀ {loc}, pc.waitsOn = some loc → (s.node (.sync a)).waitLocation = loc)
    (hresting : pc.loops = false → (s.node (.sync a)).waiting = false)
    (hnotified : ∀ {nodes}, pc = .resolving nodes → ∀ n ∈ nodes, s.Notified n) :
    (s.setPc a pc).WellFormed where
  listed := h.listed
  queued {b loc} hb := by
    by_cases hba : b = a
    · subst hba
      simpa [FutexState.setPc] using hqueued hb
    · simpa [FutexState.setPc, hba] using h.queued hb
  created := h.created
  location {b loc} hb := by
    by_cases hba : b = a
    · subst hba
      exact hlocation (by simpa [FutexState.setPc] using hb)
    · exact h.location (by simpa [FutexState.setPc, hba] using hb)
  resting {b} hb := by
    by_cases hba : b = a
    · subst hba
      exact hresting (by simpa [FutexState.setPc] using hb)
    · exact h.resting (by simpa [FutexState.setPc, hba] using hb)
  notified {n} hn := by
    refine h.notified ?_
    rcases hn with hn | ⟨b, nodes, hb, hn⟩
    · exact .inl hn
    · by_cases hba : b = a
      · subst hba
        exact hnotified (by simpa [FutexState.setPc] using hb) n hn
      · exact .inr ⟨b, nodes, by simpa [FutexState.setPc, hba] using hb, hn⟩
  timeout := h.timeout
  sync := h.sync

/-- Waits may end, and time-outs may be cancelled. -/
theorem settle {node : NodeId → FutexNode} (hnode : ∀ n, Settles (s.node n) (node n)) :
    { s with node := node }.WellFormed := by
  have hfalse {n : NodeId} (hn : (s.node n).waiting = false) : (node n).waiting = false := by
    have hw := mt (hnode n).waiting
    simpa [hn] using hw
  constructor
  case listed =>
    intro n loc hn
    exact (hnode n).waitLocation ▸ h.listed hn
  case queued => exact h.queued
  case created => exact h.created
  case location =>
    intro a loc ha
    exact (hnode _).waitLocation ▸ h.location ha
  case resting =>
    intro a ha
    exact hfalse (h.resting ha)
  case notified =>
    intro n hn
    obtain ⟨hw, hloc, hid⟩ := h.notified hn
    exact ⟨hfalse hw, (hnode n).waitLocation ▸ hloc, hid⟩
  case timeout =>
    intro n st' hst' hw ht
    obtain ⟨st, hst, htask, htime⟩ := (hnode n).asyncState hst'
    exact htime hw (h.timeout hst ((hnode n).waiting hw) (htask hw ht))
  case sync =>
    intro a
    refine Option.eq_none_iff_forall_ne_some.mpr fun st' hst' ↦ ?_
    obtain ⟨st, hst, -⟩ := (hnode (.sync a)).asyncState hst'
    rw [h.sync a] at hst
    cases hst

theorem setNode {n : NodeId} {x : FutexNode} (hx : Settles (s.node n) x) :
    (s.setNode n x).WellFormed := by
  refine h.settle fun m ↦ ?_
  by_cases hm : m = n
  · subst hm
    rwa [Function.update_self]
  · rw [Function.update_of_ne hm]
    exact .refl _

/-- Lists may lose nodes. -/
theorem subset {lists : ℕ → List NodeId} {promises : Isolate → List NodeId}
    (hlists : ∀ loc, lists loc ⊆ s.locationLists loc)
    (hpromises : ∀ a, ∀ n ∈ promises a, s.Notified n) :
    { s with locationLists := lists, promisesToResolve := promises }.WellFormed where
  listed hn := h.listed (hlists _ hn)
  queued hn := h.queued (hlists _ hn)
  created hn := h.created (hlists _ hn)
  location := h.location
  resting := h.resting
  notified {n} hn := by
    refine h.notified ?_
    rcases hn with ⟨a, hn⟩ | hn
    · exact hpromises a n hn
    · exact .inr hn
  timeout := h.timeout
  sync := h.sync

theorem removeNode (n : NodeId) : (s.removeNode n).WellFormed :=
  h.subset (fun _ _ hm ↦ (mem_removeNode.mp hm).1) fun a _ hm ↦ .inl ⟨a, hm⟩

theorem notifyAsyncWaiter {n : NodeId} {st : AsyncState} (hst : (s.node n).asyncState = some st)
    (hwait : (s.node n).waiting = false) (hloc : (s.node n).waitLocation ≠ 0)
    (hid : ∃ id < s.nextAsync, n = .async id) : (s.notifyAsyncWaiter n st).WellFormed := by
  have hnode : Settles (s.node n)
      { s.node n with asyncState := some { st with hasTimeoutTime := false } } := by
    refine ⟨rfl, id, fun {st'} hst' ↦ ⟨st, hst, fun hw ↦ ?_, fun hw ↦ ?_⟩⟩ <;>
      exact absurd (hwait.symm.trans hw) Bool.false_ne_true
  have h' := (h.setNode hnode).removeNode n
  refine { h' with notified := fun {m} hm ↦ ?_ }
  rcases hm.of_notifyAsyncWaiter with rfl | hm
  · refine ⟨?_, ?_, hid⟩ <;> simpa [notifyAsyncWaiter_node]
  · exact h'.notified hm

theorem wakeNode {n : NodeId} {loc : ℕ} (hn : n ∈ s.locationLists loc) :
    (s.wakeNode n).WellFormed := by
  have hnode : Settles (s.node n) { s.node n with waiting := false } :=
    ⟨rfl, nofun, fun {st} hst ↦ ⟨st, hst, nofun, nofun⟩⟩
  have h' := h.setNode hnode
  unfold FutexState.wakeNode
  dsimp only
  split
  · exact h'
  · next st hst =>
    refine h'.notifyAsyncWaiter hst (by simp [FutexState.setNode]) ?_ ?_
    · simpa [FutexState.setNode, (h.listed hn).1] using (h.listed hn).2
    · cases n with
      | sync a =>
        rw [h'.sync a] at hst
        cases hst
      | async id => exact ⟨id, h.created hn, rfl⟩

theorem discardNode {n : NodeId} {loc : ℕ} {st : AsyncState} (hn : n ∈ s.locationLists loc)
    (hst : (s.node n).asyncState = some st) : (s.discardNode n st).WellFormed := by
  have hnode : Settles (s.node n) { s.node n with
      waiting := false, asyncState := some { st with waitingForMainThreadCleanup := true } } :=
    ⟨rfl, nofun, fun _ ↦ ⟨st, hst, nofun, nofun⟩⟩
  refine (h.setNode hnode).notifyAsyncWaiter ?_ ?_ ?_ ?_
  · simp [FutexState.setNode]
  · simp [FutexState.setNode]
  · simpa [FutexState.setNode, (h.listed hn).1] using (h.listed hn).2
  · cases n with
    | sync a =>
      rw [h.sync a] at hst
      cases hst
    | async id => exact ⟨id, h.created hn, rfl⟩

end WellFormed

/-- What waking some of the nodes of a location does. -/
structure Wakes (loc : ℕ) (s s' : FutexState) : Prop where
  detector : s'.detector = s.detector
  pc : s'.pc = s.pc
  waitLocation (n : NodeId) : (s'.node n).waitLocation = (s.node n).waitLocation
  locationLists (loc' : ℕ) : s'.locationLists loc' ⊆ s.locationLists loc'
  cleared {n : NodeId} (h : (s.node n).waiting = true) (h' : (s'.node n).waiting = false) :
    n ∈ s.locationLists loc
  waiting {n : NodeId} (h : (s'.node n).waiting = true) : (s.node n).waiting = true ∧
    (n ∈ s.locationLists loc → n ∈ s'.locationLists loc)
  notified {n : NodeId} (h : s'.Notified n) : s.Notified n ∨ (s.node n).waiting = true

namespace Wakes

variable {loc : ℕ} {s s' s'' : FutexState}

theorem refl (loc : ℕ) (s : FutexState) : Wakes loc s s where
  detector := rfl
  pc := rfl
  waitLocation _ := rfl
  locationLists _ := List.Subset.refl _
  cleared h h' := absurd (h.symm.trans h') (by decide)
  waiting h := ⟨h, id⟩
  notified := .inl

theorem trans (h : Wakes loc s s') (h' : Wakes loc s' s'') : Wakes loc s s'' where
  detector := h'.detector.trans h.detector
  pc := h'.pc.trans h.pc
  waitLocation n := (h'.waitLocation n).trans (h.waitLocation n)
  locationLists loc' := List.Subset.trans (h'.locationLists loc') (h.locationLists loc')
  cleared {n} hw hw'' := by
    cases hw' : (s'.node n).waiting with
    | true => exact h.locationLists loc (h'.cleared hw' hw'')
    | false => exact h.cleared hw hw'
  waiting hw'' := by
    obtain ⟨hw', hlist'⟩ := h'.waiting hw''
    obtain ⟨hw, hlist⟩ := h.waiting hw'
    exact ⟨hw, hlist' ∘ hlist⟩
  notified hn'' := by
    rcases h'.notified hn'' with hn' | hw'
    · exact h.notified hn'
    · exact .inr (h.waiting hw').1

/-- Clearing the flag of a node, which may become notified and leave its list. -/
theorem single {n : NodeId} (hn : n ∈ s.locationLists loc) (hw : (s.node n).waiting = true)
    (hdetector : s'.detector = s.detector) (hpc : s'.pc = s.pc)
    (hloc : (s'.node n).waitLocation = (s.node n).waitLocation)
    (hwait : (s'.node n).waiting = false) (hnode : ∀ m ≠ n, s'.node m = s.node m)
    (hlist : ∀ loc', s'.locationLists loc' ⊆ s.locationLists loc')
    (hkeep : ∀ m ≠ n, m ∈ s.locationLists loc → m ∈ s'.locationLists loc)
    (hnotified : ∀ m, s'.Notified m → m = n ∨ s.Notified m) : Wakes loc s s' where
  detector := hdetector
  pc := hpc
  waitLocation m := by
    by_cases hm : m = n
    · exact hm ▸ hloc
    · rw [hnode m hm]
  locationLists := hlist
  cleared {m} h h' := by
    by_cases hm : m = n
    · exact hm ▸ hn
    · rw [hnode m hm, h] at h'
      cases h'
  waiting {m} h := by
    have hm : m ≠ n := by
      rintro rfl
      rw [hwait] at h
      cases h
    exact ⟨hnode m hm ▸ h, hkeep m hm⟩
  notified {m} h := by
    rcases hnotified m h with rfl | hm
    · exact .inr hw
    · exact .inl hm

end Wakes

theorem wakes_wakeNode {s : FutexState} {n : NodeId} {loc : ℕ} (hn : n ∈ s.locationLists loc)
    (hw : (s.node n).waiting = true) : Wakes loc s (s.wakeNode n) := by
  unfold wakeNode
  dsimp only
  split
  · exact .single hn hw rfl rfl (by simp) (by simp) (fun m hm ↦ by simp [hm])
      (fun _ ↦ List.Subset.refl _) (fun _ _ ↦ id) fun _ ↦ .inr
  · next st hst =>
    refine .single hn hw rfl rfl ?_ ?_ (fun m hm ↦ ?_) (fun _ _ hm ↦ (mem_removeNode.mp hm).1)
      (fun m hm hlist ↦ mem_removeNode.mpr ⟨hlist, fun _ ↦ hm⟩)
      fun m ↦ Notified.of_notifyAsyncWaiter
    · simp [notifyAsyncWaiter_node]
    · simp [notifyAsyncWaiter_node]
    · simp [notifyAsyncWaiter_node, hm]

theorem wakes_discardNode {s : FutexState} {n : NodeId} {loc : ℕ} (hn : n ∈ s.locationLists loc)
    (hw : (s.node n).waiting = true) (st : AsyncState) : Wakes loc s (s.discardNode n st) := by
  refine .single hn hw rfl rfl ?_ ?_ (fun m hm ↦ ?_) (fun _ _ hm ↦ (mem_removeNode.mp hm).1)
    (fun m hm hlist ↦ mem_removeNode.mpr ⟨hlist, fun _ ↦ hm⟩) fun m ↦ Notified.of_notifyAsyncWaiter
  · simp [discardNode, notifyAsyncWaiter_node]
  · simp [discardNode, notifyAsyncWaiter_node]
  · simp [discardNode, notifyAsyncWaiter_node, hm]

/-- The loop of `Wake` keeps the invariant, and only wakes nodes of its location. -/
theorem WellFormed.wakeLoop {s : FutexState} (h : s.WellFormed) {loc : ℕ} {nodes : List NodeId}
    (hnodes : ∀ n ∈ nodes, (s.node n).waiting = true → n ∈ s.locationLists loc) (count : ℕ) :
    (s.wakeLoop nodes count).2.WellFormed ∧ Wakes loc s (s.wakeLoop nodes count).2 := by
  induction nodes generalizing s count with
  | nil => exact ⟨h, .refl loc s⟩
  | cons n nodes ih =>
    have htail := fun m hm ↦ hnodes m (List.mem_cons_of_mem n hm)
    unfold FutexState.wakeLoop
    dsimp only
    by_cases hcount : count = 0
    · rw [if_pos hcount]
      exact ⟨h, .refl loc s⟩
    rw [if_neg hcount]
    by_cases hwait : (s.node n).waiting = false
    · rw [if_pos hwait]
      exact ih h htail count
    rw [if_neg hwait]
    rw [Bool.not_eq_false] at hwait
    have hn := hnodes n List.mem_cons_self hwait
    have hwake := wakes_wakeNode hn hwait
    have hrest (count' : ℕ) : ((s.wakeNode n).wakeLoop nodes count').2.WellFormed ∧
        Wakes loc s ((s.wakeNode n).wakeLoop nodes count').2 := by
      refine (ih (h.wakeNode hn) (fun m hm hw ↦ ?_) count').imp_right hwake.trans
      obtain ⟨hw', hkeep⟩ := hwake.waiting hw
      exact hkeep (htail m hm hw')
    generalize (if count = kWakeAll then count else count - 1) = count'
    split
    · exact hrest count'
    · next st hst =>
      split_ifs with hexpired htime
      · exact hrest count'
      · exact ⟨h.discardNode hn hst, wakes_discardNode hn hwait st⟩
      · exact ih h htail count

namespace WellFormed

variable {s s' : FutexState}

/-- Between two steps of a thread, the mutex, the tids and the detector are not looked at. -/
theorem frame (h : s.WellFormed) (d : Detector) (tids : Isolate → Option Tid)
    (holder : Option Isolate) :
    { s with detector := d, currentTid := tids, mutexHolder := holder }.WellFormed :=
  ⟨h.listed, h.queued, h.created, h.location, h.resting, h.notified, h.timeout, h.sync⟩

/-- A thread goes on outside of the wait loop. -/
theorem setPc_of_not_loops (h : s.WellFormed) {a : Isolate} (ha : (s.pc a).loops = false)
    {pc : FutexPc} (hpc : pc.waitsOn = none)
    (hnotified : ∀ {nodes}, pc = .resolving nodes → ∀ n ∈ nodes, s.Notified n) :
    (s.setPc a pc).WellFormed := by
  refine h.setPc (fun hmem ↦ ?_) (fun hloc ↦ ?_) (fun _ ↦ h.resting ha) hnotified
  · exact absurd (ha.symm.trans (h.queued hmem)) (by decide)
  · rw [hpc] at hloc
    cases hloc

/-- A thread goes on inside of the wait loop. -/
theorem setPc_waiting (h : s.WellFormed) {a : Isolate} {loc : ℕ} {useTimeout : Bool}
    {phase : WaitPhase} (ha : s.pc a = .waiting loc useTimeout phase) (phase' : WaitPhase) :
    (s.setPc a (.waiting loc useTimeout phase')).WellFormed := by
  refine h.setPc (fun _ ↦ rfl) (fun hloc ↦ h.location ?_) nofun nofun
  rwa [ha]

theorem finishWait (h : s.WellFormed) {a : Isolate} {loc : ℕ} {useTimeout : Bool}
    {phase : WaitPhase} (ha : s.pc a = .waiting loc useTimeout phase) (result : WaitResult) :
    (s.finishWait a loc result).WellFormed := by
  have hnode : Settles (s.node (.sync a)) { s.node (.sync a) with waiting := false } :=
    ⟨rfl, nofun, fun {st} hst ↦ ⟨st, hst, nofun, nofun⟩⟩
  have h' := (h.setNode hnode).removeNode (.sync a)
  refine h'.setPc (fun {loc'} hmem ↦ ?_) (fun {loc'} hloc ↦ ?_) (fun _ ↦ ?_) nofun
  · obtain ⟨hmem, hne⟩ := mem_removeNode.mp hmem
    exact absurd rfl (hne ((h.setNode hnode).listed hmem).1.symm)
  · have hwaits : (s.pc a).waitsOn = some loc := by rw [ha]; rfl
    have hloc' : loc = loc' := by
      cases result <;> simp_all [FutexPc.waitsOn]
    subst hloc'
    simpa [FutexState.removeNode] using h.location hwaits
  · simp [FutexState.removeNode]

/-- A node that is on no list starts to wait. -/
theorem addNode (h : s.WellFormed) (pc : Isolate → FutexPc) {n : NodeId} {x : FutexNode}
    (hloc : x.waitLocation ≠ 0)
    (hn : ∀ loc, n ∉ s.locationLists loc) (hnot : ¬s.Notified n)
    (htimeout : ∀ {st}, x.asyncState = some st → st.hasTimeoutTask = true →
      st.hasTimeoutTime = true)
    (hsync : ∀ a, n = .sync a → x.asyncState = none)
    (hpc : ∀ a, n = .sync a ∧ (pc a).loops = true ∧ (pc a).waitsOn = some x.waitLocation ∨
      n ≠ .sync a ∧ pc a = s.pc a)
    (hasync : ∀ id, n = .async id → id < s.nextAsync)
    (hnotified : { s with pc := pc }.Notified = s.Notified) :
    ({ s with pc := pc }.setNode n x |>.addNode n).WellFormed := by
  have hmem {m : NodeId} {loc : ℕ}
      (hm : m ∈ ({ s with pc := pc }.setNode n x |>.addNode n).locationLists loc) :
      m = n ∧ loc = x.waitLocation ∨ m ≠ n ∧ m ∈ s.locationLists loc := by
    rcases mem_addNode.mp hm with hm | ⟨rfl, rfl⟩
    · refine .inr ⟨?_, hm⟩
      rintro rfl
      exact hn loc hm
    · exact .inl ⟨rfl, by simp⟩
  have hself : ({ s with pc := pc }.setNode n x |>.addNode n).node n = x := Function.update_self ..
  have hother {m : NodeId} (hm : m ≠ n) :
      ({ s with pc := pc }.setNode n x |>.addNode n).node m = s.node m :=
    Function.update_of_ne hm ..
  constructor
  case listed =>
    intro m loc hm
    rcases hmem hm with ⟨rfl, rfl⟩ | ⟨hne, hm⟩
    · rw [hself]
      exact ⟨rfl, hloc⟩
    · rw [hother hne]
      exact h.listed hm
  case queued =>
    intro a loc hm
    rcases hmem hm with ⟨rfl, -⟩ | ⟨hne, hm⟩
    · rcases hpc a with ⟨-, hloops, -⟩ | ⟨hne, -⟩
      · exact hloops
      · exact absurd rfl hne
    · rcases hpc a with ⟨rfl, -⟩ | ⟨-, ha⟩
      · exact absurd rfl hne
      · exact (congrArg FutexPc.loops ha).trans (h.queued hm)
  case created =>
    intro id loc hm
    rcases hmem hm with ⟨hid, -⟩ | ⟨-, hm⟩
    · exact hasync id hid.symm
    · exact h.created hm
  case location =>
    intro a loc ha
    rcases hpc a with ⟨rfl, -, hwaits⟩ | ⟨hne, hsame⟩
    · rw [hself]
      exact Option.some.inj (hwaits.symm.trans ha)
    · rw [hother hne.symm]
      exact h.location ((congrArg FutexPc.waitsOn hsame).symm.trans ha)
  case resting =>
    intro a ha
    rcases hpc a with ⟨-, hloops, -⟩ | ⟨hne, hsame⟩
    · exact absurd (ha.symm.trans hloops) (by decide)
    · rw [hother hne.symm]
      exact h.resting ((congrArg FutexPc.loops hsame).symm.trans ha)
  case notified =>
    intro m hm
    have hm : s.Notified m := hnotified ▸ hm
    rw [hother fun hne ↦ hnot (hne ▸ hm)]
    exact h.notified hm
  case timeout =>
    intro m st hst hw ht
    by_cases hm : m = n
    · subst hm
      rw [hself] at hst
      exact htimeout hst ht
    · rw [hother hm] at hst hw
      exact h.timeout hst hw ht
  case sync =>
    intro a
    by_cases hm : NodeId.sync a = n
    · rw [hm, hself]
      exact hsync a hm.symm
    · rw [hother hm]
      exact h.sync a

/-- A thread that is not in the wait loop is on no list, and has no promise to wait for. -/
theorem not_listed (h : s.WellFormed) {a : Isolate} (ha : (s.pc a).loops = false) (loc : ℕ) :
    NodeId.sync a ∉ s.locationLists loc := fun hmem ↦
  absurd (ha.symm.trans (h.queued hmem)) (by decide)

theorem startWait (h : s.WellFormed) {a : Isolate} (ha : s.pc a = .idle) {loc : ℕ} (hloc : loc ≠ 0)
    (useTimeout : Bool) :
    ((s.startWait a loc).setPc a (.waiting loc useTimeout .loop)).WellFormed := by
  refine h.addNode (Function.update s.pc a (.waiting loc useTimeout .loop)) (n := .sync a)
    (x := { s.node (.sync a) with waitLocation := loc, waiting := true }) hloc
    (h.not_listed (by rw [ha]; rfl)) (fun hnot ↦ ?_)
    (fun hst ↦ ?_) (fun _ _ ↦ h.sync a) (fun b ↦ ?_) nofun ?_
  · obtain ⟨-, -, id, -, hid⟩ := h.notified hnot
    cases hid
  · rw [h.sync a] at hst
    cases hst
  · by_cases hb : b = a
    · subst hb
      exact .inl (by simp [FutexPc.loops, FutexPc.waitsOn])
    · refine .inr ⟨fun hab ↦ hb (NodeId.sync.inj hab).symm, by simp [hb]⟩
  · funext n
    have hpc (b : Isolate) (nodes : List NodeId) :
        Function.update s.pc a (.waiting loc useTimeout .loop) b = .resolving nodes ↔
          s.pc b = .resolving nodes := by
      by_cases hb : b = a
      · subst hb
        simp [ha]
      · simp [hb]
    simp only [Notified, hpc]

theorem startAsync (h : s.WellFormed) (a : Isolate) {loc : ℕ} (hloc : loc ≠ 0)
    (useTimeout : Bool) : (s.startAsync a loc useTimeout).WellFormed := by
  have hs : { s with nextAsync := s.nextAsync + 1 }.WellFormed :=
    { h with
      created := fun hm ↦ (h.created hm).trans (Nat.lt_succ_self _)
      notified := fun hn ↦ by
        obtain ⟨hw, hl, id, hid, rfl⟩ := h.notified hn
        exact ⟨hw, hl, id, hid.trans (Nat.lt_succ_self _), rfl⟩ }
  refine hs.addNode s.pc (n := .async s.nextAsync) hloc (fun _ hm ↦ ?_) (fun hn ↦ ?_)
    (fun hst ↦ ?_) nofun (fun b ↦ .inr ⟨nofun, rfl⟩) (fun id hid ↦ ?_) rfl
  · exact absurd (h.created hm) (Nat.lt_irrefl _)
  · obtain ⟨-, -, id, hid, hn⟩ := h.notified hn
    obtain rfl := NodeId.async.inj hn
    exact Nat.lt_irrefl _ hid
  · obtain rfl := Option.some.inj hst
    exact id
  · obtain rfl := NodeId.async.inj hid
    exact Nat.lt_succ_self _

theorem initial : FutexState.initial.WellFormed where
  listed := nofun
  queued := nofun
  created := nofun
  location := nofun
  resting _ := rfl
  notified hn := by
    rcases hn with ⟨a, hn⟩ | ⟨a, nodes, ha, -⟩
    · cases hn
    · cases ha
  timeout := nofun
  sync _ := rfl

variable {s s' : FutexState}

theorem settles_cancelTimeoutTask (s : FutexState) (n : NodeId) :
    Settles (s.node n) (s.cancelTimeoutTask n) := by
  refine ⟨rfl, id, fun {st'} hst' ↦ ?_⟩
  obtain ⟨st, hst, rfl⟩ := Option.map_eq_some_iff.mp hst'
  exact ⟨st, hst, fun _ ↦ nofun, fun _ ↦ id⟩

/-- The critical section of `Wake` wakes nodes of the location of the call. -/
theorem wake (h : s.WellFormed) (loc count : ℕ) :
    (s.wakeLoop (s.locationLists loc) count).2.WellFormed ∧
      Wakes loc s (s.wakeLoop (s.locationLists loc) count).2 :=
  h.wakeLoop (fun _ hn _ ↦ hn) count

/-- Every step keeps the invariant. -/
theorem exec (h : s.WellFormed) {o : FutexStep} (hs : s.exec o = some s') : s'.WellFormed := by
  cases step_of_exec hs with
  | setTid => exact h.frame s.detector _ s.mutexHolder
  | call => exact h.frame _ s.currentTid s.mutexHolder
  | expire =>
    refine h.setNode ⟨rfl, id, fun {st'} hst' ↦ ?_⟩
    obtain ⟨st, hst, rfl⟩ := Option.map_eq_some_iff.mp hst'
    exact ⟨st, hst, fun _ ↦ id, fun _ ↦ id⟩
  | notify ha => exact (h.frame _ _ _).setPc_of_not_loops (by simp [ha, FutexPc.loops]) rfl nofun
  | @wake a loc count ha =>
    obtain ⟨h', hwakes⟩ := h.wake loc count
    exact h'.setPc_of_not_loops (by rw [hwakes.pc, ha]; rfl) rfl nofun
  | startWait ha hmutex hloc => exact (h.startWait ha hloc _).frame _ _ _
  | notEqual ha =>
    exact (h.frame _ _ _).setPc_of_not_loops (by simp [ha, FutexPc.loops]) rfl nofun
  | @interrupted a loc useTimeout timeOver ha =>
    have hnode : Settles (s.node (.sync a)) { s.node (.sync a) with interrupted := false } :=
      ⟨rfl, id, fun {st} hst ↦ ⟨st, hst, fun _ ↦ id, fun _ ↦ id⟩⟩
    exact ((h.setNode hnode).frame s.detector s.currentTid none).setPc_waiting ha .interrupts
  | woken ha => exact h.finishWait ha .ok
  | timedOut ha => exact h.finishWait ha .timedOut
  | block ha => exact (h.frame s.detector s.currentTid none).setPc_waiting ha .blocked
  | @resume a _ _ ha => exact (h.frame s.detector s.currentTid (some a)).setPc_waiting ha .loop
  | notifyWake => exact h.setNode ⟨rfl, id, fun {st} hst ↦ ⟨st, hst, fun _ ↦ id, fun _ ↦ id⟩⟩
  | @threw a _ _ ha => exact (h.frame s.detector s.currentTid (some a)).finishWait ha .exception
  | @handled a _ _ ha => exact (h.frame s.detector s.currentTid (some a)).setPc_waiting ha .loop
  | waitComplete ha =>
    exact (h.frame _ _ _).setPc_of_not_loops (by simp [ha, FutexPc.loops]) rfl nofun
  | immediate => exact h
  | startAsync ha hmutex hloc => exact h.startAsync _ hloc _
  | @takePromises a ha =>
    have h' : (s.setPc a (.resolving (s.promisesToResolve a))).WellFormed :=
      h.setPc_of_not_loops (by simp [ha, FutexPc.loops]) rfl fun hnodes n hn ↦
        .inl ⟨a, by rwa [FutexPc.resolving.inj hnodes]⟩
    exact h'.subset (fun _ ↦ List.Subset.refl _) fun b n hn ↦ .inl ⟨b, mem_of_mem_update_nil hn⟩
  | resolved ha => exact h.setPc_of_not_loops (by simp [ha, FutexPc.loops]) rfl nofun
  | @resolveNext a n nodes ha =>
    have h' := (h.setNode (settles_cancelTimeoutTask s n)).frame
      (if (s.node n).waitLocation = 0 then s.detector
        else s.onAtomicsWaitComplete (s.node n).waitLocation (s.currentTid a))
      s.currentTid s.mutexHolder
    refine h'.setPc_of_not_loops (by simp [FutexState.setNode, ha, FutexPc.loops]) rfl
      fun hnodes m hm ↦ .inr ⟨a, n :: nodes, ha, ?_⟩
    rw [FutexPc.resolving.inj hnodes]
    exact List.mem_cons_of_mem n hm
  | wokenInTime => exact h.setNode (settles_cancelTimeoutTask s _)
  | asyncTimeout => exact (h.setNode (settles_cancelTimeoutTask s _)).removeNode _
  | @isolateDeinit a =>
    have h' : { s with
        node := fun n ↦ if s.belongsTo n a then s.cancelTimeoutTask n else s.node n
        }.WellFormed := by
      refine h.settle fun n ↦ ?_
      split_ifs
      · exact settles_cancelTimeoutTask s n
      · exact .refl _
    exact h'.subset (fun _ _ hn ↦ List.mem_of_mem_filter hn) fun b n hn ↦
      .inl ⟨b, mem_of_mem_update_nil hn⟩

end WellFormed

/-- The wait of a node has begun and may still complete with `ok`. -/
def Awaits (s : FutexState) (n : NodeId) : Prop :=
  (∃ a loc, n = .sync a ∧ (s.pc a).waitsOn = some loc) ∨ s.Notified n

section Awaits

variable {s s' : FutexState} {o : FutexStep} {n : NodeId}

theorem Awaits.of_setPc {a : Isolate} {pc : FutexPc} (h : (s.setPc a pc).Awaits n)
    (hwaits : ∀ {loc}, n = .sync a → pc.waitsOn = some loc → (s.pc a).waitsOn = some loc)
    (hnotified : ∀ {nodes}, pc = .resolving nodes → ∀ m ∈ nodes, s.Notified m) : s.Awaits n := by
  rcases h with ⟨b, loc, rfl, hb⟩ | hn | ⟨b, nodes, hb, hn⟩
  · by_cases hba : b = a
    · subst hba
      exact .inl ⟨b, loc, rfl, hwaits rfl (by simpa using hb)⟩
    · exact .inl ⟨b, loc, rfl, by simpa [hba] using hb⟩
  · exact .inr (.inl hn)
  · by_cases hba : b = a
    · subst hba
      exact .inr (hnotified (by simpa using hb) n hn)
    · exact .inr (.inr ⟨b, nodes, by simpa [hba] using hb, hn⟩)

theorem Awaits.of_subset (h : s'.Awaits n) (hpc : s'.pc = s.pc)
    (hpromises : ∀ a, s'.promisesToResolve a ⊆ s.promisesToResolve a) : s.Awaits n := by
  unfold Awaits Notified at *
  rw [hpc] at h
  exact h.imp_right (Or.imp_left fun ⟨a, hn⟩ ↦ ⟨a, hpromises a hn⟩)

/-- The step does not end the waiting of a node that awaits a `Wake`. -/
def Spares (s s' : FutexState) (n : NodeId) : Prop :=
  (s'.node n).waiting = false → (s'.node n).waitLocation = (s.node n).waitLocation ∧
    (s'.Awaits n → (s.node n).waiting = false ∧ s.Awaits n)

theorem Spares.of_eq (hloc : (s'.node n).waitLocation = (s.node n).waitLocation)
    (hwait : (s'.node n).waiting = (s.node n).waiting) (hawaits : s'.Awaits n → s.Awaits n) :
    Spares s s' n :=
  fun hw ↦ ⟨hloc, fun ha ↦ ⟨hwait.symm.trans hw, hawaits ha⟩⟩

/-- A node is replaced by one that waits as before. -/
theorem Spares.of_setNode {m : NodeId} {x : FutexNode}
    (hnode : s'.node = Function.update s.node m x) (hloc : x.waitLocation = (s.node m).waitLocation)
    (hwait : x.waiting = (s.node m).waiting) (hawaits : s'.Awaits n → s.Awaits n) :
    Spares s s' n := by
  refine .of_eq ?_ ?_ hawaits
  · by_cases hn : n = m
    · subst hn
      simpa [hnode] using hloc
    · simp [hnode, hn]
  · by_cases hn : n = m
    · subst hn
      simpa [hnode] using hwait
    · simp [hnode, hn]

theorem spares_finishWait (h : s.WellFormed) {a : Isolate} {loc : ℕ} {useTimeout : Bool}
    {phase : WaitPhase} (ha : s.pc a = .waiting loc useTimeout phase) {result : WaitResult}
    (hresult : result = .ok → (s.node (.sync a)).waiting = false) :
    Spares s (s.finishWait a loc result) n := by
  by_cases hn : n = .sync a
  · subst hn
    intro hw
    refine ⟨by simp [finishWait, removeNode], ?_⟩
    rintro (⟨b, loc', hb, hwaits⟩ | hnot)
    · obtain rfl := NodeId.sync.inj hb
      rw [finishWait, setPc_pc, Function.update_self] at hwaits
      cases result with
      | ok => exact ⟨hresult rfl, .inl ⟨a, loc, rfl, by rw [ha]; rfl⟩⟩
      | _ => cases hwaits
    · obtain ⟨-, -, id, -, hid⟩ := (h.finishWait ha result).notified hnot
      cases hid
  · refine .of_eq ?_ ?_ fun hawaits ↦ ?_
    · simp [finishWait, removeNode, hn]
    · simp [finishWait, removeNode, hn]
    · exact hawaits.of_setPc (fun hna _ ↦ absurd hna hn) nofun

/-- The steps other than the critical section of `Wake`. -/
theorem spares_exec (h : s.WellFormed) (hs : s.exec o = some s') (ho : ∀ a, o ≠ .wake a) :
    Spares s s' n := by
  cases step_of_exec hs with
  | @wake a => exact absurd rfl (ho a)
  | setTid | call => exact .of_eq rfl rfl id
  | expire | notifyWake => exact .of_setNode rfl rfl rfl id
  | notify | notEqual | waitComplete | resolved =>
    exact .of_eq rfl rfl fun hn ↦ hn.of_setPc nofun nofun
  | @startWait a =>
    by_cases hn : n = .sync a
    · subst hn
      intro hw
      simp [startWait, addNode] at hw
    · refine .of_eq ?_ ?_ fun hawaits ↦ ?_
      · simp [startWait, addNode, hn]
      · simp [startWait, addNode, hn]
      · exact hawaits.of_setPc (fun hna _ ↦ absurd hna hn) nofun
  | interrupted ha =>
    refine .of_setNode rfl rfl rfl fun hn ↦ hn.of_setPc (fun _ ↦ ?_) nofun
    simp [setNode, ha, FutexPc.waitsOn]
  | woken ha _ hwait => exact spares_finishWait h ha fun _ ↦ hwait
  | timedOut ha => exact spares_finishWait h ha nofun
  | block ha | resume ha | handled ha =>
    exact .of_eq rfl rfl fun hn ↦ hn.of_setPc (by simp [ha, FutexPc.waitsOn]) nofun
  | @threw a _ _ ha =>
    exact spares_finishWait (h.frame s.detector s.currentTid (some a)) ha nofun
  | immediate => exact .of_eq rfl rfl id
  | startAsync =>
    by_cases hn : n = .async s.nextAsync
    · subst hn
      intro hw
      simp [startAsync, addNode] at hw
    · refine .of_eq ?_ ?_ id
      · simp [startAsync, addNode, hn]
      · simp [startAsync, addNode, hn]
  | @takePromises a =>
    refine .of_eq rfl rfl fun hn ↦ ?_
    have hn' : (s.setPc a (.resolving (s.promisesToResolve a))).Awaits n :=
      hn.of_subset rfl fun _ _ ↦ mem_of_mem_update_nil
    refine hn'.of_setPc nofun fun hnodes m hm ↦ .inl ⟨a, ?_⟩
    rwa [FutexPc.resolving.inj hnodes]
  | @resolveNext a m nodes ha =>
    refine .of_setNode rfl rfl rfl fun hn ↦ hn.of_setPc nofun fun hnodes l hl ↦
      .inr ⟨a, m :: nodes, ha, ?_⟩
    rw [FutexPc.resolving.inj hnodes]
    exact List.mem_cons_of_mem m hl
  | wokenInTime | asyncTimeout => exact .of_setNode rfl rfl rfl id
  | isolateDeinit =>
    refine .of_eq ?_ ?_ fun hn ↦ hn.of_subset rfl fun _ _ ↦ mem_of_mem_update_nil
    · dsimp only
      split_ifs <;> rfl
    · dsimp only
      split_ifs <;> rfl

/-- Only the critical section of `Wake` ends the waiting of a node that is still awaited, and only
of nodes that wait on the location of the call. -/
theorem exec_awaits (h : s.WellFormed) (hs : s.exec o = some s')
    (hw : (s'.node n).waiting = false) (ha : s'.Awaits n) :
    ((s.node n).waiting = false ∧ s.Awaits n) ∨ ∃ a count, o = .wake a ∧
      s.pc a = .waking (s.node n).waitLocation count ∧ (s.node n).waiting = true := by
  by_cases hwake : ∃ a, o = .wake a
  · obtain ⟨a, rfl⟩ := hwake
    cases step_of_exec hs with
    | @wake _ loc count hpc =>
      have hwakes := (h.wake loc count).2
      cases hwait : (s.node n).waiting with
      | true =>
        refine .inr ⟨a, count, rfl, ?_, rfl⟩
        rw [hpc, (h.listed (hwakes.cleared hwait hw)).1]
      | false =>
        refine .inl ⟨rfl, ?_⟩
        rcases ha.of_setPc nofun nofun with ⟨b, loc', hb, hwaits⟩ | hnot
        · exact .inl ⟨b, loc', hb, hwakes.pc ▸ hwaits⟩
        · rcases hwakes.notified hnot with hnot | hwait'
          · exact .inr hnot
          · exact absurd (hwait.symm.trans hwait') (by decide)
  · push Not at hwake
    exact .inl ((spares_exec h hs hwake hw).2 ha)

/-- A node that does not wait keeps its location. -/
theorem exec_waitLocation (h : s.WellFormed) (hs : s.exec o = some s')
    (hw : (s'.node n).waiting = false) : (s'.node n).waitLocation = (s.node n).waitLocation := by
  by_cases hwake : ∃ a, o = .wake a
  · obtain ⟨a, rfl⟩ := hwake
    cases step_of_exec hs with
    | @wake _ loc count => exact (h.wake loc count).2.waitLocation n
  · push Not at hwake
    exact (spares_exec h hs hwake hw).1

end Awaits

section Frames

variable {s s' : FutexState} {o : FutexStep}

/-- A step makes at most one call into the detector. -/
theorem exec_detector (h : s.WellFormed) (he : s.detector.enabled = true)
    (hs : s.exec o = some s') : s'.detector = s.detector ∨
      ∃ d : Op, d.exec s.detector = some s'.detector ∧ (d.erases = none ∨ o = .call d) := by
  have hcomplete (loc : ℕ) (a : Isolate)
      (hd : s'.detector = s.onAtomicsWaitComplete loc (s.currentTid a)) :
      s'.detector = s.detector ∨
        ∃ d : Op, d.exec s.detector = some s'.detector ∧ (d.erases = none ∨ o = .call d) := by
    rw [hd]
    cases s.currentTid a with
    | none => exact .inl rfl
    | some t => exact .inr ⟨.acquire t loc, by simp [Op.exec, onAtomicsWaitComplete, he], .inl rfl⟩
  cases step_of_exec hs with
  | call hd => exact .inr ⟨_, hd, .inr rfl⟩
  | @notify a loc count ha =>
    cases s.currentTid a with
    | none => exact .inl rfl
    | some t => exact .inr ⟨.release t loc, by simp [Op.exec, onAtomicsNotify, setPc, he], .inl rfl⟩
  | @wake a loc count => exact .inl (h.wake loc count).2.detector
  | @waitComplete a loc => exact hcomplete loc a rfl
  | @resolveNext a n =>
    by_cases hloc : (s.node n).waitLocation = 0
    · exact .inl (if_pos hloc)
    · exact hcomplete (s.node n).waitLocation a (if_neg hloc)
  | _ => exact .inl rfl

/-- A step moves at most one thread, and only a call of `Wake` moves one into `Wake`. -/
theorem exec_pc (h : s.WellFormed) (hs : s.exec o = some s') :
    s'.pc = s.pc ∨ ∃ a pc, s'.pc = Function.update s.pc a pc ∧
      ((∃ loc count, o = .notify a loc count ∧ pc = .waking loc count) ∨
        ∀ loc count, pc ≠ .waking loc count) := by
  cases step_of_exec hs with
  | @notify a loc count => exact .inr ⟨a, _, rfl, .inl ⟨loc, count, rfl, rfl⟩⟩
  | @wake a loc count =>
    exact .inr ⟨a, .idle, by rw [setPc_pc, (h.wake loc count).2.pc], .inr nofun⟩
  | setTid | call | expire | notifyWake | immediate | startAsync | wokenInTime | asyncTimeout |
    isolateDeinit => exact .inl rfl
  | _ => exact .inr ⟨_, _, rfl, .inr nofun⟩

/-- A wait completes with `ok` at the end of `WaitSync`, or when its promise is resolved. -/
theorem completes_ok (h : s.WellFormed) (hs : s.exec o = some s') {a : Isolate} {n : NodeId}
    (hc : s.completes o = some (a, n, .ok)) :
    (o = .waitComplete a ∧ n = .sync a ∧ ∃ loc, s.pc a = .finishing loc .ok) ∨
      o = .resolveNext a ∧ ∃ nodes, s.pc a = .resolving (n :: nodes) := by
  cases step_of_exec hs with
  | @waitComplete b loc result hb =>
    simp only [completes, hb, Option.some.injEq, Prod.mk.injEq] at hc
    obtain ⟨rfl, rfl, rfl⟩ := hc
    exact .inl ⟨rfl, rfl, loc, hb⟩
  | @resolveNext b m nodes hb =>
    simp only [completes, hb] at hc
    obtain ⟨result, -, hresult⟩ := Option.map_eq_some_iff.mp hc
    cases hresult
    exact .inr ⟨rfl, nodes, hb⟩
  | resolved hb => simp [completes, hb] at hc
  | wokenInTime _ _ _ _ _ hwait => simp [completes, hwait] at hc
  | asyncTimeout _ _ hst _ htask hwait =>
    -- a node with a time-out that still waits is resolved with `timed-out`
    have htime := h.timeout hst hwait htask
    simp [completes, hwait, hst, AsyncState.promiseResult, htime] at hc
  | _ => cases hc

end Frames

end FutexState
end WebTSan
