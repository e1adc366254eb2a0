import WebTSan.WakeOrder

/-!
# Asynchronous waits are resolved once

The node of an asynchronous wait is on the list of its location until `Wake` moves it to the list of
its isolate, from where `ResolveAsyncWaiterPromises` takes it. In the meantime its time-out task may
run, which takes the node from the list of its location, and its isolate may go away. Whatever the
order of these steps is, at most one of them resolves the promise of the wait, and a node that is on
no list any more went there by one of them.

## Main definitions

* `WebTSan.FutexNode.owner`: the isolate that resolves the promise of a node.
* `WebTSan.FutexState.pendingCount`: how often a node is on the lists.
* `WebTSan.FutexState.Tracked`: the invariant of asynchronous waits.
* `WebTSan.FutexState.Ends`: the steps that take a node from the lists.

## Main results

* `WebTSan.FutexRun.async_resolved_once`: no promise is resolved twice.
* `WebTSan.FutexRun.async_settled`: how a node got off the lists.
-/

namespace WebTSan

/-- The isolate of an asynchronous wait. -/
def FutexNode.owner (x : FutexNode) : Option Isolate :=
  x.asyncState.map AsyncState.isolateForAsyncWaiters

/-- The nodes that a thread is resolving. -/
def FutexPc.nodesLeft : FutexPc → List NodeId
  | .resolving nodes => nodes
  | _ => []

namespace FutexState

/-- How often a node is on the list of its location, and waits for an isolate to resolve its
promise. -/
def pendingCount (s : FutexState) (n : NodeId) (a : Isolate) : ℕ :=
  (s.locationLists (s.node n).waitLocation).count n + (s.promisesToResolve a).count n +
    (s.pc a).nodesLeft.count n

/-- The invariant of asynchronous waits. -/
structure Tracked (s : FutexState) : Prop where
  promised {n : NodeId} {a : Isolate} (h : n ∈ s.promisesToResolve a) : (s.node n).owner = some a
  resolving {n : NodeId} {a : Isolate} (h : n ∈ (s.pc a).nodesLeft) : (s.node n).owner = some a
  /-- A node whose time-out task may still run is on the list of its location. -/
  timed {n : NodeId} {st : AsyncState} (h : (s.node n).asyncState = some st)
    (hw : (s.node n).waiting = true) (ht : st.hasTimeoutTask = true) :
    n ∈ s.locationLists (s.node n).waitLocation

/-- A step takes a node of an isolate from the lists: the next promise is resolved or dropped, the
time-out task runs, or the isolate goes away. -/
inductive Ends (s : FutexState) (n : NodeId) (a : Isolate) : FutexStep → Prop
  | resolveNext {nodes : List NodeId} (h : s.pc a = .resolving (n :: nodes)) :
      Ends s n a (.resolveNext a)
  | asyncTimeout (hw : (s.node n).waiting = true) : Ends s n a (.asyncTimeout a n)
  | isolateDeinit : Ends s n a (.isolateDeinit a)

section Lemmas

variable {s s' : FutexState} {n m : NodeId} {a b : Isolate} {o : FutexStep}

theorem belongsTo_iff : s.belongsTo n a = true ↔ (s.node n).owner = some a := by
  cases hst : (s.node n).asyncState <;> simp [belongsTo, FutexNode.owner, hst]

theorem cancelTimeoutTask_owner : (s.cancelTimeoutTask n).owner = (s.node n).owner := by
  cases hst : (s.node n).asyncState <;> simp [cancelTimeoutTask, FutexNode.owner, hst]

theorem WellFormed.owner_sync (h : s.WellFormed) (a : Isolate) :
    (s.node (.sync a)).owner = none := by
  rw [FutexNode.owner, h.sync a]
  rfl

end Lemmas

namespace Tracked

variable {s s' : FutexState} {n : NodeId} {a : Isolate}

theorem initial : FutexState.initial.Tracked := ⟨nofun, nofun, nofun⟩

/-- Nodes may change as long as they belong to the same isolate. -/
theorem settle (h : s.Tracked) {node : NodeId → FutexNode}
    (hnode : ∀ n, Settles (s.node n) (node n)) (howner : ∀ n, (node n).owner = (s.node n).owner) :
    { s with node := node }.Tracked where
  promised hn := (howner _).trans (h.promised hn)
  resolving hn := (howner _).trans (h.resolving hn)
  timed {n st'} hst' hw ht := by
    obtain ⟨st, hst, htask, -⟩ := (hnode n).asyncState hst'
    exact (hnode n).waitLocation ▸ h.timed hst ((hnode n).waiting hw) (htask hw ht)

theorem setNode (h : s.Tracked) {x : FutexNode} (hx : Settles (s.node n) x)
    (howner : x.owner = (s.node n).owner) : (s.setNode n x).Tracked := by
  refine h.settle (fun m ↦ ?_) fun m ↦ ?_
  · by_cases hm : m = n
    · subst hm
      rwa [Function.update_self]
    · rw [Function.update_of_ne hm]
      exact .refl _
  · by_cases hm : m = n
    · subst hm
      rwa [Function.update_self]
    · rw [Function.update_of_ne hm]

/-- A node without a time-out task that may still run leaves its list. -/
theorem removeNode (h : s.Tracked) (hn : ∀ st, (s.node n).asyncState = some st →
    (s.node n).waiting = true → st.hasTimeoutTask = false) : (s.removeNode n).Tracked where
  promised := h.promised
  resolving := h.resolving
  timed {m st} hst hw ht := by
    refine mem_removeNode.mpr ⟨h.timed hst hw ht, fun _ hm ↦ ?_⟩
    subst hm
    exact absurd ((hn st hst hw).symm.trans ht) (by decide)

theorem setPc (h : s.Tracked) {pc : FutexPc}
    (hleft : ∀ n ∈ pc.nodesLeft, (s.node n).owner = some a) : (s.setPc a pc).Tracked where
  promised := h.promised
  resolving {n b} hn := by
    by_cases hb : b = a
    · subst hb
      exact hleft n (by simpa using hn)
    · exact h.resolving (by simpa [hb] using hn)
  timed := h.timed

/-- The mutex, the tids and the detector are not looked at. -/
theorem frame (h : s.Tracked) (d : Detector) (tids : Isolate → Option Tid)
    (holder : Option Isolate) :
    { s with detector := d, currentTid := tids, mutexHolder := holder }.Tracked :=
  ⟨h.promised, h.resolving, h.timed⟩

theorem finishWait (h : s.Tracked) (hwf : s.WellFormed) (loc : ℕ) (result : WaitResult) :
    (s.finishWait a loc result).Tracked := by
  have hnode : Settles (s.node (.sync a)) { s.node (.sync a) with waiting := false } :=
    ⟨rfl, nofun, fun {st} hst ↦ ⟨st, hst, nofun, nofun⟩⟩
  refine ((h.setNode hnode rfl).removeNode fun st hst ↦ ?_).setPc nofun
  simp [hwf.sync a] at hst

/-- A new node joins the list of its location. -/
theorem addNode (h : s.Tracked) (hnot : ¬s.Notified n) (x : FutexNode) :
    ((s.setNode n x).addNode n).Tracked where
  promised {m b} hm := by
    have hne : m ≠ n := fun hmn ↦ hnot (hmn ▸ .inl ⟨b, hm⟩)
    have hnode : ((s.setNode n x).addNode n).node m = s.node m := Function.update_of_ne hne ..
    rw [hnode]
    exact h.promised hm
  resolving {m b} hm := by
    have hne : m ≠ n := by
      rintro rfl
      cases hpc : s.pc b with
      | resolving nodes =>
        refine hnot (.inr ⟨b, nodes, hpc, ?_⟩)
        simpa [FutexState.addNode, FutexState.setNode, hpc, FutexPc.nodesLeft] using hm
      | _ => simp [FutexState.addNode, FutexState.setNode, hpc, FutexPc.nodesLeft] at hm
    have hnode : ((s.setNode n x).addNode n).node m = s.node m := Function.update_of_ne hne ..
    rw [hnode]
    exact h.resolving hm
  timed {m st} hst hw ht := by
    by_cases hm : m = n
    · subst hm
      exact mem_addNode.mpr (.inr ⟨rfl, rfl⟩)
    · have hnode : ((s.setNode n x).addNode n).node m = s.node m := Function.update_of_ne hm ..
      rw [hnode] at hst hw ⊢
      exact mem_addNode.mpr (.inl (h.timed hst hw ht))

/-- Nodes are taken by `Wake`. -/
theorem takes (h : s.Tracked) {l : List NodeId} (ht : s.Takes s' l) (hpc : s'.pc = s.pc) :
    s'.Tracked where
  promised {n b} hn := by
    rw [ht.promisesToResolve] at hn
    rw [← belongsTo_iff, ht.belongsTo]
    rcases List.mem_append.mp hn with hn | hn
    · exact belongsTo_iff.mpr (h.promised hn)
    · exact (List.mem_filter.mp hn).2
  resolving {n b} hn := by
    rw [hpc] at hn
    rw [← belongsTo_iff, ht.belongsTo]
    exact belongsTo_iff.mpr (h.resolving hn)
  timed {n st} hst hw htask := by
    rw [ht.waiting] at hw
    obtain ⟨hw, hn⟩ := (Bool.and_eq_true _ _).mp hw
    have hnode := ht.node (of_decide_eq_true hn)
    rw [hnode] at hst ⊢
    rw [ht.locationLists]
    exact List.mem_filter.mpr ⟨h.timed hst hw htask, by simp [of_decide_eq_true hn]⟩

/-- Every step keeps the invariant. -/
theorem exec (h : s.Tracked) (hwf : s.WellFormed) (hnodup : ∀ loc, (s.locationLists loc).Nodup)
    {o : FutexStep} (hs : s.exec o = some s') : s'.Tracked := by
  cases step_of_exec hs with
  | setTid | call => exact h.frame _ _ _
  | expire =>
    refine h.setNode ⟨rfl, id, fun {st'} hst' ↦ ?_⟩ ?_
    · obtain ⟨st, hst, rfl⟩ := Option.map_eq_some_iff.mp hst'
      exact ⟨st, hst, fun _ ↦ id, fun _ ↦ id⟩
    · rw [FutexNode.owner, Option.map_map]
      rfl
  | notify | notEqual | block | resume | handled | waitComplete =>
    exact (h.frame _ _ _).setPc nofun
  | @wake a loc count =>
    have htakes := (hwf.wakeLoop_takes (fun n hn _ ↦ hn) (hnodup loc) count).2
    exact (h.takes htakes (hwf.wake loc count).2.pc).setPc nofun
  | @startWait a loc useTimeout ha =>
    have hnot : ¬s.Notified (.sync a) := fun hn ↦ by
      obtain ⟨-, -, id, -, hid⟩ := hwf.notified hn
      cases hid
    exact ((h.addNode hnot _).frame s.detector s.currentTid (some a)).setPc nofun
  | @interrupted a =>
    have hnode : Settles (s.node (.sync a)) { s.node (.sync a) with interrupted := false } :=
      ⟨rfl, id, fun {st} hst ↦ ⟨st, hst, fun _ ↦ id, fun _ ↦ id⟩⟩
    exact ((h.setNode hnode rfl).frame s.detector s.currentTid none).setPc nofun
  | woken | timedOut => exact h.finishWait hwf _ _
  | @threw a =>
    exact (h.frame s.detector s.currentTid (some a)).finishWait (hwf.frame _ _ _) _ _
  | notifyWake =>
    exact h.setNode ⟨rfl, id, fun {st} hst ↦ ⟨st, hst, fun _ ↦ id, fun _ ↦ id⟩⟩ rfl
  | immediate => exact h
  | startAsync =>
    have hs : { s with nextAsync := s.nextAsync + 1 }.Tracked := ⟨h.promised, h.resolving, h.timed⟩
    refine hs.addNode (fun hn ↦ ?_) _
    obtain ⟨-, -, id, hid, hn⟩ := hwf.notified (s := s) hn
    obtain rfl := NodeId.async.inj hn
    exact Nat.lt_irrefl _ hid
  | @takePromises a =>
    have hs : (s.setPc a (.resolving (s.promisesToResolve a))).Tracked :=
      h.setPc fun n hn ↦ h.promised hn
    exact ⟨fun hn ↦ h.promised (mem_of_mem_update_nil hn), hs.resolving, h.timed⟩
  | resolved => exact h.setPc nofun
  | @resolveNext a n nodes ha =>
    have hnode := h.setNode (WellFormed.settles_cancelTimeoutTask s n) cancelTimeoutTask_owner
    refine (hnode.frame _ s.currentTid s.mutexHolder).setPc fun m hm ↦ hnode.resolving ?_
    simpa [FutexState.setNode, ha, FutexPc.nodesLeft] using .inr hm
  | wokenInTime =>
    exact h.setNode (WellFormed.settles_cancelTimeoutTask s _) cancelTimeoutTask_owner
  | @asyncTimeout a n =>
    have hnode := h.setNode (WellFormed.settles_cancelTimeoutTask s n) cancelTimeoutTask_owner
    refine hnode.removeNode fun st hst _ ↦ ?_
    rw [setNode_node, Function.update_self] at hst
    obtain ⟨st', -, rfl⟩ := Option.map_eq_some_iff.mp hst
    rfl
  | @isolateDeinit a =>
    have hnode : { s with
        node := fun n ↦ if s.belongsTo n a then s.cancelTimeoutTask n else s.node n
        }.Tracked := by
      refine h.settle (fun n ↦ ?_) fun n ↦ ?_
      · split_ifs
        · exact WellFormed.settles_cancelTimeoutTask s n
        · exact .refl _
      · split_ifs
        · exact cancelTimeoutTask_owner
        · rfl
    refine ⟨fun hn ↦ hnode.promised (mem_of_mem_update_nil hn), hnode.resolving,
      fun {n st} hst hw ht ↦ List.mem_filter.mpr ⟨hnode.timed hst hw ht, ?_⟩⟩
    by_contra hbelongs
    dsimp only at hst
    rw [if_pos (by simpa using hbelongs)] at hst
    obtain ⟨st', -, rfl⟩ := Option.map_eq_some_iff.mp hst
    cases ht

end Tracked

/-! ### What the steps do to the nodes on the lists -/

section Counts

variable {s s' : FutexState} {n m : NodeId} {a b : Isolate} {o : FutexStep}

theorem pendingCount_congr (hloc : (s'.node n).waitLocation = (s.node n).waitLocation)
    (hlists : ∀ loc, (s'.locationLists loc).count n = (s.locationLists loc).count n)
    (hpromises : s'.promisesToResolve a = s.promisesToResolve a)
    (hpc : (s'.pc a).nodesLeft = (s.pc a).nodesLeft) :
    s'.pendingCount n a = s.pendingCount n a := by
  rw [pendingCount, hloc, hlists, hpromises, hpc, pendingCount]

theorem setNode_waitLocation {x : FutexNode} (hx : x.waitLocation = (s.node m).waitLocation) :
    ((s.setNode m x).node n).waitLocation = (s.node n).waitLocation := by
  by_cases hn : n = m
  · subst hn
    simpa using hx
  · simp [hn]

theorem setPc_nodesLeft {pc : FutexPc} (h : pc.nodesLeft = (s.pc b).nodesLeft) :
    ((s.setPc b pc).pc a).nodesLeft = (s.pc a).nodesLeft := by
  by_cases ha : a = b
  · subst ha
    simpa using h
  · simp [ha]

theorem removeNode_count (h : n ≠ m) (loc : ℕ) :
    ((s.removeNode m).locationLists loc).count n = (s.locationLists loc).count n := by
  unfold removeNode
  dsimp only
  by_cases hloc : loc = (s.node m).waitLocation
  · subst hloc
    rw [Function.update_self, List.count_filter (by simpa using h)]
  · rw [Function.update_of_ne hloc]

theorem addNode_count (h : n ≠ m) (loc : ℕ) :
    ((s.addNode m).locationLists loc).count n = (s.locationLists loc).count n := by
  unfold addNode
  dsimp only
  by_cases hloc : loc = (s.node m).waitLocation
  · subst hloc
    rw [Function.update_self, List.count_append, List.count_singleton]
    simp [Ne.symm h]
  · rw [Function.update_of_ne hloc]

theorem finishWait_pendingCount {loc : ℕ} {result : WaitResult} (hn : n ≠ .sync b)
    (hb : (s.pc b).nodesLeft = []) : (s.finishWait b loc result).pendingCount n a =
      s.pendingCount n a := by
  refine pendingCount_congr (setNode_waitLocation rfl) (fun loc ↦ ?_) rfl (setPc_nodesLeft hb.symm)
  exact removeNode_count (s := s.setNode _ _) hn loc

/-- `Wake` moves a node from the list of its location to the one of its isolate. -/
theorem Takes.pendingCount_eq {l : List NodeId} {loc : ℕ} (ht : s.Takes s' l) (hpc : s'.pc = s.pc)
    (hwf : s.WellFormed) (hnodup : (s.locationLists loc).Nodup) (hl : l.Nodup)
    (hsub : ∀ m ∈ l, m ∈ s.locationLists loc) (howner : (s.node n).owner = some a)
    (hloc : (s'.node n).waitLocation = (s.node n).waitLocation) :
    s'.pendingCount n a = s.pendingCount n a := by
  have hasync : (s.node n).asyncState.isSome = true := by
    obtain ⟨st, hst, -⟩ := Option.map_eq_some_iff.mp howner
    rw [hst]
    rfl
  have hbelongs : (l.filter fun m ↦ s.belongsTo m a).count n = l.count n :=
    List.count_filter (belongsTo_iff.mpr howner)
  rw [pendingCount, hloc, hpc, ht.locationLists, ht.promisesToResolve, List.count_append, hbelongs,
    pendingCount]
  by_cases hn : n ∈ l
  · have hlist : (s.locationLists (s.node n).waitLocation).count n = 1 := by
      rw [(hwf.listed (hsub n hn)).1]
      exact List.count_eq_one_of_mem hnodup (hsub n hn)
    have hgone : ((s.locationLists (s.node n).waitLocation).filter fun m ↦
        decide (m ∉ l) || !(s.node m).asyncState.isSome).count n = 0 := by
      refine List.count_eq_zero.mpr fun hmem ↦ ?_
      have hkept := (List.mem_filter.mp hmem).2
      simp [hn, hasync] at hkept
    rw [hlist, hgone, List.count_eq_one_of_mem hl hn]
    omega
  · rw [List.count_filter (by simp [hn]), List.count_eq_zero.mpr hn]
    omega

/-- `Wake` takes every node once. -/
theorem nodup_taken {nodes : List NodeId} (h : nodes.Nodup) (count : ℕ) :
    (s.wokenNodes nodes count ++ (s.discardedNode nodes count).toList).Nodup ∧
      ∀ m ∈ s.wokenNodes nodes count ++ (s.discardedNode nodes count).toList, m ∈ nodes := by
  have hsub : (s.candidates nodes).Sublist nodes :=
    List.filter_sublist.trans (List.takeWhile_sublist _)
  have hwoken : (s.wokenNodes nodes count).Sublist (s.candidates nodes) := by
    unfold wokenNodes
    split_ifs
    · exact .refl _
    · exact List.take_sublist _ _
  have hdiscarded {m : NodeId} (hm : m ∈ (s.discardedNode nodes count).toList) :
      m ∈ nodes ∧ s.discards m = true := by
    unfold discardedNode at hm
    split_ifs at hm
    · have hfind := Option.mem_toList.mp hm
      exact ⟨List.mem_of_find?_eq_some hfind, List.find?_some hfind⟩
    · simp at hm
  refine ⟨List.nodup_append.mpr ⟨(hwoken.trans hsub).nodup h, ?_, fun m hm m' hm' hmm ↦ ?_⟩,
    fun m hm ↦ ?_⟩
  · cases s.discardedNode nodes count <;> simp
  · subst hmm
    have hcan := (List.mem_filter.mp (hwoken.subset hm)).2
    exact absurd ((not_discards_of_canWake hcan).symm.trans (hdiscarded hm').2) (by decide)
  · rcases List.mem_append.mp hm with hm | hm
    · exact (hwoken.trans hsub).subset hm
    · exact (hdiscarded hm).1

/-- An asynchronous wait that has begun keeps its isolate. -/
theorem exec_owner (hwf : s.WellFormed) (hnodup : ∀ loc, (s.locationLists loc).Nodup)
    (hs : s.exec o = some s') {id : ℕ} (hid : id < s.nextAsync)
    (howner : (s.node (.async id)).owner = some a) :
    id < s'.nextAsync ∧ (s'.node (.async id)).owner = some a := by
  have hupdate {m : NodeId} {x : FutexNode} (hx : x.owner = (s.node m).owner) :
      (Function.update s.node m x (.async id)).owner = some a := by
    by_cases hm : NodeId.async id = m
    · subst hm
      rwa [Function.update_self, hx]
    · rwa [Function.update_of_ne hm]
  cases step_of_exec hs with
  | @wake b loc count =>
    have htakes := (hwf.wakeLoop_takes (fun n hn _ ↦ hn) (hnodup loc) count).2
    have hnext : (s.wakeLoop (s.locationLists loc) count).2.nextAsync = s.nextAsync := by
      obtain ⟨node, lists, promises, hs⟩ := s.wakeLoop_eq (s.locationLists loc) count
      rw [hs]
    refine ⟨hid.trans_eq hnext.symm, ?_⟩
    rw [← belongsTo_iff]
    exact (htakes.belongsTo _ _).trans (belongsTo_iff.mpr howner)
  | expire =>
    refine ⟨hid, hupdate ?_⟩
    rw [FutexNode.owner, Option.map_map]
    rfl
  | startAsync =>
    have hne : NodeId.async id ≠ .async s.nextAsync := fun h ↦ hid.ne (NodeId.async.inj h)
    refine ⟨hid.trans (Nat.lt_succ_self _), ?_⟩
    rw [← howner]
    exact congrArg FutexNode.owner (Function.update_of_ne hne ..)
  | isolateDeinit =>
    refine ⟨hid, ?_⟩
    dsimp only
    split_ifs
    · exact cancelTimeoutTask_owner.trans howner
    · exact howner
  | resolveNext | wokenInTime | asyncTimeout => exact ⟨hid, hupdate cancelTimeoutTask_owner⟩
  | startWait | interrupted | woken | timedOut | threw | notifyWake => exact ⟨hid, hupdate rfl⟩
  | _ => exact ⟨hid, howner⟩

/-- A step leaves an asynchronous wait that has begun on the lists, or takes it from them. -/
theorem exec_pendingCount (hwf : s.WellFormed) (ht : s.Tracked)
    (hnodup : ∀ loc, (s.locationLists loc).Nodup) (hs : s.exec o = some s') {id : ℕ}
    (hid : id < s.nextAsync) (howner : (s.node (.async id)).owner = some a) :
    (s'.pendingCount (.async id) a = s.pendingCount (.async id) a ∧ ¬s.Ends (.async id) a o) ∨
      s.Ends (.async id) a o ∧ (s'.pendingCount (.async id) a < s.pendingCount (.async id) a ∨
        s'.pendingCount (.async id) a = 0 ∧ o = .isolateDeinit a) := by
  have hsync (b : Isolate) : NodeId.async id ≠ .sync b := fun h ↦ by cases h
  cases step_of_exec hs with
  | setTid | call | immediate => exact .inl ⟨rfl, fun hends ↦ by cases hends⟩
  | expire | notifyWake =>
    exact .inl ⟨pendingCount_congr (setNode_waitLocation rfl) (fun _ ↦ rfl) rfl rfl,
      fun hends ↦ by cases hends⟩
  | notify ha | notEqual ha | block ha | resume ha | handled ha | waitComplete ha =>
    refine .inl ⟨pendingCount_congr rfl (fun _ ↦ rfl) rfl (setPc_nodesLeft ?_),
      fun hends ↦ by cases hends⟩
    simp [ha, FutexPc.nodesLeft]
  | resolved ha =>
    refine .inl ⟨pendingCount_congr rfl (fun _ ↦ rfl) rfl (setPc_nodesLeft ?_), fun hends ↦ ?_⟩
    · simp [ha, FutexPc.nodesLeft]
    · cases hends with
      | resolveNext h => cases ha.symm.trans h
  | @wake b loc count hb =>
    obtain ⟨hl, hsub⟩ := nodup_taken (s := s) (hnodup loc) count
    have htakes := (hwf.wakeLoop_takes (fun n hn _ ↦ hn) (hnodup loc) count).2
    have hwakes := (hwf.wake loc count).2
    refine .inl ⟨?_, fun hends ↦ by cases hends⟩
    have hpc : ((s.wakeLoop (s.locationLists loc) count).2.setPc b .idle).pendingCount
        (.async id) a =
          (s.wakeLoop (s.locationLists loc) count).2.pendingCount (.async id) a := by
      refine pendingCount_congr rfl (fun _ ↦ rfl) rfl (setPc_nodesLeft ?_)
      simp [hwakes.pc, hb, FutexPc.nodesLeft]
    rw [hpc]
    exact htakes.pendingCount_eq hwakes.pc hwf (hnodup loc) hl hsub howner (hwakes.waitLocation _)
  | @startWait b loc useTimeout hb =>
    refine .inl ⟨pendingCount_congr ?_ (fun loc ↦ ?_) rfl (setPc_nodesLeft ?_),
      fun hends ↦ by cases hends⟩
    · simp [startWait, addNode]
    · exact addNode_count (s := s.setNode _ _) (hsync b) loc
    · simp [startWait, addNode, setNode, hb, FutexPc.nodesLeft]
  | @interrupted b loc useTimeout timeOver hb =>
    refine .inl ⟨pendingCount_congr ?_ (fun _ ↦ rfl) rfl (setPc_nodesLeft ?_),
      fun hends ↦ by cases hends⟩
    · simp
    · simp [setNode, hb, FutexPc.nodesLeft]
  | woken hb | timedOut hb =>
    exact .inl ⟨finishWait_pendingCount (hsync _) (by rw [hb]; rfl), fun hends ↦ by cases hends⟩
  | @threw b loc useTimeout hb =>
    exact .inl ⟨finishWait_pendingCount (s := { s with mutexHolder := some b }) (hsync b)
      (by simp [hb, FutexPc.nodesLeft]), fun hends ↦ by cases hends⟩
  | @startAsync b loc relTimeout =>
    have hne : NodeId.async id ≠ .async s.nextAsync := fun h ↦ hid.ne (NodeId.async.inj h)
    refine .inl ⟨pendingCount_congr ?_ (fun loc ↦ ?_) rfl rfl, fun hends ↦ by cases hends⟩
    · simp [startAsync, addNode, hid.ne]
    · exact addNode_count
        (s := FutexState.setNode { s with nextAsync := s.nextAsync + 1 } _ _) hne loc
  | @takePromises b hb =>
    refine .inl ⟨?_, fun hends ↦ by cases hends⟩
    by_cases hab : a = b
    · subst hab
      simp [pendingCount, setPc, hb, FutexPc.nodesLeft]
    · exact pendingCount_congr rfl (fun _ ↦ rfl) (Function.update_of_ne hab ..)
        (congrArg FutexPc.nodesLeft (Function.update_of_ne hab ..))
  | @resolveNext b m nodes hb =>
    have hmem : m ∈ (s.pc b).nodesLeft := by
      rw [hb]
      exact List.mem_cons_self
    by_cases hab : a = b
    · subst hab
      by_cases hm : m = .async id
      · subst hm
        refine .inr ⟨.resolveNext hb, .inl ?_⟩
        simp [pendingCount, setPc, setNode, cancelTimeoutTask, hb, FutexPc.nodesLeft]
      · refine .inl ⟨?_, fun hends ↦ ?_⟩
        · simp [pendingCount, setPc, setNode, cancelTimeoutTask, hb, FutexPc.nodesLeft, hm,
            Ne.symm hm]
        · cases hends with
          | resolveNext h =>
            rw [hb] at h
            injection h with h
            exact hm (List.cons.inj h).1
    · refine .inl ⟨pendingCount_congr (setNode_waitLocation rfl) (fun _ ↦ rfl) rfl ?_,
        fun hends ↦ ?_⟩
      · exact congrArg FutexPc.nodesLeft (Function.update_of_ne hab ..)
      · cases hends with
        | resolveNext => exact hab rfl
  | @wokenInTime b m _ _ _ _ _ _ hw =>
    refine .inl ⟨pendingCount_congr (setNode_waitLocation rfl) (fun _ ↦ rfl) rfl rfl,
      fun hends ↦ ?_⟩
    cases hends with
    | asyncTimeout h => exact absurd (hw.symm.trans h) (by decide)
  | @asyncTimeout b m st hb hmutex hst hst' htask hw =>
    by_cases hm : NodeId.async id = m
    · subst hm
      have hab : a = b := by
        rw [FutexNode.owner, hst] at howner
        exact (Option.some.inj howner).symm.trans hst'
      subst hab
      refine .inr ⟨.asyncTimeout hw, .inl ?_⟩
      have hpos := List.count_pos_iff.mpr (ht.timed hst hw htask)
      have hgone : (((s.setNode (.async id) (s.cancelTimeoutTask (.async id))).removeNode
          (.async id)).locationLists (s.node (.async id)).waitLocation).count (.async id) = 0 := by
        refine List.count_eq_zero.mpr fun hmem ↦ (mem_removeNode.mp hmem).2 ?_ rfl
        simp [cancelTimeoutTask]
      have hloc : (((s.setNode (.async id) (s.cancelTimeoutTask (.async id))).removeNode
          (.async id)).node (.async id)).waitLocation = (s.node (.async id)).waitLocation :=
        setNode_waitLocation rfl
      rw [pendingCount, hloc, hgone, pendingCount]
      simp only [removeNode, setNode]
      omega
    · refine .inl ⟨pendingCount_congr (setNode_waitLocation rfl) (fun loc ↦ ?_) rfl rfl,
        fun hends ↦ ?_⟩
      · exact removeNode_count (s := s.setNode _ _) hm loc
      · cases hends with
        | asyncTimeout => exact hm rfl
  | @isolateDeinit b hb =>
    by_cases hab : a = b
    · subst hab
      refine .inr ⟨.isolateDeinit, .inr ⟨?_, rfl⟩⟩
      have hgone (loc : ℕ) :
          ((s.locationLists loc).filter fun n ↦ !s.belongsTo n a).count (.async id) = 0 := by
        refine List.count_eq_zero.mpr fun hmem ↦ ?_
        have hkept := (List.mem_filter.mp hmem).2
        rw [belongsTo_iff.mpr howner] at hkept
        cases hkept
      simp [pendingCount, hgone, hb, FutexPc.nodesLeft]
    · have hother : s.belongsTo (.async id) b = false := by
        refine (Bool.not_eq_true _).mp fun hbelongs ↦ hab ?_
        exact Option.some.inj (howner.symm.trans (belongsTo_iff.mp hbelongs))
      refine .inl ⟨pendingCount_congr ?_ (fun loc ↦ ?_) (Function.update_of_ne hab ..) rfl,
        fun hends ↦ ?_⟩
      · simp [hother]
      · exact List.count_filter (by simp [hother])
      · cases hends with
        | isolateDeinit => exact hab rfl

/-- A new asynchronous wait is on one list. -/
theorem exec_born (hwf : s.WellFormed) (hs : s.exec o = some s') {id : ℕ}
    (hid : ¬id < s.nextAsync) (hid' : id < s'.nextAsync) :
    ∃ b, (s'.node (.async id)).owner = some b ∧ s'.pendingCount (.async id) b = 1 := by
  cases step_of_exec hs with
  | @startAsync b loc relTimeout ha hmutex hloc =>
    obtain rfl : id = s.nextAsync := by
      have hlt : id < s.nextAsync + 1 := hid'
      omega
    have hnew := (hwf.startAsync b hloc relTimeout.isSome)
    have hnode : ((s.startAsync b loc relTimeout.isSome).node (.async s.nextAsync)).waitLocation =
        loc := by
      simp [startAsync, addNode]
    have hlist : (s.startAsync b loc relTimeout.isSome).locationLists loc =
        s.locationLists loc ++ [.async s.nextAsync] := by
      simp [startAsync, addNode, setNode]
    have hout : (s.locationLists loc).count (.async s.nextAsync) = 0 :=
      List.count_eq_zero.mpr fun hmem ↦ Nat.lt_irrefl _ (hwf.created hmem)
    have hnot : ¬s.Notified (.async s.nextAsync) := fun hn ↦ by
      obtain ⟨-, -, id, hid, hn⟩ := hwf.notified hn
      obtain rfl := NodeId.async.inj hn
      exact Nat.lt_irrefl _ hid
    have hpromises : (s.promisesToResolve b).count (.async s.nextAsync) = 0 :=
      List.count_eq_zero.mpr fun hmem ↦ hnot (.inl ⟨b, hmem⟩)
    refine ⟨b, by simp [startAsync, addNode, FutexNode.owner], ?_⟩
    rw [pendingCount, hnode, hlist, List.count_append, hout, List.count_singleton_self]
    simp [startAsync, addNode, setNode, hpromises, ha, FutexPc.nodesLeft]
  | @wake b loc count =>
    obtain ⟨node, lists, promises, hs⟩ := s.wakeLoop_eq (s.locationLists loc) count
    rw [hs] at hid'
    exact absurd hid' hid
  | _ => exact absurd hid' hid

/-- A step that resolves the promise of an asynchronous wait takes its node from the lists. -/
theorem ends_of_completes (ht : s.Tracked) (hs : s.exec o = some s') {id : ℕ} {result : WaitResult}
    (hc : s.completes o = some (b, .async id, result)) :
    (s.node (.async id)).owner = some b ∧ s.Ends (.async id) b o ∧ o ≠ .isolateDeinit b := by
  cases step_of_exec hs with
  | waitComplete ha =>
    simp [completes, ha] at hc
  | resolved ha => simp [completes, ha] at hc
  | @resolveNext c m nodes ha =>
    simp only [completes, ha] at hc
    obtain ⟨result', -, hresult⟩ := Option.map_eq_some_iff.mp hc
    cases hresult
    refine ⟨ht.resolving ?_, .resolveNext ha, fun h ↦ by cases h⟩
    rw [ha]
    exact List.mem_cons_self
  | wokenInTime _ _ _ _ _ hw => simp [completes, hw] at hc
  | @asyncTimeout c m st _ _ hst howner _ hw =>
    simp only [completes, hw, Bool.true_eq_false, if_false] at hc
    obtain ⟨result', -, hresult⟩ := Option.map_eq_some_iff.mp hc
    cases hresult
    exact ⟨by rw [FutexNode.owner, hst, Option.map_some, howner], .asyncTimeout hw,
      fun h ↦ by cases h⟩
  | _ => cases hc

/-- A node that a step takes from the lists was on one. -/
theorem Ends.created (h : s.Ends n a o) (hwf : s.WellFormed) (ht : s.Tracked)
    (hs : s.exec o = some s') (ho : o ≠ .isolateDeinit a) : ∃ id < s.nextAsync, n = .async id := by
  cases h with
  | resolveNext h => exact (hwf.notified (.inr ⟨a, _, h, List.mem_cons_self⟩)).2.2
  | asyncTimeout hw =>
    cases step_of_exec hs with
    | wokenInTime _ _ _ _ _ hw' => exact absurd (hw'.symm.trans hw) (by decide)
    | @asyncTimeout _ _ st _ _ hst _ htask =>
      have hmem := ht.timed hst hw htask
      cases n with
      | sync b =>
        rw [hwf.sync b] at hst
        cases hst
      | async id => exact ⟨id, hwf.created hmem, rfl⟩
  | isolateDeinit => exact absurd rfl ho

end Counts

end FutexState

namespace FutexRun

variable {r : FutexRun} {a b : Isolate} {id j k : ℕ} {x y : WaitResult}

/-- The thread of isolate `a` completes the wait of a node at position `k`. -/
def Completes (r : FutexRun) (k : ℕ) (a : Isolate) (n : NodeId) (x : WaitResult) : Prop :=
  ∃ o, r.ops[k]? = some o ∧ (r.state k).completes o = some (a, n, x)

/-- The promise of an asynchronous wait is resolved at position `k`. -/
def completesAsync (r : FutexRun) (id k : ℕ) : Bool :=
  ((r.ops[k]?).bind (r.state k).completes).any fun c ↦ c.2.1 = .async id

theorem tracked (hk : k ≤ r.ops.length) : (r.state k).Tracked := by
  refine r.invariant_of_step (P := FutexState.Tracked) .initial (fun {m _} ho h ↦ ?_) hk
  have hm := (List.getElem?_eq_some_iff.mp ho).1.le
  exact h.exec (wellFormed hm) (nodup hm) (r.step ho)

/-- The node of an asynchronous wait is at most on one list. -/
theorem exists_owner (hk : k ≤ r.ops.length) (hid : id < (r.state k).nextAsync) :
    ∃ a, ((r.state k).node (.async id)).owner = some a ∧
      (r.state k).pendingCount (.async id) a ≤ 1 := by
  refine r.invariant_of_step (P := fun s ↦ id < s.nextAsync → ∃ a,
    (s.node (.async id)).owner = some a ∧ s.pendingCount (.async id) a ≤ 1) nofun
    (fun {m _} ho ih hid' ↦ ?_) hk hid
  have hm := (List.getElem?_eq_some_iff.mp ho).1.le
  by_cases hid : id < (r.state m).nextAsync
  · obtain ⟨a, howner, hle⟩ := ih hid
    refine ⟨a, (FutexState.exec_owner (wellFormed hm) (nodup hm) (r.step ho) hid howner).2, ?_⟩
    rcases FutexState.exec_pendingCount (wellFormed hm) (tracked hm) (nodup hm) (r.step ho) hid
      howner with ⟨heq, -⟩ | ⟨-, hlt | ⟨hzero, -⟩⟩ <;> omega
  · obtain ⟨b, howner, hone⟩ := FutexState.exec_born (wellFormed hm) (r.step ho) hid hid'
    exact ⟨b, howner, hone.le⟩

/-- A completed asynchronous wait was on one list, and is on none after that. -/
theorem Completes.pendingCount_eq (h : r.Completes k a (.async id) x) :
    id < (r.state k).nextAsync ∧ ((r.state k).node (.async id)).owner = some a ∧
      (r.state k).pendingCount (.async id) a = 1 ∧
      (r.state (k + 1)).pendingCount (.async id) a = 0 := by
  obtain ⟨o, ho, hc⟩ := h
  have hk := (List.getElem?_eq_some_iff.mp ho).1.le
  obtain ⟨howner, hends, hdeinit⟩ := FutexState.ends_of_completes (tracked hk) (r.step ho) hc
  obtain ⟨id', hid, hn⟩ := hends.created (wellFormed hk) (tracked hk) (r.step ho) hdeinit
  obtain rfl := NodeId.async.inj hn
  obtain ⟨b, howner', hle⟩ := exists_owner hk hid
  obtain rfl := Option.some.inj (howner.symm.trans howner')
  rcases FutexState.exec_pendingCount (wellFormed hk) (tracked hk) (nodup hk) (r.step ho) hid
    howner with ⟨-, hnot⟩ | ⟨-, hlt | ⟨-, heq⟩⟩
  · exact absurd hends hnot
  · exact ⟨hid, howner, by omega, by omega⟩
  · exact absurd heq hdeinit

/-- An asynchronous wait that was completed is not completed again. -/
theorem Completes.not_lt (hj : r.Completes j a (.async id) x) (hk : r.Completes k b (.async id) y) :
    ¬j < k := by
  intro hjk
  obtain ⟨hid, howner, -, hzero⟩ := hj.pendingCount_eq
  obtain ⟨-, howner', hone, -⟩ := hk.pendingCount_eq
  obtain ⟨o, ho, -⟩ := hj
  obtain ⟨o', ho', -⟩ := hk
  have hjlen := (List.getElem?_eq_some_iff.mp ho).1.le
  have hklen := (List.getElem?_eq_some_iff.mp ho').1.le
  obtain ⟨hid₁, howner₁⟩ :=
    FutexState.exec_owner (wellFormed hjlen) (nodup hjlen) (r.step ho) hid howner
  have hkept : id < (r.state k).nextAsync ∧ ((r.state k).node (.async id)).owner = some a ∧
      (r.state k).pendingCount (.async id) a = 0 := by
    refine r.invariant_from (P := fun s ↦ id < s.nextAsync ∧ (s.node (.async id)).owner = some a ∧
      s.pendingCount (.async id) a = 0) hjk hklen ⟨hid₁, howner₁, hzero⟩ fun {m _} _ hmk hm ih ↦ ?_
    have hmlen := (hmk.trans_le hklen).le
    obtain ⟨hid, howner, hzero⟩ := ih
    obtain ⟨hid', howner'⟩ :=
      FutexState.exec_owner (wellFormed hmlen) (nodup hmlen) (r.step hm) hid howner
    refine ⟨hid', howner', ?_⟩
    rcases FutexState.exec_pendingCount (wellFormed hmlen) (tracked hmlen) (nodup hmlen) (r.step hm)
      hid howner with ⟨heq, -⟩ | ⟨-, hlt | ⟨hzero', -⟩⟩ <;> omega
  obtain ⟨-, howner₂, hzero₂⟩ := hkept
  obtain rfl := Option.some.inj (howner₂.symm.trans howner')
  omega

theorem completesAsync_iff :
    r.completesAsync id k = true ↔ ∃ a x, r.Completes k a (.async id) x := by
  unfold completesAsync Completes
  cases hops : r.ops[k]? with
  | none => simp
  | some o =>
    cases hc : (r.state k).completes o with
    | none => simp [hc]
    | some c =>
      obtain ⟨a, n, x⟩ := c
      simp [hc]

/-- The promise of an asynchronous wait is resolved at most once in a run, whatever the order of
notifications, time-outs and calls of `ResolveAsyncWaiterPromises` is. -/
theorem async_resolved_once (r : FutexRun) (id k : ℕ) :
    Nat.count (fun j ↦ r.completesAsync id j = true) k ≤ 1 := by
  rw [Nat.count_eq_card_filter_range, Finset.card_le_one]
  intro i hi j hj
  obtain ⟨a, x, hi⟩ := completesAsync_iff.mp (Finset.mem_filter.mp hi).2
  obtain ⟨b, y, hj⟩ := completesAsync_iff.mp (Finset.mem_filter.mp hj).2
  exact le_antisymm (not_lt.mp (hj.not_lt hi)) (not_lt.mp (hi.not_lt hj))

/-- No asynchronous wait gets lost. If its node is on no list any more, then its promise was
resolved or dropped by its isolate, its time-out came, or its isolate went away. -/
theorem async_settled (hk : k ≤ r.ops.length) (hid : id < (r.state k).nextAsync)
    (hlist : ∀ loc, .async id ∉ (r.state k).locationLists loc)
    (hnot : ¬(r.state k).Notified (.async id)) :
    ∃ j < k, ∃ a o, r.ops[j]? = some o ∧ ((r.state j).node (.async id)).owner = some a ∧
      (r.state j).Ends (.async id) a o := by
  obtain ⟨a, howner, -⟩ := exists_owner hk hid
  have hzero : (r.state k).pendingCount (.async id) a = 0 := by
    have hlist := List.count_eq_zero.mpr (hlist ((r.state k).node (.async id)).waitLocation)
    have hpromises : ((r.state k).promisesToResolve a).count (.async id) = 0 :=
      List.count_eq_zero.mpr fun hmem ↦ hnot (.inl ⟨a, hmem⟩)
    have hleft : (((r.state k).pc a).nodesLeft).count (.async id) = 0 := by
      refine List.count_eq_zero.mpr fun hmem ↦ hnot ?_
      cases hpc : (r.state k).pc a with
      | resolving nodes => exact .inr ⟨a, nodes, hpc, by simpa [hpc, FutexPc.nodesLeft] using hmem⟩
      | _ => simp [hpc, FutexPc.nodesLeft] at hmem
    rw [FutexState.pendingCount, hlist, hpromises, hleft]
  obtain ⟨j, o, ho, hjk, hbefore, hafter⟩ := r.exists_gain (P := fun s ↦ id < s.nextAsync ∧ ∃ a,
    (s.node (.async id)).owner = some a ∧ s.pendingCount (.async id) a = 0) (fun h ↦ nomatch h.1) hk
    ⟨hid, a, howner, hzero⟩
  have hj := (List.getElem?_eq_some_iff.mp ho).1.le
  obtain ⟨hid', b, howner', hzero'⟩ := hafter (j + 1) (Nat.lt_succ_self j) hjk
  by_cases hborn : id < (r.state j).nextAsync
  · obtain ⟨c, hc, -⟩ := exists_owner hj hborn
    have hc' := (FutexState.exec_owner (wellFormed hj) (nodup hj) (r.step ho) hborn hc).2
    obtain rfl := Option.some.inj (howner'.symm.trans hc')
    rcases FutexState.exec_pendingCount (wellFormed hj) (tracked hj) (nodup hj) (r.step ho) hborn hc
      with ⟨heq, -⟩ | ⟨hends, -⟩
    · exact absurd ⟨hborn, b, hc, heq.symm.trans hzero'⟩ hbefore
    · exact ⟨j, hjk, b, o, ho, hc, hends⟩
  · obtain ⟨c, hc, hone⟩ := FutexState.exec_born (wellFormed hj) (r.step ho) hborn hid'
    obtain rfl := Option.some.inj (howner'.symm.trans hc)
    omega

theorem notified_settled : ∃ j < 19, ∃ a o, notified.ops[j]? = some o ∧
    ((notified.state j).node (.async 0)).owner = some a ∧
      (notified.state j).Ends (.async 0) a o := by
  have hk : 19 ≤ notified.ops.length := by decide
  refine async_settled hk (by decide) (fun loc hmem ↦ ?_) ?_
  · obtain rfl : 64 = loc := ((wellFormed hk).listed hmem).1
    exact absurd hmem (by decide)
  · rintro (⟨a, hmem⟩ | ⟨a, nodes, hpc, hmem⟩)
    · obtain rfl : 1 = a := Option.some.inj ((tracked hk).promised hmem)
      exact absurd hmem (by decide)
    · have howner : ((notified.state 19).node (.async 0)).owner = some a :=
        (tracked hk).resolving (by rwa [hpc])
      obtain rfl : 1 = a := Option.some.inj howner
      have hleft : ((notified.state 19).pc 1).nodesLeft = [] := rfl
      rw [hpc] at hleft
      simp only [FutexPc.nodesLeft] at hleft
      rw [hleft] at hmem
      cases hmem

end FutexRun

end WebTSan
