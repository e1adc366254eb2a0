import WebTSan.NotifyWake
import WebTSan.Queue

/-!
# The order in which waiters are woken

`Wake` goes through the list of its location from the front. It wakes the nodes that still wait, up
to the number that it was called with, and passes over the nodes whose backing store has expired. If
such a node has no time-out, `Wake` discards it and ends there. A new waiter joins the list at its
end, and a node may leave it at any place.

Over a whole run, a waiter is therefore never overtaken by one that began to wait after it, and it
waits for at most as many calls of `Wake` as there were nodes ahead of it.

## Main definitions

* `WebTSan.FutexState.canWake`, `WebTSan.FutexState.discards`, `WebTSan.FutexState.takes`.
* `WebTSan.FutexState.wokenNodes`, `WebTSan.FutexState.discardedNode`: what `Wake` should take.
* `WebTSan.FutexState.Takes`: some nodes are taken from the lists.
* `WebTSan.FutexState.Waits`: a node that the next `Wake` may wake.

## Main results

* `WebTSan.FutexRun.wake_exact`: what the critical section of `Wake` does.
* `WebTSan.FutexRun.no_overtaking`: waiters are woken in the order in which they began to wait.
* `WebTSan.FutexRun.wakes_le_ahead`: the calls of `Wake` before a waiter is woken.
-/

namespace WebTSan

namespace FutexState

section Definitions

variable (s : FutexState)

/-- `Wake` wakes the node when it comes to it. -/
def canWake (n : NodeId) : Bool :=
  (s.node n).waiting && (s.node n).asyncState.all fun st ↦ !st.backingStoreExpired

/-- `Wake` discards the node when it comes to it, and ends. -/
def discards (n : NodeId) : Bool :=
  (s.node n).waiting &&
    (s.node n).asyncState.any fun st ↦ st.backingStoreExpired && !st.hasTimeoutTime

/-- `Wake` ends the waiting of the node when it comes to it. -/
def takes (n : NodeId) : Bool := s.canWake n || s.discards n

/-- The nodes that `Wake` would wake if it was called for all waiters. -/
def candidates (nodes : List NodeId) : List NodeId :=
  (nodes.takeWhile fun n ↦ !s.discards n).filter s.canWake

/-- The nodes that `Wake` wakes. -/
def wokenNodes (nodes : List NodeId) (count : ℕ) : List NodeId :=
  if kWakeAll ≤ count then s.candidates nodes else (s.candidates nodes).take count

/-- The node that `Wake` discards. -/
def discardedNode (nodes : List NodeId) (count : ℕ) : Option NodeId :=
  if kWakeAll ≤ count ∨ (s.candidates nodes).length < count then nodes.find? s.discards else none

/-- A node that the next `Wake` for its location may wake. -/
def Waits (n : NodeId) (loc : ℕ) : Prop := n ∈ s.locationLists loc ∧ s.canWake n = true

/-- The step is the critical section of a `Wake` for a location and for some waiters. -/
def wakes (loc : ℕ) : FutexStep → Bool
  | .wake a =>
    match s.pc a with
    | .waking loc' count => loc' = loc && 0 < count
    | _ => false
  | _ => false

end Definitions

/-! ### A round of the loop -/

section Loop

variable {s s' : FutexState} {n m : NodeId} {nodes : List NodeId} {count : ℕ}

theorem wakeLoop_zero (s : FutexState) (nodes : List NodeId) : s.wakeLoop nodes 0 = (0, s) := by
  cases nodes <;> simp [wakeLoop]

theorem wakeLoop_of_not_takes (h : s.takes n = false) :
    s.wakeLoop (n :: nodes) count = s.wakeLoop nodes count := by
  by_cases hcount : count = 0
  · rw [hcount, wakeLoop_zero, wakeLoop_zero]
  · rw [wakeLoop, if_neg hcount]
    cases hst : (s.node n).asyncState with
    | none =>
      rw [if_pos (by simpa [takes, canWake, discards, hst] using h)]
    | some st =>
      cases hw : (s.node n).waiting with
      | false => rfl
      | true =>
        obtain ⟨hexpired, htime⟩ : st.backingStoreExpired = true ∧ st.hasTimeoutTime = true := by
          cases he : st.backingStoreExpired <;>
            simp_all [takes, canWake, discards]
        simp [hexpired, htime]

theorem wakeLoop_of_canWake (hcount : count ≠ 0) (h : s.canWake n = true) :
    s.wakeLoop (n :: nodes) count =
      (((s.wakeNode n).wakeLoop nodes (if count = kWakeAll then count else count - 1)).1 + 1,
        ((s.wakeNode n).wakeLoop nodes (if count = kWakeAll then count else count - 1)).2) := by
  obtain ⟨hw, hall⟩ := (Bool.and_eq_true _ _).mp h
  rw [wakeLoop, if_neg hcount, if_neg (by simp [hw])]
  cases hst : (s.node n).asyncState with
  | none => rfl
  | some st =>
    have hexpired : st.backingStoreExpired = false := by simpa [hst] using hall
    simp [hexpired]

theorem wakeLoop_of_discards (nodes : List NodeId) (hcount : count ≠ 0)
    (h : s.discards n = true) :
    ∃ st, (s.node n).asyncState = some st ∧
      s.wakeLoop (n :: nodes) count = (0, s.discardNode n st) := by
  obtain ⟨hw, hany⟩ := (Bool.and_eq_true _ _).mp h
  obtain ⟨st, hst, hboth⟩ := (Option.any_eq_true _ _).mp hany
  obtain ⟨hexpired, htime⟩ := (Bool.and_eq_true _ _).mp hboth
  refine ⟨st, hst, ?_⟩
  rw [wakeLoop, if_neg hcount, if_neg (by simp [hw])]
  have htime : st.hasTimeoutTime = false := by simpa using htime
  simp [hst, hexpired, htime]

theorem not_discards_of_canWake (h : s.canWake n = true) : s.discards n = false := by
  cases hst : (s.node n).asyncState <;> simp_all [canWake, discards]

theorem waiting_of_canWake (h : s.canWake n = true) : (s.node n).waiting = true :=
  ((Bool.and_eq_true _ _).mp h).1

theorem waiting_of_takes (h : s.takes n = true) : (s.node n).waiting = true := by
  rcases (Bool.or_eq_true _ _).mp h with h | h
  · exact waiting_of_canWake h
  · exact ((Bool.and_eq_true _ _).mp h).1

theorem canWake_congr (h : s'.node n = s.node n) : s'.canWake n = s.canWake n := by
  simp [canWake, h]

theorem discards_congr (h : s'.node n = s.node n) : s'.discards n = s.discards n := by
  simp [discards, h]

theorem takes_congr (h : s'.node n = s.node n) : s'.takes n = s.takes n := by
  rw [takes, canWake_congr h, discards_congr h, takes]

theorem wakeNode_node_of_ne (h : m ≠ n) : (s.wakeNode n).node m = s.node m := by
  unfold wakeNode
  dsimp only
  split <;> simp [notifyAsyncWaiter_node, h]

theorem wakeNode_waiting : ((s.wakeNode n).node n).waiting = false := by
  unfold wakeNode
  dsimp only
  split <;> simp [notifyAsyncWaiter_node]

theorem discardNode_node_of_ne {st : AsyncState} (h : m ≠ n) :
    (s.discardNode n st).node m = s.node m := by
  simp [discardNode, notifyAsyncWaiter_node, h]

theorem discardNode_waiting {st : AsyncState} : ((s.discardNode n st).node n).waiting = false := by
  simp [discardNode, notifyAsyncWaiter_node]

/-- The loop changes nodes and lists only. -/
theorem wakeLoop_eq (s : FutexState) (nodes : List NodeId) (count : ℕ) :
    ∃ node lists promises, (s.wakeLoop nodes count).2 =
      { s with node := node, locationLists := lists, promisesToResolve := promises } := by
  induction nodes generalizing s count with
  | nil => exact ⟨_, _, _, rfl⟩
  | cons n nodes ih =>
    by_cases hcount : count = 0
    · exact ⟨s.node, s.locationLists, s.promisesToResolve, by rw [hcount, wakeLoop_zero]⟩
    cases htakes : s.takes n with
    | false =>
      rw [wakeLoop_of_not_takes htakes]
      exact ih s count
    | true =>
      rcases (Bool.or_eq_true _ _).mp htakes with hwake | hdiscard
      · have hnode : ∃ node lists promises, s.wakeNode n =
            { s with node := node, locationLists := lists, promisesToResolve := promises } := by
          unfold wakeNode
          dsimp only
          split <;> exact ⟨_, _, _, rfl⟩
        obtain ⟨node, lists, promises, hnode⟩ := hnode
        obtain ⟨node', lists', promises', hrest⟩ :=
          ih (s.wakeNode n) (if count = kWakeAll then count else count - 1)
        refine ⟨node', lists', promises', ?_⟩
        rw [wakeLoop_of_canWake hcount hwake]
        exact hrest.trans (by rw [hnode])
      · obtain ⟨st, -, hloop⟩ := wakeLoop_of_discards nodes hcount hdiscard
        rw [hloop]
        exact ⟨_, _, _, rfl⟩

/-- The loop changes the nodes whose waiting it ends, and no others. -/
theorem wakeLoop_node (s : FutexState) (nodes : List NodeId) (count : ℕ) (m : NodeId) :
    (s.wakeLoop nodes count).2.node m = s.node m ∨
      ((s.wakeLoop nodes count).2.node m).waiting = false := by
  induction nodes generalizing s count with
  | nil => exact .inl rfl
  | cons n nodes ih =>
    by_cases hcount : count = 0
    · exact .inl (by rw [hcount, wakeLoop_zero])
    cases htakes : s.takes n with
    | false =>
      rw [wakeLoop_of_not_takes htakes]
      exact ih s count
    | true =>
      rcases (Bool.or_eq_true _ _).mp htakes with hwake | hdiscard
      · rw [wakeLoop_of_canWake hcount hwake]
        rcases ih (s.wakeNode n) _ with hsame | hcleared
        · by_cases hm : m = n
          · subst hm
            exact .inr (by rw [hsame, wakeNode_waiting])
          · exact .inl (by rw [hsame, wakeNode_node_of_ne hm])
        · exact .inr hcleared
      · obtain ⟨st, -, hloop⟩ := wakeLoop_of_discards nodes hcount hdiscard
        rw [hloop]
        by_cases hm : m = n
        · subst hm
          exact .inr discardNode_waiting
        · exact .inl (discardNode_node_of_ne hm)

theorem wakeNode_waiting_after (nodes : List NodeId) (count : ℕ) :
    (((s.wakeNode n).wakeLoop nodes count).2.node n).waiting = false := by
  rcases (s.wakeNode n).wakeLoop_node nodes count n with hsame | hcleared
  · rw [hsame, wakeNode_waiting]
  · exact hcleared

/-- If the loop leaves a node that it can wake, then it ended the waiting of nodes ahead of it
only. -/
theorem mem_aheadOf_of_cleared {x : NodeId} (hx : s.canWake x = true)
    (hx' : ((s.wakeLoop nodes count).2.node x).waiting = true) (hm : (s.node m).waiting = true)
    (hm' : ((s.wakeLoop nodes count).2.node m).waiting = false) : m ∈ aheadOf x nodes := by
  induction nodes generalizing s count with
  | nil => exact absurd (hm.symm.trans hm') (by decide)
  | cons n nodes ih =>
    have hcount : count ≠ 0 := by
      rintro rfl
      rw [wakeLoop_zero] at hm'
      exact absurd (hm.symm.trans hm') (by decide)
    cases htakes : s.takes n with
    | false =>
      rw [wakeLoop_of_not_takes htakes] at hx' hm'
      have hne : n ≠ x := by
        rintro rfl
        simp [takes, hx] at htakes
      rw [aheadOf_cons_of_ne hne]
      exact List.mem_cons_of_mem n (ih hx hx' hm hm')
    | true =>
      rcases (Bool.or_eq_true _ _).mp htakes with hwake | hdiscard
      · rw [wakeLoop_of_canWake hcount hwake] at hx' hm'
        have hne : n ≠ x := by
          rintro rfl
          exact absurd (hx'.symm.trans (wakeNode_waiting_after nodes _)) (by decide)
        rw [aheadOf_cons_of_ne hne]
        by_cases hmn : m = n
        · exact hmn ▸ List.mem_cons_self
        · refine List.mem_cons_of_mem n (ih ?_ hx' ?_ hm')
          · rw [canWake_congr (wakeNode_node_of_ne hne.symm), hx]
          · rw [wakeNode_node_of_ne hmn, hm]
      · obtain ⟨st, -, hloop⟩ := wakeLoop_of_discards nodes hcount hdiscard
        rw [hloop] at hx' hm'
        have hne : n ≠ x := by
          rintro rfl
          exact absurd (hx'.symm.trans discardNode_waiting) (by decide)
        have hmn : m = n := by
          by_contra hmn
          rw [discardNode_node_of_ne hmn] at hm'
          exact absurd (hm.symm.trans hm') (by decide)
        rw [hmn, aheadOf_cons_of_ne hne]
        exact List.mem_cons_self

/-- If the loop leaves a node that it can wake, then it took a node ahead of it. -/
theorem exists_taken_aheadOf {x : NodeId} (hmem : x ∈ nodes) (hcount : count ≠ 0)
    (hx : s.canWake x = true) (hx' : ((s.wakeLoop nodes count).2.node x).waiting = true) :
    ∃ m ∈ aheadOf x nodes, s.takes m = true ∧
      ((s.wakeLoop nodes count).2.node m).waiting = false := by
  induction nodes with
  | nil => cases hmem
  | cons n nodes ih =>
    cases htakes : s.takes n with
    | false =>
      rw [wakeLoop_of_not_takes htakes] at hx' ⊢
      have hne : n ≠ x := by
        rintro rfl
        simp [takes, hx] at htakes
      obtain ⟨m, hm, htaken⟩ := ih ((List.mem_cons.mp hmem).resolve_left hne.symm) hx'
      exact ⟨m, by rw [aheadOf_cons_of_ne hne]; exact List.mem_cons_of_mem n hm, htaken⟩
    | true =>
      have hcleared : ((s.wakeLoop (n :: nodes) count).2.node n).waiting = false := by
        rcases (Bool.or_eq_true _ _).mp htakes with hwake | hdiscard
        · rw [wakeLoop_of_canWake hcount hwake]
          exact wakeNode_waiting_after nodes _
        · obtain ⟨st, -, hloop⟩ := wakeLoop_of_discards nodes hcount hdiscard
          rw [hloop]
          exact discardNode_waiting
      have hne : n ≠ x := by
        rintro rfl
        exact absurd (hx'.symm.trans hcleared) (by decide)
      refine ⟨n, ?_, htakes, hcleared⟩
      rw [aheadOf_cons_of_ne hne]
      exact List.mem_cons_self

end Loop

/-! ### What the steps do to the lists -/

section Steps

variable {s s' : FutexState} {n m : NodeId} {nodes : List NodeId} {count loc : ℕ} {o : FutexStep}

theorem removeNode_locationLists_sublist :
    ((s.removeNode n).locationLists loc).Sublist (s.locationLists loc) := by
  unfold removeNode
  dsimp only
  by_cases hloc : loc = (s.node n).waitLocation
  · subst hloc
    rw [Function.update_self]
    exact List.filter_sublist
  · rw [Function.update_of_ne hloc]

theorem addNode_queueStep (h : ∀ loc, n ∉ s.locationLists loc) :
    QueueStep (s.locationLists loc) ((s.addNode n).locationLists loc) := by
  unfold addNode
  dsimp only
  by_cases hloc : loc = (s.node n).waitLocation
  · subst hloc
    rw [Function.update_self]
    exact .join (h _)
  · rw [Function.update_of_ne hloc]
    exact .leave (.refl _)

theorem wakeNode_locationLists_sublist :
    ((s.wakeNode n).locationLists loc).Sublist (s.locationLists loc) := by
  unfold wakeNode
  dsimp only
  split
  · exact .refl _
  · exact removeNode_locationLists_sublist

theorem wakeLoop_locationLists_sublist (s : FutexState) (nodes : List NodeId) (count : ℕ) :
    ((s.wakeLoop nodes count).2.locationLists loc).Sublist (s.locationLists loc) := by
  induction nodes generalizing s count with
  | nil => exact .refl _
  | cons n nodes ih =>
    by_cases hcount : count = 0
    · rw [hcount, wakeLoop_zero]
    cases htakes : s.takes n with
    | false =>
      rw [wakeLoop_of_not_takes htakes]
      exact ih s count
    | true =>
      rcases (Bool.or_eq_true _ _).mp htakes with hwake | hdiscard
      · rw [wakeLoop_of_canWake hcount hwake]
        exact (ih _ _).trans wakeNode_locationLists_sublist
      · obtain ⟨st, -, hloop⟩ := wakeLoop_of_discards nodes hcount hdiscard
        rw [hloop]
        exact removeNode_locationLists_sublist

/-- A new waiter joins a list at its end, and every other step only takes nodes out of it. -/
theorem exec_queueStep (h : s.WellFormed) (hs : s.exec o = some s') (loc : ℕ) :
    QueueStep (s.locationLists loc) (s'.locationLists loc) := by
  cases step_of_exec hs with
  | wake => exact .leave (wakeLoop_locationLists_sublist s _ _)
  | @startWait a _ _ ha =>
    exact addNode_queueStep (s := s.setNode _ _) (h.not_listed (by rw [ha]; rfl))
  | startAsync =>
    exact addNode_queueStep (s := FutexState.setNode { s with nextAsync := s.nextAsync + 1 } _ _)
      fun loc hmem ↦ absurd (h.created hmem) (Nat.lt_irrefl _)
  | woken | timedOut | threw | asyncTimeout => exact .leave removeNode_locationLists_sublist
  | isolateDeinit => exact .leave List.filter_sublist
  | _ => exact .leave (.refl _)

/-- A node is replaced by one that `Wake` can take only if it could take it before. -/
theorem takes_of_setNode {x : FutexNode} {f : AsyncState → AsyncState} (ht : s'.takes m = true)
    (hnode : s'.node = Function.update s.node n x) (hw : x.waiting = (s.node n).waiting)
    (hst : x.asyncState = (s.node n).asyncState.map f)
    (htime : ∀ st, (f st).hasTimeoutTime = st.hasTimeoutTime)
    (hexpired : ∀ st, st.backingStoreExpired = true → (f st).backingStoreExpired = true) :
    s.takes m = true := by
  by_cases hm : m = n
  · subst hm
    have hx : s'.node m = x := by rw [hnode, Function.update_self]
    cases hm : (s.node m).asyncState with
    | none => simpa [takes, canWake, discards, hx, hw, hst, hm] using ht
    | some st =>
      have hwait : (s.node m).waiting = true := by
        rw [← hw, ← hx]
        exact waiting_of_takes ht
      cases he : st.backingStoreExpired with
      | false => simp [takes, canWake, hwait, hm, he]
      | true =>
        simpa [takes, canWake, discards, hx, hw, hst, hm, he, htime, hexpired st he] using ht
  · rwa [← takes_congr (by rw [hnode, Function.update_of_ne hm])]

/-- A node whose waiting ends cannot be taken any more. -/
theorem takes_of_cleared {x : FutexNode} (ht : s'.takes m = true)
    (hnode : s'.node = Function.update s.node n x) (hw : x.waiting = false) :
    s.takes m = true := by
  by_cases hm : m = n
  · subst hm
    have hwait := waiting_of_takes ht
    rw [hnode, Function.update_self, hw] at hwait
    cases hwait
  · rwa [← takes_congr (by rw [hnode, Function.update_of_ne hm])]

/-- A node of a list that `Wake` would take could already be taken before a step. -/
theorem exec_takes (h : s.WellFormed) (hs : s.exec o = some s') (hm : m ∈ s.locationLists loc)
    (ht : s'.takes m = true) : s.takes m = true := by
  cases step_of_exec hs with
  | setTid | call | notify | notEqual | block | resume | handled | waitComplete | immediate |
    takePromises | resolved => exact ht
  | expire => exact takes_of_setNode ht rfl rfl rfl (fun _ ↦ rfl) (fun _ _ ↦ rfl)
  | notifyWake | interrupted =>
    exact takes_of_setNode (f := id) ht rfl rfl (by simp) (fun _ ↦ rfl) fun _ ↦ id
  | resolveNext | wokenInTime | asyncTimeout =>
    exact takes_of_setNode ht rfl rfl rfl (fun _ ↦ rfl) fun _ ↦ id
  | @wake _ loc' count =>
    rcases s.wakeLoop_node (s.locationLists loc') count m with hsame | hcleared
    · rwa [← takes_congr hsame]
    · exact absurd ((waiting_of_takes ht).symm.trans hcleared) (by decide)
  | woken | timedOut | threw => exact takes_of_cleared ht rfl rfl
  | @startWait a _ _ ha =>
    have hne : m ≠ .sync a := fun hma ↦ h.not_listed (by rw [ha]; rfl) loc (hma ▸ hm)
    exact (takes_congr (s := s) (Function.update_of_ne hne _ _)).symm.trans ht
  | startAsync =>
    have hne : m ≠ .async s.nextAsync := fun hma ↦ Nat.lt_irrefl _ (h.created (hma ▸ hm))
    exact (takes_congr (s := s) (Function.update_of_ne hne _ _)).symm.trans ht
  | @isolateDeinit a =>
    by_cases hb : s.belongsTo m a = true
    · have hcancel : (s.setNode m (s.cancelTimeoutTask m)).takes m = true := by
        refine (takes_congr ?_).trans ht
        simp [hb]
      exact takes_of_setNode hcancel rfl rfl rfl (fun _ ↦ rfl) fun _ ↦ id
    · exact (takes_congr (s := s) (if_neg hb)).symm.trans ht

end Steps

/-! ### The lists after the loop -/

/-- The nodes `l` are taken in this order: they do not wait any more, and those of asynchronous
waits move from the list of their location to the end of the list of their isolate. -/
structure Takes (s s' : FutexState) (l : List NodeId) : Prop where
  waiting (n : NodeId) : (s'.node n).waiting = ((s.node n).waiting && decide (n ∉ l))
  isAsync (n : NodeId) : (s'.node n).asyncState.isSome = (s.node n).asyncState.isSome
  belongsTo (n : NodeId) (a : Isolate) : s'.belongsTo n a = s.belongsTo n a
  node {n : NodeId} (h : n ∉ l) : s'.node n = s.node n
  locationLists (loc : ℕ) : s'.locationLists loc =
    (s.locationLists loc).filter fun n ↦ decide (n ∉ l) || !(s.node n).asyncState.isSome
  promisesToResolve (a : Isolate) : s'.promisesToResolve a =
    s.promisesToResolve a ++ l.filter fun n ↦ s.belongsTo n a

namespace Takes

variable {s s' s'' : FutexState} {l l' : List NodeId} {n : NodeId} {loc : ℕ}

theorem refl (s : FutexState) : Takes s s [] where
  waiting n := by simp
  isAsync _ := rfl
  belongsTo _ _ := rfl
  node _ := rfl
  locationLists loc := by simp
  promisesToResolve a := by simp

theorem trans (h : Takes s s' l) (h' : Takes s' s'' l') : Takes s s'' (l ++ l') where
  waiting n := by
    rw [h'.waiting, h.waiting, Bool.and_assoc]
    simp [not_or]
  isAsync n := (h'.isAsync n).trans (h.isAsync n)
  belongsTo n a := (h'.belongsTo n a).trans (h.belongsTo n a)
  node {n} hn := by
    obtain ⟨hl, hl'⟩ := not_or.mp (mt List.mem_append.mpr hn)
    exact (h'.node hl').trans (h.node hl)
  locationLists loc := by
    rw [h'.locationLists, h.locationLists, List.filter_filter]
    refine List.filter_congr fun n _ ↦ ?_
    rw [h.isAsync]
    cases (s.node n).asyncState.isSome <;> simp [Bool.and_comm]
  promisesToResolve a := by
    simp only [h'.promisesToResolve, h.promisesToResolve, h.belongsTo, List.filter_append,
      List.append_assoc]

end Takes

section Exactness

variable {s s' : FutexState} {n : NodeId} {nodes : List NodeId} {loc : ℕ}

/-- A node of an asynchronous wait moves to the list of its isolate. -/
theorem takes_notifyAsyncWaiter (h : s.WellFormed) (hn : n ∈ s.locationLists loc)
    {st st' : AsyncState} (hst : (s.node n).asyncState = some st)
    (howner : st'.isolateForAsyncWaiters = st.isolateForAsyncWaiters) :
    Takes s ((s.setNode n { s.node n with
      waiting := false, asyncState := some st' }).notifyAsyncWaiter n st') [n] := by
  have hnode (m : NodeId) (hm : m ≠ n) : ((s.setNode n { s.node n with
      waiting := false, asyncState := some st' }).notifyAsyncWaiter n st').node m = s.node m := by
    simp [notifyAsyncWaiter_node, hm]
  constructor
  case waiting =>
    intro m
    by_cases hm : m = n
    · subst hm
      simp [notifyAsyncWaiter_node]
    · simp [hnode m hm, hm]
  case isAsync =>
    intro m
    by_cases hm : m = n
    · subst hm
      simp [notifyAsyncWaiter_node, hst]
    · rw [hnode m hm]
  case belongsTo =>
    intro m a
    by_cases hm : m = n
    · subst hm
      simp [FutexState.belongsTo, notifyAsyncWaiter_node, hst, howner]
    · rw [FutexState.belongsTo, hnode m hm, FutexState.belongsTo]
  case node =>
    intro m hm
    exact hnode m (by simpa using hm)
  case locationLists =>
    intro loc'
    have hlist : ((s.setNode n { s.node n with
        waiting := false, asyncState := some st' }).notifyAsyncWaiter n st').locationLists loc' =
          Function.update s.locationLists loc ((s.locationLists loc).filter (· ≠ n)) loc' := by
      simp [notifyAsyncWaiter, removeNode, setNode, (h.listed hn).1]
    rw [hlist]
    by_cases hloc : loc' = loc
    · subst hloc
      rw [Function.update_self]
      refine List.filter_congr fun m _ ↦ ?_
      by_cases hm : m = n
      · subst hm
        simp [hst]
      · simp [hm]
    · rw [Function.update_of_ne hloc]
      refine (List.filter_eq_self.mpr fun m hm ↦ ?_).symm
      have hne : m ≠ n := by
        rintro rfl
        exact hloc ((h.listed hm).1.symm.trans (h.listed hn).1)
      simp [hne]
  case promisesToResolve =>
    intro a
    rw [notifyAsyncWaiter_promisesToResolve, howner]
    by_cases ha : a = st.isolateForAsyncWaiters
    · subst ha
      simp [FutexState.belongsTo, hst, setNode]
    · rw [Function.update_of_ne ha]
      simp [FutexState.belongsTo, hst, setNode, Ne.symm ha]

theorem takes_wakeNode (h : s.WellFormed) (hn : n ∈ s.locationLists loc) :
    Takes s (s.wakeNode n) [n] := by
  cases hst : (s.node n).asyncState with
  | none =>
    have hwake : s.wakeNode n = s.setNode n { s.node n with waiting := false } := by
      simp [wakeNode, setNode, hst]
    have hnode (m : NodeId) (hm : m ≠ n) : (s.wakeNode n).node m = s.node m :=
      wakeNode_node_of_ne hm
    have hself : ((s.wakeNode n).node n).asyncState = none := by simp [hwake, hst]
    constructor
    case waiting =>
      intro m
      by_cases hm : m = n
      · subst hm
        simp [wakeNode_waiting]
      · simp [hnode m hm, hm]
    case isAsync =>
      intro m
      by_cases hm : m = n
      · rw [hm, hself, hst]
      · rw [hnode m hm]
    case belongsTo =>
      intro m a
      by_cases hm : m = n
      · rw [FutexState.belongsTo, hm, hself, FutexState.belongsTo, hst]
      · rw [FutexState.belongsTo, hnode m hm, FutexState.belongsTo]
    case node =>
      intro m hm
      exact hnode m (by simpa using hm)
    case locationLists =>
      intro loc'
      rw [hwake]
      refine (List.filter_eq_self.mpr fun m _ ↦ ?_).symm
      by_cases hm : m = n
      · simp [hm, hst]
      · simp [hm]
    case promisesToResolve =>
      intro a
      rw [hwake]
      simp [FutexState.belongsTo, hst, setNode]
  | some st =>
    have hwake : s.wakeNode n = (s.setNode n { s.node n with
        waiting := false, asyncState := some st }).notifyAsyncWaiter n st := by
      simp only [wakeNode, setNode, Function.update_self, hst]
    rw [hwake]
    exact takes_notifyAsyncWaiter h hn hst rfl

theorem takes_discardNode (h : s.WellFormed) (hn : n ∈ s.locationLists loc) {st : AsyncState}
    (hst : (s.node n).asyncState = some st) : Takes s (s.discardNode n st) [n] :=
  takes_notifyAsyncWaiter h hn hst rfl

theorem candidates_congr (h : ∀ n ∈ nodes, s'.node n = s.node n) :
    s'.candidates nodes = s.candidates nodes := by
  induction nodes with
  | nil => rfl
  | cons n nodes ih =>
    have hn := h n List.mem_cons_self
    have hrest := ih fun m hm ↦ h m (List.mem_cons_of_mem n hm)
    unfold candidates at hrest ⊢
    rw [List.takeWhile_cons, List.takeWhile_cons, discards_congr hn]
    cases s.discards n with
    | true => rfl
    | false => simp only [Bool.not_false, if_true, List.filter_cons, canWake_congr hn, hrest]

theorem find?_discards_congr (h : ∀ n ∈ nodes, s'.node n = s.node n) :
    nodes.find? s'.discards = nodes.find? s.discards := by
  induction nodes with
  | nil => rfl
  | cons n nodes ih =>
    rw [List.find?_cons, List.find?_cons, discards_congr (h n List.mem_cons_self),
      ih fun m hm ↦ h m (List.mem_cons_of_mem n hm)]

theorem candidates_of_not_takes (nodes : List NodeId) (h : s.takes n = false) :
    s.candidates (n :: nodes) = s.candidates nodes := by
  obtain ⟨hwake, hdiscard⟩ := (Bool.or_eq_false_iff).mp h
  simp [candidates, hdiscard, hwake]

theorem candidates_of_canWake (h : s.canWake n = true) :
    s.candidates (n :: nodes) = n :: s.candidates nodes := by
  simp [candidates, not_discards_of_canWake h, h]

theorem candidates_of_discards (nodes : List NodeId) (h : s.discards n = true) :
    s.candidates (n :: nodes) = [] := by
  simp [candidates, h]

/-- A round of the loop that wakes a node leaves the others for the rounds after it. -/
theorem wokenNodes_of_canWake {count : ℕ} (hcount : count ≠ 0) (h : s.canWake n = true) :
    s.wokenNodes (n :: nodes) count =
      n :: s.wokenNodes nodes (if count = kWakeAll then count else count - 1) := by
  unfold wokenNodes
  rw [candidates_of_canWake h]
  split_ifs with hall heq hrest heq hrest
  · rfl
  · rfl
  · omega
  · omega
  · omega
  · obtain ⟨c, rfl⟩ := Nat.exists_eq_succ_of_ne_zero hcount
    rfl

theorem discardedNode_of_canWake {count : ℕ} (h : s.canWake n = true) :
    s.discardedNode (n :: nodes) count =
      s.discardedNode nodes (if count = kWakeAll then count else count - 1) := by
  have hiff : (kWakeAll ≤ count ∨ (s.candidates (n :: nodes)).length < count) ↔
      (kWakeAll ≤ (if count = kWakeAll then count else count - 1) ∨
        (s.candidates nodes).length < (if count = kWakeAll then count else count - 1)) := by
    rw [candidates_of_canWake h, List.length_cons]
    split_ifs <;> omega
  simp only [discardedNode, hiff, List.find?_cons, not_discards_of_canWake h]

/-- The loop wakes the nodes that it should wake, in their order, and discards at most one. -/
theorem WellFormed.wakeLoop_takes (h : s.WellFormed)
    (hnodes : ∀ n ∈ nodes, (s.node n).waiting = true → n ∈ s.locationLists loc)
    (hnodup : nodes.Nodup) (count : ℕ) :
    (s.wakeLoop nodes count).1 = (s.wokenNodes nodes count).length ∧
      Takes s (s.wakeLoop nodes count).2
        (s.wokenNodes nodes count ++ (s.discardedNode nodes count).toList) := by
  induction nodes generalizing s count with
  | nil =>
    have hwoken : s.wokenNodes [] count = [] := by simp [wokenNodes, candidates]
    have hdiscarded : s.discardedNode [] count = none := by simp [discardedNode]
    rw [hwoken, hdiscarded]
    exact ⟨rfl, .refl s⟩
  | cons n nodes ih =>
    obtain ⟨hn, hnodup⟩ := List.nodup_cons.mp hnodup
    have htail := fun m hm ↦ hnodes m (List.mem_cons_of_mem n hm)
    by_cases hcount : count = 0
    · have hpos : ¬kWakeAll ≤ 0 := by decide
      have hwoken : s.wokenNodes (n :: nodes) 0 = [] := by simp [wokenNodes, hpos]
      have hdiscarded : s.discardedNode (n :: nodes) 0 = none := by simp [discardedNode, hpos]
      rw [hcount, wakeLoop_zero, hwoken, hdiscarded]
      exact ⟨rfl, .refl s⟩
    cases htakes : s.takes n with
    | false =>
      have hcandidates := candidates_of_not_takes nodes htakes
      have hdiscard := ((Bool.or_eq_false_iff).mp htakes).2
      have hih := ih h htail hnodup count
      simp only [wokenNodes, discardedNode] at hih ⊢
      rw [wakeLoop_of_not_takes htakes, hcandidates, List.find?_cons, hdiscard]
      exact hih
    | true =>
      have hlist := hnodes n List.mem_cons_self (waiting_of_takes htakes)
      rcases (Bool.or_eq_true _ _).mp htakes with hwake | hdiscard
      · have hsame (m : NodeId) (hm : m ∈ nodes) : (s.wakeNode n).node m = s.node m :=
          wakeNode_node_of_ne fun hmn ↦ hn (hmn ▸ hm)
        have hkeep (m : NodeId) (hm : m ∈ nodes) (hw : ((s.wakeNode n).node m).waiting = true) :
            m ∈ (s.wakeNode n).locationLists loc :=
          ((wakes_wakeNode hlist (waiting_of_canWake hwake)).waiting hw).2
            (htail m hm (by rwa [← hsame m hm]))
        obtain ⟨hnumber, hrest⟩ := ih (h.wakeNode hlist) hkeep hnodup
          (if count = kWakeAll then count else count - 1)
        simp only [wokenNodes, discardedNode, candidates_congr hsame,
          find?_discards_congr hsame] at hnumber hrest
        rw [wakeLoop_of_canWake hcount hwake, wokenNodes_of_canWake hcount hwake,
          discardedNode_of_canWake hwake]
        exact ⟨congrArg (· + 1) hnumber, (takes_wakeNode h hlist).trans hrest⟩
      · obtain ⟨st, hst, hloop⟩ := wakeLoop_of_discards nodes hcount hdiscard
        have hcandidates := candidates_of_discards nodes hdiscard
        have hwoken : s.wokenNodes (n :: nodes) count = [] := by simp [wokenNodes, hcandidates]
        have hdiscarded : s.discardedNode (n :: nodes) count = some n := by
          simp [discardedNode, hcandidates, Nat.pos_of_ne_zero hcount, hdiscard]
        rw [hloop, hwoken, hdiscarded]
        exact ⟨rfl, takes_discardNode h hlist hst⟩

end Exactness

/-! ### The waiters ahead -/

section Ahead

variable {s s' : FutexState} {n m : NodeId} {loc : ℕ} {o : FutexStep}

/-- The nodes ahead of a waiter that `Wake` would take. -/
def takenAhead (s : FutexState) (n : NodeId) (loc : ℕ) : ℕ :=
  (aheadOf n (s.locationLists loc)).countP s.takes

/-- While a node waits, a step does not add to the nodes that are taken before it, and every `Wake`
takes one of them. -/
theorem exec_takenAhead (h : s.WellFormed) (hs : s.exec o = some s')
    (hnodup : (s.locationLists loc).Nodup) (hn : s.Waits n loc) (hn' : s'.Waits n loc) :
    s'.takenAhead n loc ≤ s.takenAhead n loc ∧
      (s.wakes loc o = true → s'.takenAhead n loc < s.takenAhead n loc) := by
  have hsub : (aheadOf n (s'.locationLists loc)).Sublist (aheadOf n (s.locationLists loc)) :=
    (exec_queueStep h hs loc).aheadOf_sublist hnodup hn.1 hn'.1
  have hmono (m : NodeId) (hm : m ∈ aheadOf n (s.locationLists loc)) (ht : s'.takes m = true) :
      s.takes m = true := exec_takes h hs (aheadOf_sublist.subset hm) ht
  refine ⟨hsub.countP_le.trans (List.countP_mono_left hmono), fun ho ↦ ?_⟩
  refine hsub.countP_le.trans_lt ?_
  cases step_of_exec hs with
  | @wake a loc' count ha =>
    simp only [wakes, ha, Bool.and_eq_true, decide_eq_true_eq] at ho
    obtain ⟨rfl, hcount⟩ := ho
    obtain ⟨m, hm, htakes, hcleared⟩ :=
      exists_taken_aheadOf hn.1 hcount.ne' hn.2 (waiting_of_canWake hn'.2)
    refine countP_lt_of_mem hmono hm ?_ htakes
    refine (Bool.not_eq_true _).mp fun ht ↦ ?_
    exact absurd ((waiting_of_takes ht).symm.trans hcleared) (by decide)
  | _ => cases ho

/-- A `Wake` that leaves a waiter does not wake those behind it. -/
theorem exec_wake_waiting (h : s.WellFormed) {a : Isolate} (hs : s.exec (.wake a) = some s')
    (hn : s.Waits n loc) (hn' : s'.Waits n loc) (hm : m ∈ s.locationLists loc)
    (hbehind : m ∉ aheadOf n (s.locationLists loc)) :
    (s'.node m).waiting = (s.node m).waiting := by
  cases step_of_exec hs with
  | @wake _ loc' count =>
    rcases s.wakeLoop_node (s.locationLists loc') count m with hsame | hcleared
    · exact congrArg FutexNode.waiting hsame
    · cases hw : (s.node m).waiting with
      | false => exact hcleared
      | true =>
        have hloc : loc' = loc :=
          (h.listed ((h.wake loc' count).2.cleared hw hcleared)).1.symm.trans (h.listed hm).1
        subst hloc
        exact absurd
          (mem_aheadOf_of_cleared hn.2 (waiting_of_canWake hn'.2) hw hcleared) hbehind

end Ahead

end FutexState

namespace FutexRun

variable {r : FutexRun} {i j k loc count : ℕ} {a : Isolate} {n m : NodeId}

/-- The step at a position is the critical section of a `Wake` for a location and for some
waiters. -/
def wakesAt (r : FutexRun) (loc j : ℕ) : Bool := (r.ops[j]?).any ((r.state j).wakes loc)

/-- No node is twice in a list. -/
theorem nodup (hk : k ≤ r.ops.length) (loc : ℕ) : ((r.state k).locationLists loc).Nodup := by
  refine r.invariant_of_step (P := fun s ↦ (s.locationLists loc).Nodup) List.nodup_nil
    (fun ho hnodup ↦ ?_) hk
  have hwf := wellFormed (List.getElem?_eq_some_iff.mp ho).1.le
  exact (FutexState.exec_queueStep hwf (r.step ho) loc).nodup hnodup

/-- The critical section of `Wake` wakes the first nodes of the list that can be woken, as many as
it was called for, and returns their number. It ends at the first node that it has to discard, if it
comes to it, and takes no other nodes. -/
theorem wake_exact (ho : r.ops[j]? = some (.wake a))
    (ha : (r.state j).pc a = .waking loc count) :
    ((r.state j).wakeLoop ((r.state j).locationLists loc) count).1 =
        ((r.state j).wokenNodes ((r.state j).locationLists loc) count).length ∧
      (r.state j).Takes (r.state (j + 1))
        ((r.state j).wokenNodes ((r.state j).locationLists loc) count ++
          ((r.state j).discardedNode ((r.state j).locationLists loc) count).toList) := by
  have hj := (List.getElem?_eq_some_iff.mp ho).1.le
  obtain ⟨hnumber, htakes⟩ := (wellFormed hj).wakeLoop_takes (fun n hn _ ↦ hn) (nodup hj loc) count
  refine ⟨hnumber, ?_⟩
  have hs := FutexState.step_of_exec (r.step ho)
  generalize r.state (j + 1) = s' at hs ⊢
  cases hs with
  | @wake _ loc' count' hpc =>
    cases ha.symm.trans hpc
    exact ⟨htakes.waiting, htakes.isAsync, htakes.belongsTo, htakes.node, htakes.locationLists,
      htakes.promisesToResolve⟩

/-- Five asynchronous waits of isolate 1, of which the last one begins during a `Wake` of isolate 0.
The backing stores of the first and of the third expire. -/
def queued : FutexRun :=
  .ofOps [.waitAsync 1 64 (some 5) true, .waitAsync 1 64 none true, .waitAsync 1 64 none true,
    .waitAsync 1 64 none true, .expire (.async 0), .notify 0 64 1, .waitAsync 1 64 none true,
    .wake 0, .expire (.async 2), .notify 0 64 2, .wake 0] (by decide)

theorem queued_wake :
    ((queued.state 7).wakeLoop ((queued.state 7).locationLists 64) 1).1 =
        ((queued.state 7).wokenNodes ((queued.state 7).locationLists 64) 1).length ∧
      (queued.state 10).Takes (queued.state 11)
        ((queued.state 10).wokenNodes ((queued.state 10).locationLists 64) 2 ++
          ((queued.state 10).discardedNode ((queued.state 10).locationLists 64) 2).toList) :=
  ⟨(wake_exact (r := queued) (j := 7) (a := 0) rfl rfl).1,
    (wake_exact (r := queued) (j := 10) (a := 0) rfl rfl).2⟩

/-- A waiter is never overtaken. If a node waits from point `i` on, and another one was not ahead of
it then, perhaps because it only began to wait later, then no `Wake` ends the waiting of the other
one and leaves the first one. -/
theorem no_overtaking (hik : i ≤ k) (ho : r.ops[k]? = some (.wake a))
    (hn : ∀ j, i ≤ j → j ≤ k + 1 → (r.state j).Waits n loc)
    (hm : m ∉ aheadOf n ((r.state i).locationLists loc))
    (hlist : m ∈ (r.state k).locationLists loc) :
    ((r.state (k + 1)).node m).waiting = ((r.state k).node m).waiting := by
  have hk := (List.getElem?_eq_some_iff.mp ho).1.le
  have hsub := r.aheadOf_sublist (fun s ↦ s.locationLists loc) (x := n) hik hk
    (fun {j _} _ _ hj ↦ FutexState.exec_queueStep
      (wellFormed (List.getElem?_eq_some_iff.mp hj).1.le) (r.step hj) loc)
    (nodup (hik.trans hk) loc) fun j hij hjk ↦ (hn j hij (hjk.trans k.le_succ)).1
  exact FutexState.exec_wake_waiting (wellFormed hk) (r.step ho) (hn k hik k.le_succ)
    (hn (k + 1) (hik.trans k.le_succ) le_rfl) hlist fun hahead ↦ hm (hsub.subset hahead)

theorem queued_in_order :
    ((queued.state 8).node (.async 4)).waiting = ((queued.state 7).node (.async 4)).waiting := by
  have hn (j : ℕ) (hij : 5 ≤ j) (hjk : j ≤ 8) : (queued.state j).Waits (.async 2) 64 := by
    interval_cases j <;> exact ⟨by decide, by decide⟩
  exact no_overtaking (k := 7) (a := 0) (by decide) rfl hn (by decide) (by decide)

/-- While a node waits, there are at most as many calls of `Wake` for its location and for some
waiters as there were nodes ahead of it to be taken. -/
theorem wakes_le_ahead (hik : i ≤ k) (hk : k ≤ r.ops.length)
    (hn : ∀ j, i ≤ j → j ≤ k → (r.state j).Waits n loc) :
    Nat.count (fun j ↦ r.wakesAt loc j = true) k ≤
      Nat.count (fun j ↦ r.wakesAt loc j = true) i + (r.state i).takenAhead n loc := by
  have hcount := r.count_add_le (fun s ↦ s.takenAhead n loc) (fun j ↦ r.wakesAt loc j = true) hik hk
    fun {j o} hij hjk hj ↦ by
      have hlt := (List.getElem?_eq_some_iff.mp hj).1.le
      obtain ⟨hle, hdrop⟩ := FutexState.exec_takenAhead (wellFormed hlt) (r.step hj)
        (nodup hlt loc) (hn j hij hjk.le) (hn (j + 1) (hij.trans j.le_succ) hjk)
      exact ⟨hle, fun hwakes ↦ hdrop (by simpa [wakesAt, hj] using hwakes)⟩
  omega

theorem queued_le_ahead : Nat.count (fun j ↦ queued.wakesAt 64 j = true) 11 ≤
    Nat.count (fun j ↦ queued.wakesAt 64 j = true) 5 +
      (queued.state 5).takenAhead (.async 3) 64 := by
  refine wakes_le_ahead (i := 5) (k := 11) (by decide) (by decide) fun j hij hjk ↦ ?_
  interval_cases j <;> exact ⟨by decide, by decide⟩

end FutexRun

end WebTSan
