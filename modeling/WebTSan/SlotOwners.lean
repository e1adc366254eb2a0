import WebTSan.Lifecycle
import WebTSan.Allocator

/-!
# Slots over the wired lifecycle

A pool worker that starts a pthread leaves the slot it got at its own start to nobody: only the
slot in the thread-local variable is given back at shutdown. And a worker keeps the tid of a pthread
that has finished, so that a join frees a slot that the worker still uses; the slot may then be
handed out again while the worker has it.

## Main definitions

* `WebTSan.Page.DistinctTids`, `WebTSan.Page.OwnersAlive`, `WebTSan.Page.NoLeak`.
* `WebTSan.Lifecycle.FindsFree`: every creation of a run finds a free slot.

## Main results

* `WebTSan.Lifecycle.slotOwnership_iff`.
-/

namespace WebTSan

namespace Page

/-- No two running OS threads have the same current tid. -/
def DistinctTids (s : Page) : Prop :=
  ∀ w ∈ s.running, ∀ w' ∈ s.running, ∀ t,
    s.currentTid w = some t → s.currentTid w' = some t → w = w'

/-- A live slot is the tid of a running thread or of a pthread that has not been joined. -/
def NoLeak (s : Page) : Prop :=
  ∀ t, s.detector.threadAlive t = true →
    (∃ w ∈ s.running, s.currentTid w = some t) ∨ ∃ p ∈ s.pthreads, p.tid = t ∧ p.stage ≠ .joined

instance (s : Page) : Decidable s.DistinctTids :=
  inferInstanceAs (Decidable (∀ w ∈ s.running, ∀ w' ∈ s.running, ∀ _, _ → _ → w = w'))

instance (s : Page) : Decidable s.NoLeak :=
  inferInstanceAs (Decidable (∀ _, _ → (∃ w ∈ s.running, _) ∨ ∃ p ∈ s.pthreads, _ ∧ _))

/-- The slots of running threads and of pthreads that have not started are alive. -/
def OwnersAlive (s : Page) : Prop :=
  (∀ w ∈ s.running, ∀ t, s.currentTid w = some t → s.detector.threadAlive t = true) ∧
    ∀ p ∈ s.pthreads, p.stage = .created → s.detector.threadAlive p.tid = true

/-- Every slot in use has one owner, and no pthread has started. -/
structure Tidy (s : Page) : Prop where
  exclusive : s.holding.Exclusive
  covered : s.holding.Covered
  created : ∀ p ∈ s.pthreads, p.stage = .created

variable {s : Page}

theorem ownerTid_os {w : ℕ} (hw : w ∈ s.running) : s.ownerTid (.os w) = s.currentTid w :=
  if_pos hw

theorem ownerTid_os_eq_some_iff {w : ℕ} {t : Tid} :
    s.ownerTid (.os w) = some t ↔ w ∈ s.running ∧ s.currentTid w = some t := by
  simp [ownerTid]

theorem ownerTid_pthread_eq_some_iff {i : ℕ} {t : Tid} :
    s.ownerTid (.pthread i) = some t ↔
      ∃ p, s.pthreads[i]? = some p ∧ p.stage = .created ∧ p.tid = t := by
  simp [ownerTid, Option.bind_eq_some_iff]

theorem distinctTids_of_exclusive (h : s.holding.Exclusive) : s.DistinctTids := by
  intro w hw w' hw' t ht ht'
  have hown : s.holding.own (.os w) = some t := (ownerTid_os hw).trans ht
  have hown' : s.holding.own (.os w') = some t := (ownerTid_os hw').trans ht'
  exact Owner.os.inj (h.eq_of_own hown hown')

/-- The slots of all owners are alive. -/
theorem ownersAlive_iff :
    s.OwnersAlive ↔ ∀ o t, s.ownerTid o = some t → s.detector.threadAlive t = true := by
  constructor
  · intro h o t ho
    cases o with
    | os w =>
      obtain ⟨hw, ht⟩ := ownerTid_os_eq_some_iff.mp ho
      exact h.1 w hw t ht
    | pthread i =>
      obtain ⟨p, hp, hstage, rfl⟩ := ownerTid_pthread_eq_some_iff.mp ho
      exact h.2 p (List.mem_of_getElem? hp) hstage
  · intro h
    refine ⟨fun w hw t ht ↦ h (.os w) t ((ownerTid_os hw).trans ht), fun p hp hstage ↦ ?_⟩
    obtain ⟨i, hi⟩ := List.mem_iff_getElem?.mp hp
    exact h (.pthread i) p.tid (ownerTid_pthread_eq_some_iff.mpr ⟨p, hi, hstage, rfl⟩)

theorem ownersAlive_of_exclusive (h : s.holding.Exclusive) : s.OwnersAlive :=
  ownersAlive_iff.mpr fun _ _ ho ↦ h.live_of_own ho

theorem Tidy.noLeak (h : s.Tidy) : s.NoLeak := by
  intro t ht
  obtain ⟨o, ho⟩ := h.covered t ht
  cases o with
  | os w => exact .inl ⟨w, ownerTid_os_eq_some_iff.mp ho⟩
  | pthread i =>
    obtain ⟨p, hp, hstage, rfl⟩ := ownerTid_pthread_eq_some_iff.mp ho
    exact .inr ⟨p, List.mem_of_getElem? hp, rfl, by simp [hstage]⟩

/-- At the start the main thread has the only slot in use. -/
theorem tidy_initial : initial.Tidy where
  exclusive := by
    refine ⟨fun {o r} ho ↦ ?_, fun {o o' r} ho ho' ↦ ?_⟩
    · cases o with
      | os w =>
        obtain ⟨hw, ht⟩ := ownerTid_os_eq_some_iff.mp ho
        obtain rfl := Finset.mem_singleton.mp hw
        obtain rfl := Option.some.inj ht
        exact (rfl : initial.detector.threadAlive 0 = true)
      | pthread i => cases ho
    · cases o with
      | os w =>
        cases o' with
        | os w' =>
          obtain ⟨hw, -⟩ := ownerTid_os_eq_some_iff.mp ho
          obtain ⟨hw', -⟩ := ownerTid_os_eq_some_iff.mp ho'
          rw [Finset.mem_singleton.mp hw, Finset.mem_singleton.mp hw']
        | pthread i => cases ho'
      | pthread i => cases ho
  covered := by
    intro t ht
    obtain rfl : t = 0 := by
      by_contra hne
      have hdead : Function.update Detector.initial.threadAlive 0 true t = true := ht
      rw [Function.update_of_ne hne] at hdead
      cases hdead
    exact ⟨.os 0, rfl⟩
  created := nofun

/-- Starting a pthread on a worker leaks the slot that the worker had. -/
theorem Tidy.not_noLeak {w i : ℕ} {p : Pthread} (h : s.Tidy) (hs : s.Valid) (hw : w ∈ s.running)
    (hp : s.pthreads[i]? = some p) (hstage : p.stage = .created) :
    ¬((s.setStage i (.started w)).setCurrentTid w p.tid).NoLeak := by
  obtain ⟨r, hr⟩ := hs.exists_tid hw
  have hown : s.holding.own (.os w) = some r := (ownerTid_os hw).trans hr
  have hown' : s.holding.own (.pthread i) = some p.tid :=
    ownerTid_pthread_eq_some_iff.mpr ⟨p, hp, hstage, rfl⟩
  have hholding := setCurrentTid_holding hw hp hstage
  have hnobody := h.exclusive.own_transfer_ne (o := .pthread i) hown (by simp)
  rw [← hholding] at hnobody
  have halive : r ∈ ((s.setStage i (.started w)).setCurrentTid w p.tid).holding.live := by
    rw [hholding]
    exact h.exclusive.live_of_own hown
  intro hleak
  rcases hleak r halive with ⟨v, hv, ht⟩ | ⟨q, hq, rfl, -⟩
  · exact hnobody (.os v) ((ownerTid_os hv).trans ht)
  · obtain ⟨j, hj⟩ := List.mem_iff_getElem?.mp hq
    by_cases hji : j = i
    · -- The tid of the started pthread is not the one the worker had.
      have hqp : q.tid = p.tid := by
        have hj' : (s.pthreads.modify i fun p ↦ { p with stage := .started w })[j]? = some q := hj
        have hpq : { p with stage := .started w } = q := by simpa [hji, hp] using hj'
        rw [← hpq]
      have howner := h.exclusive.eq_of_own hown (hqp ▸ hown')
      cases howner
    · have hj' : (s.pthreads.modify i fun p ↦ { p with stage := .started w })[j]? = some q := hj
      have hold : s.pthreads[j]? = some q := by simpa [List.getElem?_modify, Ne.symm hji] using hj'
      have hcreated := h.created q (List.mem_of_getElem? hold)
      exact hnobody (.pthread j) (ownerTid_pthread_eq_some_iff.mpr ⟨q, hj, hcreated, rfl⟩)

end Page

namespace Lifecycle

variable {L : Lifecycle}

/-- Every step of a run that calls `ThreadCreate` finds a free slot. -/
def FindsFree (L : Lifecycle) : Prop :=
  ∀ k (hk : k < L.ops.length), L.ops[k].creates = true →
    ∃ t, (L.state k).detector.threadAlive t = false

instance (L : Lifecycle) : Decidable L.FindsFree :=
  inferInstanceAs (Decidable (∀ k (hk : k < L.ops.length), L.ops[k].creates = true → ∃ t, _))

/-- A creation that finds a free slot keeps exclusiveness. -/
theorem exclusive_grant (hfree : L.FindsFree) {k : ℕ} {a : Step} (ha : L.ops[k]? = some a)
    (hcreates : a.creates = true) (h : (L.state k).holding.Exclusive) {t : Tid}
    (ht : (L.state k).detector.findSlot = t) (o : Owner) :
    ((L.state k).holding.grant o t).Exclusive := by
  obtain ⟨hk, rfl⟩ := List.getElem?_eq_some_iff.mp ha
  obtain ⟨u, hu, hdead⟩ := Detector.exists_findSlot_of_free (hfree k hk hcreates)
  obtain rfl : t = u := Fin.ext (ht.symm.trans hu)
  refine h.grant (fun hlive ↦ ?_) o
  have halive : (L.state k).detector.threadAlive t = true := hlive
  rw [hdead] at halive
  cases halive

/-- Slots have one owner each as long as joins free only slots without one. -/
theorem exclusive (hfree : L.FindsFree)
    (hjoin : ∀ k w i, L.ops[k]? = some (.pthreadJoin w i) → ∀ p, (L.state k).pthreads[i]? = some p →
      ∀ o, (L.state k).ownerTid o ≠ some p.tid) {k : ℕ} (hk : k ≤ L.ops.length) :
    (L.state k).holding.Exclusive := by
  refine L.invariant_of_step (P := fun s ↦ s.holding.Exclusive) Page.tidy_initial.exclusive
    (fun {k a} ha hs ↦ ?_) hk
  have hvalid := L.valid (List.getElem?_eq_some_iff.mp ha).1.le
  rcases Step.exec_cases hvalid (L.step ha) with ⟨hcreates, o, t, ht, -, h⟩ |
    ⟨w, i, p, -, -, -, -, -, h⟩ | ⟨w, -, h⟩ | ⟨w, i, p, rfl, hp, -, h⟩ | ⟨w, -, h⟩
  · rw [h]
    exact exclusive_grant hfree ha hcreates hs ht o
  · rw [h]
    exact hs.transfer ..
  · rwa [h]
  · rw [h]
    exact hs.free_iff.mpr (hjoin k w i ha p hp)
  · rw [h]
    exact hs.release ..

/-- As long as no pthread starts, every slot in use has one owner. -/
theorem tidy (hfree : L.FindsFree) {k : ℕ} (hk : k ≤ L.ops.length)
    (hset : ∀ j < k, ∀ w i, L.ops[j]? ≠ some (.setCurrentTid w i)) : (L.state k).Tidy := by
  induction k with
  | zero =>
    rw [L.state_zero]
    exact Page.tidy_initial
  | succ k ih =>
    have hs := ih (Nat.le_of_succ_le hk) fun j hj ↦ hset j (Nat.lt_succ_of_lt hj)
    have hvalid := L.valid (Nat.le_of_succ_le hk)
    have ha := List.getElem?_eq_getElem hk
    have hne (w i : ℕ) : L.ops[k] ≠ .setCurrentTid w i := fun he ↦
      hset k (Nat.lt_succ_self k) w i (ha.trans (congrArg some he))
    have hcreated := Step.exec_created hne hs.created (L.step ha)
    rcases Step.exec_cases hvalid (L.step ha) with ⟨hcreates, o, t, ht, ho, h⟩ |
      ⟨w, i, p, hset', -⟩ | ⟨w, -, h⟩ | ⟨w, i, p, -, hp, hstage, -⟩ | ⟨w, -, h⟩
    · refine ⟨?_, ?_, hcreated⟩ <;> rw [h]
      · exact exclusive_grant hfree ha hcreates hs.exclusive ht o
      · exact hs.covered.grant ho t
    · exact absurd hset' (hne w i)
    · exact ⟨h ▸ hs.exclusive, h ▸ hs.covered, hcreated⟩
    · -- No pthread has finished.
      have hp' := hs.created p (List.mem_of_getElem? hp)
      rw [hstage] at hp'
      cases hp'
    · refine ⟨?_, ?_, hcreated⟩ <;> rw [h]
      · exact hs.exclusive.release ..
      · exact hs.covered.release (.os w)

/-- In runs that do not run out of slots: running threads have distinct tids, and slots of running
threads and of pthreads that have not started stay alive, exactly if every join is of a pthread
whose slot is not the tid of such a thread. And running threads have distinct tids and no slot
leaks exactly if no pthread is started. -/
theorem slotOwnership_iff (L : Lifecycle) (hfree : L.FindsFree) :
    ((∀ k ≤ L.ops.length, (L.state k).DistinctTids ∧ (L.state k).OwnersAlive) ↔
      ∀ k w i, L.ops[k]? = some (.pthreadJoin w i) →
        ∀ p, (L.state k).pthreads[i]? = some p →
          (∀ v ∈ (L.state k).running, (L.state k).currentTid v ≠ some p.tid) ∧
          ∀ q ∈ (L.state k).pthreads, q.stage = .created → q.tid ≠ p.tid) ∧
    ((∀ k ≤ L.ops.length, (L.state k).DistinctTids ∧ (L.state k).NoLeak) ↔
      ∀ (k w i : ℕ), L.ops[k]? ≠ some (.setCurrentTid w i)) := by
  have hunowned (s : Page) (t : Tid) : (∀ o, s.ownerTid o ≠ some t) ↔
      (∀ v ∈ s.running, s.currentTid v ≠ some t) ∧
        ∀ q ∈ s.pthreads, q.stage = .created → q.tid ≠ t := by
    constructor
    · intro h
      refine ⟨fun v hv ht ↦ h (.os v) ((Page.ownerTid_os hv).trans ht), fun q hq hstage ht ↦ ?_⟩
      obtain ⟨j, hj⟩ := List.mem_iff_getElem?.mp hq
      exact h (.pthread j) (Page.ownerTid_pthread_eq_some_iff.mpr ⟨q, hj, hstage, ht⟩)
    · rintro ⟨hos, hpthread⟩ (v | j) ho
      · obtain ⟨hv, ht⟩ := Page.ownerTid_os_eq_some_iff.mp ho
        exact hos v hv ht
      · obtain ⟨q, hq, hstage, ht⟩ := Page.ownerTid_pthread_eq_some_iff.mp ho
        exact hpthread q (List.mem_of_getElem? hq) hstage ht
  refine ⟨⟨fun hgood k w i ha p hp ↦ (hunowned _ _).mp fun o ho ↦ ?_, fun hjoin k hk ↦ ?_⟩,
    ⟨fun hgood k w i ha ↦ ?_, fun hset k hk ↦ ?_⟩⟩
  · -- A join of an owned slot leaves the owner with a dead slot.
    have hk := (List.getElem?_eq_some_iff.mp ha).1
    rcases Step.exec_cases (L.valid hk.le) (L.step ha) with ⟨hcreates, -⟩ | ⟨_, _, _, he, -⟩ |
      ⟨_, he, -⟩ | ⟨v, j, q, he, hq, -, h⟩ | ⟨_, he, -⟩ <;> try cases he
    · cases hcreates
    · obtain rfl := Option.some.inj (hq.symm.trans hp)
      have hown : (L.state (k + 1)).holding.own o = some q.tid := by
        rw [h]
        exact ho
      have hlive : q.tid ∈ (L.state (k + 1)).holding.live :=
        Page.ownersAlive_iff.mp (hgood (k + 1) hk).2 o q.tid hown
      rw [h] at hlive
      exact hlive.2 rfl
  · have hs := exclusive hfree (fun j w i ha p hp ↦ (hunowned _ _).mpr (hjoin j w i ha p hp)) hk
    exact ⟨Page.distinctTids_of_exclusive hs, Page.ownersAlive_of_exclusive hs⟩
  · -- The first start of a pthread leaks a slot.
    classical
    have hex : ∃ j w i, L.ops[j]? = some (Step.setCurrentTid w i) := ⟨k, w, i, ha⟩
    obtain ⟨w, i, ha⟩ := Nat.find_spec hex
    have hj := (List.getElem?_eq_some_iff.mp ha).1
    have hs := tidy hfree hj.le fun j hj w i hset ↦ Nat.find_min hex hj ⟨w, i, hset⟩
    rcases Step.exec_cases (L.valid hj.le) (L.step ha) with ⟨hcreates, -⟩ |
      ⟨v, j, p, he, hv, hp, hstage, h, -⟩ | ⟨_, he, -⟩ | ⟨_, _, _, he, -⟩ | ⟨_, he, -⟩ <;>
      try cases he
    · cases hcreates
    · refine hs.not_noLeak (L.valid hj.le) hv hp hstage ?_
      rw [← h]
      exact (hgood _ hj).2
  · have hs := tidy hfree hk fun j _ ↦ hset j
    exact ⟨Page.distinctTids_of_exclusive hs.exclusive, hs.noLeak⟩

/-- A worker starts and shuts down, and a pthread is created that never starts. -/
def withoutStart : Lifecycle :=
  .ofOps [.workerInit 1, .pthreadCreate 0, .workerShutdown 1] (by decide)

theorem withoutStart_noLeak : (withoutStart.state 3).DistinctTids ∧ (withoutStart.state 3).NoLeak :=
  (withoutStart.slotOwnership_iff (by decide +kernel)).2.mpr (fun k w i h ↦ by
    have hmem := List.mem_of_getElem? h
    simp [withoutStart, Execution.ofOps] at hmem) 3 le_rfl

/-- A pthread runs on a pool worker and is joined. Then workers come and go, until the slot of the
joined pthread is handed out again. -/
def poolReuse : Lifecycle :=
  .ofOps ([.workerInit 1, .pthreadCreate 0, .setCurrentTid 1 0, .threadFinish 1,
      .pthreadJoin 0 0] ++
    (List.range 61).flatMap (fun i ↦ [.workerInit (i + 2), .workerShutdown (i + 2)]) ++
    [.workerInit 100]) (by decide +kernel)

/-- Once the pthread has started, the slot of the pool worker leaks. In the end the pool worker and
a new worker have the same current tid. -/
theorem exists_sharedTid_of_join : ∃ L : Lifecycle, L.FindsFree ∧ ¬(L.state 3).NoLeak ∧
    ¬(L.state L.ops.length).DistinctTids :=
  ⟨poolReuse, by decide +kernel, by decide +kernel, by decide +kernel⟩

end Lifecycle

end WebTSan
