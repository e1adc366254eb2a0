import WebTSan.Run
import WebTSan.Ownership

/-!
# The wired thread lifecycle

The detector knows slots; which OS thread acts for which slot is decided outside of it. Every OS
thread keeps its slot in a thread-local variable. A worker gets a slot when it starts, and gives
back the slot in its variable when it shuts down. In between the page may put the slot of a pthread
into the variable, and may join pthreads, which frees their slots.

A `Page` is the detector together with the OS threads and with what the page knows of its pthreads.
Thread `0` is the main thread. The OS threads and the pthreads are named by numbers; a pthread by
its position in the order of creation. The discipline of the page is `Step.Allowed`.

## Main definitions

* `WebTSan.Page`, `WebTSan.Page.initial`, and the callbacks `workerInit`, `pthreadCreate`,
  `setCurrentTid`, `threadFinish`, `pthreadJoin`, `workerShutdown`.
* `WebTSan.Step`, `WebTSan.Step.Allowed`, `WebTSan.Step.exec`, `WebTSan.Lifecycle`.
* `WebTSan.Page.holding`: the owners of slots.

## Main results

* `WebTSan.Step.exec_cases`: what a step does to the owners of slots.
* `WebTSan.Lifecycle.valid`.
-/

namespace WebTSan

/-- How far a pthread has come. -/
inductive Stage
  | created
  | started (worker : ℕ)
  | finished
  | joined
deriving DecidableEq

/-- What the page knows of a pthread: the tid that `__webTSanPthreadCreate` returned for it, and how
far it has come. -/
structure Pthread where
  tid : Tid
  stage : Stage

/-- The detector with the threads that use it. -/
structure Page where
  detector : Detector
  /-- The OS threads that have been initialized and not been shut down. -/
  running : Finset ℕ
  /-- The thread-local `g_current_tsan_tid`, with `none` for `UINT32_MAX`. -/
  currentTid : ℕ → Option Tid
  pthreads : List Pthread

namespace Page

/-- The page after `InitializeWebTSan` on the main thread. -/
def initial : Page :=
  { detector := Detector.initial.occupy 0 uint32Max
    running := {0}
    currentTid := Function.update (fun _ ↦ none) 0 (some 0)
    pthreads := [] }

/-- The slot of the main thread comes from `ThreadCreate`. -/
theorem threadCreate_initial :
    Detector.initial.threadCreate uint32Max = some (0, initial.detector) :=
  Detector.threadCreate_eq_some_iff.mpr ⟨by decide, rfl⟩

/-- A tid as the `uint32_t` of the source. -/
def rawTid : Option Tid → ℕ
  | some tid => tid
  | none => uint32Max

/-- `OnWorkerCreate` at the start of a worker. -/
def workerInit (s : Page) (worker : ℕ) : Option Page :=
  (s.detector.threadCreate uint32Max).map fun (tid, detector) ↦
    { s with
      detector := detector
      running := insert worker s.running
      currentTid := Function.update s.currentTid worker (some tid) }

/-- `PthreadCreateCallback`, with the record that the page makes of the returned tid. -/
def pthreadCreate (s : Page) (caller : ℕ) : Option Page :=
  (s.detector.threadCreate (rawTid (s.currentTid caller))).map fun (child, detector) ↦
    { s with
      detector := detector
      pthreads := s.pthreads ++ [{ tid := child, stage := .created }] }

/-- `SetCurrentTidCallback`: the clock of the old tid is merged into the new one. -/
def setCurrentTid (s : Page) (worker : ℕ) (newTid : Tid) : Page :=
  { s with
    detector :=
      match s.currentTid worker with
      | some prevTid =>
        if prevTid ≠ newTid then s.detector.threadAbsorb newTid prevTid else s.detector
      | none => s.detector
    currentTid := Function.update s.currentTid worker (some newTid) }

/-- `ThreadFinishCallback`. -/
def threadFinish (s : Page) (caller : ℕ) : Page :=
  match s.currentTid caller with
  | some tid => { s with detector := s.detector.threadFinish tid }
  | none => s

/-- `PthreadJoinCallback`. -/
def pthreadJoin (s : Page) (caller : ℕ) (child : Tid) : Page :=
  match s.currentTid caller with
  | some joiner => { s with detector := s.detector.threadJoin joiner child }
  | none => s

/-- `PerformShutdownOnWorkerThread`: destroy the current tid, then clear it. -/
def workerShutdown (s : Page) (worker : ℕ) : Page :=
  match s.currentTid worker with
  | some tid =>
    { s with
      detector := s.detector.threadDestroy tid
      running := s.running.erase worker
      currentTid := Function.update s.currentTid worker none }
  | none => { s with running := s.running.erase worker }

/-- The page notes how far a pthread has come. -/
def setStage (s : Page) (i : ℕ) (stage : Stage) : Page :=
  { s with pthreads := s.pthreads.modify i fun p ↦ { p with stage := stage } }

/-- The page notes that the pthread on a worker has finished. -/
def finishOn (s : Page) (worker : ℕ) : Page :=
  { s with
    pthreads := s.pthreads.map fun p ↦
      if p.stage = .started worker then { p with stage := .finished } else p }

/-- The stage of a pthread. -/
def stageOf (s : Page) (i : ℕ) : Option Stage := s.pthreads[i]?.map Pthread.stage

end Page

/-- A step of one OS thread. -/
inductive Step
  | workerInit (worker : ℕ)
  | pthreadCreate (caller : ℕ)
  | setCurrentTid (worker pthread : ℕ)
  | threadFinish (caller : ℕ)
  | pthreadJoin (caller pthread : ℕ)
  | workerShutdown (worker : ℕ)
deriving DecidableEq

namespace Step

/-- The discipline of the page: at most 63 threads run at once, a pthread is started once, on a
worker that has finished the ones before, and it is joined once, after it has finished. -/
def Allowed (s : Page) : Step → Prop
  | workerInit worker => worker ∉ s.running ∧ s.running.card < 63
  | pthreadCreate caller => caller ∈ s.running
  | setCurrentTid worker pthread =>
    worker ∈ s.running ∧ worker ≠ 0 ∧ (∀ p ∈ s.pthreads, p.stage ≠ .started worker) ∧
      s.stageOf pthread = some .created
  | threadFinish caller => caller ∈ s.running
  | pthreadJoin caller pthread => caller ∈ s.running ∧ s.stageOf pthread = some .finished
  | workerShutdown worker => worker ∈ s.running ∧ worker ≠ 0

instance (s : Page) (a : Step) : Decidable (a.Allowed s) := by
  cases a <;> unfold Allowed <;> infer_instance

/-- The state after a step that is allowed. -/
def effect (s : Page) : Step → Option Page
  | workerInit worker => s.workerInit worker
  | pthreadCreate caller => s.pthreadCreate caller
  | setCurrentTid worker pthread =>
    s.pthreads[pthread]?.map fun p ↦
      (s.setStage pthread (.started worker)).setCurrentTid worker p.tid
  | threadFinish caller => some ((s.finishOn caller).threadFinish caller)
  | pthreadJoin caller pthread =>
    s.pthreads[pthread]?.map fun p ↦ (s.setStage pthread .joined).pthreadJoin caller p.tid
  | workerShutdown worker => some (s.workerShutdown worker)

/-- The state after a step, if it is allowed and returns. -/
def exec (s : Page) (a : Step) : Option Page := if a.Allowed s then a.effect s else none

/-- The steps that call `ThreadCreate`. -/
def creates : Step → Bool
  | workerInit _ | pthreadCreate _ => true
  | _ => false

end Step

/-- A run of the page from the initialization on. -/
abbrev Lifecycle := Execution Step.exec Page.initial

/-- Whoever a slot can belong to. -/
inductive Owner
  | os (thread : ℕ)
  | pthread (index : ℕ)
deriving DecidableEq

namespace Page

/-- A running OS thread owns its current tid, and a pthread that has not started owns its tid. -/
def ownerTid (s : Page) : Owner → Option Tid
  | .os thread => if thread ∈ s.running then s.currentTid thread else none
  | .pthread index =>
    s.pthreads[index]?.bind fun p ↦ if p.stage = .created then some p.tid else none

/-- The owners of slots, and the slots that are alive. -/
def holding (s : Page) : Holding Owner Tid where
  own := s.ownerTid
  live := {t | s.detector.threadAlive t = true}

/-- The detector is enabled, and running threads have a tid. -/
structure Valid (s : Page) : Prop where
  enabled : s.detector.enabled = true
  exists_tid {w : ℕ} : w ∈ s.running → ∃ t, s.currentTid w = some t

end Page

/-! ### What the lifecycle calls do to the slots -/

namespace Detector

variable (s : Detector) (tid other : Tid)

@[simp] theorem threadFinish_threadAlive : (s.threadFinish tid).threadAlive = s.threadAlive := by
  unfold threadFinish
  split_ifs <;> rfl

@[simp] theorem threadAbsorb_threadAlive :
    (s.threadAbsorb tid other).threadAlive = s.threadAlive := by
  unfold threadAbsorb
  split_ifs <;> rfl

@[simp] theorem threadDestroy_threadAlive :
    (s.threadDestroy tid).threadAlive = Function.update s.threadAlive tid false := by
  unfold threadDestroy
  split_ifs <;> rfl

variable {s} in
theorem threadJoin_threadAlive (he : s.enabled = true) :
    (s.threadJoin tid other).threadAlive = Function.update s.threadAlive other false := by
  rw [threadJoin, if_neg (by simp [he])]

/-- The slots that are alive when one is freed. -/
theorem setOf_update_false (alive : Tid → Bool) :
    {t | Function.update alive tid false t = true} = {t | alive t = true} \ {tid} := by
  ext t
  by_cases ht : t = tid
  · simp [ht]
  · simp [ht]

/-- The slots that are alive when one is occupied. -/
theorem setOf_update_true (alive : Tid → Bool) :
    {t | Function.update alive tid true t = true} = insert tid {t | alive t = true} := by
  ext t
  by_cases ht : t = tid
  · simp [ht]
  · simp [ht]

end Detector

namespace Page

variable {s s' : Page} {w i : ℕ}

/-! ### What the callbacks do to the owners -/

theorem workerInit_holding (hw : w ∉ s.running) (h : s.workerInit w = some s') :
    ∃ t : Tid, s.detector.findSlot = t ∧ s.ownerTid (.os w) = none ∧
      s'.holding = s.holding.grant (.os w) t := by
  obtain ⟨⟨t, d⟩, hc, rfl⟩ := Option.map_eq_some_iff.mp h
  obtain ⟨hslot, rfl⟩ := Detector.threadCreate_eq_some_iff.mp hc
  refine ⟨t, hslot, by simp [ownerTid, hw], Holding.ext ?_ ?_⟩
  · funext o
    cases o with
    | os v =>
      by_cases hv : v = w
      · simp [holding, Holding.grant, ownerTid, hv]
      · simp [holding, Holding.grant, ownerTid, hv]
    | pthread j => simp [holding, Holding.grant, ownerTid]
  · exact Detector.setOf_update_true ..

theorem pthreadCreate_holding (h : s.pthreadCreate w = some s') :
    ∃ t : Tid, s.detector.findSlot = t ∧ s.ownerTid (.pthread s.pthreads.length) = none ∧
      s'.holding = s.holding.grant (.pthread s.pthreads.length) t := by
  obtain ⟨⟨t, d⟩, hc, rfl⟩ := Option.map_eq_some_iff.mp h
  obtain ⟨hslot, rfl⟩ := Detector.threadCreate_eq_some_iff.mp hc
  refine ⟨t, hslot, by simp [ownerTid], Holding.ext ?_ ?_⟩
  · funext o
    cases o with
    | os v => simp [holding, Holding.grant, ownerTid]
    | pthread j =>
      rcases lt_trichotomy j s.pthreads.length with hj | rfl | hj
      · simp [holding, Holding.grant, ownerTid, List.getElem?_append_left hj, hj.ne]
      · simp [holding, Holding.grant, ownerTid]
      · have hold : s.pthreads[j]? = none := List.getElem?_eq_none hj.le
        have hnew (p : Pthread) : (s.pthreads ++ [p])[j]? = none :=
          List.getElem?_eq_none (List.length_append.trans_le (Nat.succ_le_of_lt hj))
        simp [holding, Holding.grant, ownerTid, hj.ne', hold, hnew]
  · exact Detector.setOf_update_true ..

theorem setCurrentTid_holding {p : Pthread} (hw : w ∈ s.running) (hp : s.pthreads[i]? = some p)
    (hstage : p.stage = .created) :
    ((s.setStage i (.started w)).setCurrentTid w p.tid).holding =
      s.holding.transfer (.pthread i) (.os w) := by
  refine Holding.ext ?_ ?_
  · funext o
    cases o with
    | os v =>
      by_cases hv : v = w
      · simp [holding, Holding.transfer, ownerTid, setCurrentTid, setStage, hv, hw, hp, hstage]
      · simp [holding, Holding.transfer, ownerTid, setCurrentTid, setStage, hv]
    | pthread j =>
      by_cases hj : j = i
      · simp [holding, Holding.transfer, ownerTid, setCurrentTid, setStage, hj, hp]
      · simp [holding, Holding.transfer, ownerTid, setCurrentTid, setStage, hj, Ne.symm hj]
  · ext t
    dsimp only [holding, Holding.transfer, setCurrentTid, setStage]
    cases s.currentTid w with
    | none => rfl
    | some prev => by_cases hne : prev = p.tid <;> simp [hne]

theorem threadFinish_holding : ((s.finishOn w).threadFinish w).holding = s.holding := by
  refine Holding.ext ?_ ?_
  · funext o
    cases o with
    | os v =>
      dsimp only [holding, threadFinish, finishOn, ownerTid]
      cases s.currentTid w <;> rfl
    | pthread j =>
      have hstage (p : Pthread) :
          (if (if p.stage = .started w then { p with stage := .finished } else p).stage = .created
            then some (if p.stage = .started w then { p with stage := .finished } else p).tid
            else none) = if p.stage = .created then some p.tid else none := by
        cases hp : p.stage <;> grind
      dsimp only [holding, threadFinish, finishOn, ownerTid]
      cases s.currentTid w <;> cases hj : s.pthreads[j]? <;> simp [hj, hstage]
  · ext t
    dsimp only [holding, threadFinish, finishOn]
    cases s.currentTid w <;> simp

theorem pthreadJoin_holding {p : Pthread} (hs : s.Valid) (hw : w ∈ s.running)
    (hp : s.pthreads[i]? = some p) (hstage : p.stage = .finished) :
    ((s.setStage i .joined).pthreadJoin w p.tid).holding = s.holding.free p.tid := by
  obtain ⟨t, ht⟩ := hs.exists_tid hw
  refine Holding.ext ?_ ?_
  · funext o
    cases o with
    | os v => simp [holding, Holding.free, pthreadJoin, ht, ownerTid, setStage]
    | pthread j =>
      by_cases hj : j = i
      · simp [holding, Holding.free, pthreadJoin, ht, ownerTid, setStage, hj, hp, hstage]
      · simp [holding, Holding.free, pthreadJoin, ht, ownerTid, setStage, Ne.symm hj]
  · simp only [holding, Holding.free, pthreadJoin, ht, setStage,
      Detector.threadJoin_threadAlive _ _ hs.enabled]
    exact Detector.setOf_update_false ..

theorem workerShutdown_holding (hs : s.Valid) (hw : w ∈ s.running) :
    (s.workerShutdown w).holding = s.holding.release (.os w) := by
  obtain ⟨t, ht⟩ := hs.exists_tid hw
  refine Holding.ext ?_ ?_
  · funext o
    cases o with
    | os v =>
      by_cases hv : v = w
      · simp [holding, Holding.release, workerShutdown, ht, ownerTid, hv]
      · simp [holding, Holding.release, workerShutdown, ht, ownerTid, hv]
    | pthread j => simp [holding, Holding.release, workerShutdown, ht, ownerTid]
  · have hown : {r | s.ownerTid (.os w) = some r} = {t} := by
      ext r
      simp [ownerTid, hw, ht, eq_comm]
    simp only [holding, Holding.release, workerShutdown, ht, Detector.threadDestroy_threadAlive,
      hown]
    exact Detector.setOf_update_false ..

theorem valid_initial : initial.Valid where
  enabled := rfl
  exists_tid {w} hw := by
    obtain rfl := Finset.mem_singleton.mp hw
    exact ⟨0, rfl⟩

theorem stageOf_eq_some_iff {stage : Stage} :
    s.stageOf i = some stage ↔ ∃ p, s.pthreads[i]? = some p ∧ p.stage = stage :=
  Option.map_eq_some_iff

end Page

namespace Step

variable {s s' : Page} {a : Step}

/-- What a step does to the owners of slots. -/
theorem exec_cases (hs : s.Valid) (h : a.exec s = some s') :
    (a.creates = true ∧ ∃ (o : Owner) (t : Tid), s.detector.findSlot = t ∧ s.ownerTid o = none ∧
      s'.holding = s.holding.grant o t) ∨
    (∃ w i p, a = .setCurrentTid w i ∧ w ∈ s.running ∧ s.pthreads[i]? = some p ∧
      p.stage = .created ∧ s' = (s.setStage i (.started w)).setCurrentTid w p.tid ∧
      s'.holding = s.holding.transfer (.pthread i) (.os w)) ∨
    (∃ w, a = .threadFinish w ∧ s'.holding = s.holding) ∨
    (∃ w i p, a = .pthreadJoin w i ∧ s.pthreads[i]? = some p ∧ p.stage = .finished ∧
      s'.holding = s.holding.free p.tid) ∨
    (∃ w, a = .workerShutdown w ∧ s'.holding = s.holding.release (.os w)) := by
  unfold exec at h
  split_ifs at h with hallowed
  cases a with
  | workerInit w =>
    obtain ⟨t, ht⟩ := Page.workerInit_holding hallowed.1 h
    exact .inl ⟨rfl, .os w, t, ht⟩
  | pthreadCreate w =>
    obtain ⟨t, ht⟩ := Page.pthreadCreate_holding h
    exact .inl ⟨rfl, _, t, ht⟩
  | setCurrentTid w i =>
    obtain ⟨p, hp, hstage⟩ := Page.stageOf_eq_some_iff.mp hallowed.2.2.2
    rw [effect, hp, Option.map_some] at h
    obtain rfl := Option.some.inj h
    exact .inr (.inl ⟨w, i, p, rfl, hallowed.1, hp, hstage, rfl,
      Page.setCurrentTid_holding hallowed.1 hp hstage⟩)
  | threadFinish w =>
    obtain rfl := Option.some.inj h
    exact .inr (.inr (.inl ⟨w, rfl, Page.threadFinish_holding⟩))
  | pthreadJoin w i =>
    obtain ⟨p, hp, hstage⟩ := Page.stageOf_eq_some_iff.mp hallowed.2
    rw [effect, hp, Option.map_some] at h
    obtain rfl := Option.some.inj h
    exact .inr (.inr (.inr (.inl ⟨w, i, p, rfl, hp, hstage,
      Page.pthreadJoin_holding hs hallowed.1 hp hstage⟩)))
  | workerShutdown w =>
    obtain rfl := Option.some.inj h
    exact .inr (.inr (.inr (.inr ⟨w, rfl, Page.workerShutdown_holding hs hallowed.1⟩)))

/-- A pthread leaves the first stage when it is started on a worker, and not otherwise. -/
theorem exec_created (ha : ∀ w i, a ≠ .setCurrentTid w i)
    (hc : ∀ p ∈ s.pthreads, p.stage = .created) (h : a.exec s = some s') :
    ∀ p ∈ s'.pthreads, p.stage = .created := by
  unfold exec at h
  split_ifs at h with hallowed
  cases a with
  | workerInit w =>
    obtain ⟨_, -, rfl⟩ := Option.map_eq_some_iff.mp h
    exact hc
  | pthreadCreate w =>
    obtain ⟨_, -, rfl⟩ := Option.map_eq_some_iff.mp h
    intro p hp
    rcases List.mem_append.mp hp with hp | hp
    · exact hc p hp
    · rw [List.mem_singleton.mp hp]
  | setCurrentTid w i => exact absurd rfl (ha w i)
  | threadFinish w =>
    obtain rfl := Option.some.inj h
    intro p hp
    have hmap : p ∈ (s.finishOn w).pthreads := by
      dsimp only [Page.threadFinish] at hp
      cases htid : (s.finishOn w).currentTid w <;> rw [htid] at hp <;> exact hp
    obtain ⟨q, hq, rfl⟩ := List.mem_map.mp hmap
    simp [hc q hq]
  | pthreadJoin w i =>
    obtain ⟨p, hp, hstage⟩ := Page.stageOf_eq_some_iff.mp hallowed.2
    have hcreated := hc p (List.mem_of_getElem? hp)
    rw [hstage] at hcreated
    cases hcreated
  | workerShutdown w =>
    obtain rfl := Option.some.inj h
    dsimp only [Page.workerShutdown]
    cases s.currentTid w <;> exact hc

theorem exec_enabled (h : a.exec s = some s') : s'.detector.enabled = s.detector.enabled := by
  unfold exec at h
  split_ifs at h
  cases a with
  | workerInit w | pthreadCreate w =>
    obtain ⟨⟨t, d⟩, hc, rfl⟩ := Option.map_eq_some_iff.mp h
    obtain ⟨-, rfl⟩ := Detector.threadCreate_eq_some_iff.mp hc
    rfl
  | setCurrentTid w i =>
    obtain ⟨p, -, rfl⟩ := Option.map_eq_some_iff.mp h
    dsimp only [Page.setCurrentTid, Page.setStage]
    cases s.currentTid w with
    | none => rfl
    | some t =>
      by_cases ht : t = p.tid
      · simp [ht]
      · simpa [ht] using Op.exec_enabled (o := .threadAbsorb p.tid t) rfl
  | threadFinish w =>
    obtain rfl := Option.some.inj h
    dsimp only [Page.threadFinish, Page.finishOn]
    cases s.currentTid w with
    | none => rfl
    | some t => exact Op.exec_enabled (o := .threadFinish t) rfl
  | pthreadJoin w i =>
    obtain ⟨p, -, rfl⟩ := Option.map_eq_some_iff.mp h
    dsimp only [Page.pthreadJoin, Page.setStage]
    cases s.currentTid w with
    | none => rfl
    | some t => exact Op.exec_enabled (o := .threadJoin t p.tid) rfl
  | workerShutdown w =>
    obtain rfl := Option.some.inj h
    dsimp only [Page.workerShutdown]
    cases s.currentTid w with
    | none => rfl
    | some t => exact Op.exec_enabled (o := .threadDestroy t) rfl

/-- A running thread keeps a tid. -/
theorem exec_exists_tid (hs : ∀ w ∈ s.running, ∃ t, s.currentTid w = some t)
    (h : a.exec s = some s') : ∀ w ∈ s'.running, ∃ t, s'.currentTid w = some t := by
  unfold exec at h
  split_ifs at h
  cases a with
  | workerInit v =>
    obtain ⟨⟨t, d⟩, -, rfl⟩ := Option.map_eq_some_iff.mp h
    intro w hw
    rcases Finset.mem_insert.mp hw with rfl | hw
    · exact ⟨t, Function.update_self ..⟩
    · by_cases hwv : w = v
      · exact ⟨t, hwv ▸ Function.update_self ..⟩
      · exact (hs w hw).imp fun t ht ↦ (Function.update_of_ne hwv ..).trans ht
  | pthreadCreate v =>
    obtain ⟨_, -, rfl⟩ := Option.map_eq_some_iff.mp h
    exact hs
  | setCurrentTid v i =>
    obtain ⟨p, -, rfl⟩ := Option.map_eq_some_iff.mp h
    intro w hw
    by_cases hwv : w = v
    · exact ⟨p.tid, hwv ▸ Function.update_self ..⟩
    · exact (hs w hw).imp fun t ht ↦ (Function.update_of_ne hwv ..).trans ht
  | threadFinish v =>
    obtain rfl := Option.some.inj h
    dsimp only [Page.threadFinish, Page.finishOn]
    cases s.currentTid v <;> exact hs
  | pthreadJoin v i =>
    obtain ⟨p, -, rfl⟩ := Option.map_eq_some_iff.mp h
    dsimp only [Page.pthreadJoin, Page.setStage]
    cases s.currentTid v <;> exact hs
  | workerShutdown v =>
    obtain rfl := Option.some.inj h
    dsimp only [Page.workerShutdown]
    cases s.currentTid v with
    | none => exact fun w hw ↦ hs w (Finset.mem_of_mem_erase hw)
    | some t =>
      intro w hw
      obtain ⟨hwv, hw⟩ := Finset.mem_erase.mp hw
      exact (hs w hw).imp fun t ht ↦ (Function.update_of_ne hwv ..).trans ht

end Step

namespace Lifecycle

variable (L : Lifecycle)

theorem valid {k : ℕ} (hk : k ≤ L.ops.length) : (L.state k).Valid := by
  refine L.invariant_of_step Page.valid_initial (fun ho hs ↦ ?_) hk
  have h := L.step ho
  exact ⟨(Step.exec_enabled h).trans hs.enabled,
    fun hw ↦ Step.exec_exists_tid (fun _ ↦ hs.exists_tid) h _ hw⟩

end Lifecycle

end WebTSan
