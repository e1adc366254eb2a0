import WebTSan.Execution
import WebTSan.Detector

/-!
# Runs of the enabled detector

`Op` lists the calls that a page makes while the detector stays enabled and is not reset. A `Run`
is a finite sequence of calls from the initial enabled state together with the states between
them. Positions in a run are numbers: `run.state k` is the state before the call `run.ops[k]`.

## Main definitions

* `WebTSan.Op`, `WebTSan.Op.exec`.
* `WebTSan.Run`, `WebTSan.Run.ofOps`.
* `WebTSan.Run.Creates`: a call that creates a thread, with the slot it returns.

## Main results

* `WebTSan.Detector.memoryAccess_eq`, `WebTSan.Detector.memoryAccess_found`: what an access does.
* `WebTSan.Op.exec_slots`: what a call does to the allocator of slots.
* `WebTSan.Run.invariant`: an invariant of the calls holds along every run.
-/

namespace WebTSan

/-- A call of a member function of the enabled detector. -/
inductive Op
  | threadCreate (parentTid : ℕ)
  | threadFinish (tid : Tid)
  | threadDestroy (tid : Tid)
  | threadJoin (joinerTid childTid : Tid)
  | threadDetach (childTid : Tid)
  | threadAbsorb (dstTid srcTid : Tid)
  | acquire (tid : Tid) (syncAddr : ℕ)
  | release (tid : Tid) (syncAddr : ℕ)
  | mutexCreate (addr : ℕ)
  | mutexDestroy (addr : ℕ)
  | mutexPreLock (tid : Tid) (addr : ℕ)
  | mutexPostLock (tid : Tid) (addr : ℕ)
  | mutexUnlock (tid : Tid) (addr : ℕ)
  | mutexReadLock (tid : Tid) (addr : ℕ)
  | mutexReadUnlock (tid : Tid) (addr : ℕ)
  | happensBefore (senderTid : Tid)
  | happensAfter (receiverTid : Tid) (edgeId : ℕ)
  | removeShadow (backingStore : ℕ)
  | clearShadow (backingStore offset size : ℕ)
  | memoryAccess (backingStore sabByteLength offset size : ℕ) (tid : Tid) (isWrite : Bool)
deriving DecidableEq

/-- The state after a call, if the call returns. -/
def Op.exec (s : Detector) : Op → Option Detector
  | .threadCreate parentTid => (s.threadCreate parentTid).map Prod.snd
  | .threadFinish tid => some (s.threadFinish tid)
  | .threadDestroy tid => some (s.threadDestroy tid)
  | .threadJoin joinerTid childTid => some (s.threadJoin joinerTid childTid)
  | .threadDetach childTid => some (s.threadDetach childTid)
  | .threadAbsorb dstTid srcTid => some (s.threadAbsorb dstTid srcTid)
  | .acquire tid syncAddr => some (s.acquire tid syncAddr)
  | .release tid syncAddr => some (s.release tid syncAddr)
  | .mutexCreate addr => some (s.mutexCreate addr)
  | .mutexDestroy addr => some (s.mutexDestroy addr)
  | .mutexPreLock tid addr => some (s.mutexPreLock tid addr)
  | .mutexPostLock tid addr => some (s.mutexPostLock tid addr)
  | .mutexUnlock tid addr => some (s.mutexUnlock tid addr)
  | .mutexReadLock tid addr => some (s.mutexReadLock tid addr)
  | .mutexReadUnlock tid addr => some (s.mutexReadUnlock tid addr)
  | .happensBefore senderTid => some (s.happensBefore senderTid).2
  | .happensAfter receiverTid edgeId => some (s.happensAfter receiverTid edgeId)
  | .removeShadow backingStore => some (s.removeShadow backingStore)
  | .clearShadow backingStore offset size => s.clearShadow backingStore offset size
  | .memoryAccess backingStore sabByteLength offset size tid isWrite =>
    some (s.memoryAccess backingStore sabByteLength offset size tid isWrite).2

namespace Detector

variable (s : Detector)

/-! ### What single calls leave alone -/

theorem findSlot_lt (h : s.nextTid < kMaxThreads) : s.findSlot < kMaxThreads := by
  unfold findSlot
  split
  · exact (s.candidate _).isLt
  · exact h

/-- The search ends at once when the slot it starts with is free. -/
theorem findSlot_of_free (h : s.threadAlive (s.candidate 0) = false) :
    s.findSlot = s.candidate 0 := by
  have hrange : List.range kMaxThreads = 0 :: List.range' 1 63 := rfl
  rw [findSlot, hrange, List.find?_cons_of_pos (by simp [h])]

/-- `ThreadCreate` occupies the slot it returns. -/
theorem threadCreate_eq_some_iff {s : Detector} {parentTid : ℕ} {tid : Tid} {s' : Detector} :
    s.threadCreate parentTid = some (tid, s') ↔
      s.findSlot = tid ∧ s' = s.occupy tid parentTid := by
  dsimp only [threadCreate]
  constructor
  · intro h
    split_ifs at h with hlt
    obtain ⟨rfl, rfl⟩ := Prod.mk.inj (Option.some.inj h)
    exact ⟨rfl, rfl⟩
  · rintro ⟨h, rfl⟩
    have hlt : s.findSlot < kMaxThreads := h ▸ tid.isLt
    rw [dif_pos hlt]
    simp only [h]

section Occupy

variable (tid : Tid) (parentTid : ℕ)

@[simp] theorem occupy_threadAlive :
    (s.occupy tid parentTid).threadAlive = Function.update s.threadAlive tid true := rfl

@[simp] theorem occupy_threadClocks : (s.occupy tid parentTid).threadClocks =
    Function.update s.threadClocks tid ((s.birthClock tid parentTid).increment tid) := rfl

end Occupy

/-- Joining the clock of an address changes thread clocks only. -/
theorem joinSync_eq (tid : Tid) (addr : ℕ) :
    ∃ clocks, s.joinSync tid addr = { s with threadClocks := clocks } := by
  unfold joinSync
  cases s.syncClocks addr with
  | none => exact ⟨_, rfl⟩
  | some clk => exact ⟨_, rfl⟩

/-- Receiving a message changes thread clocks and edges only. -/
theorem happensAfter_eq (receiverTid : Tid) (edgeId : ℕ) : ∃ clocks edges,
    s.happensAfter receiverTid edgeId = { s with threadClocks := clocks, hbEdges := edges } := by
  unfold happensAfter
  split_ifs
  · exact ⟨_, _, rfl⟩
  · cases s.hbEdges edgeId with
    | none => exact ⟨_, _, rfl⟩
    | some clk => exact ⟨_, _, rfl⟩

/-- Absorbing a slot changes thread clocks only. -/
theorem threadAbsorb_eq (dstTid srcTid : Tid) :
    ∃ clocks, s.threadAbsorb dstTid srcTid = { s with threadClocks := clocks } := by
  unfold threadAbsorb
  split_ifs <;> exact ⟨_, rfl⟩

/-- Reporting a race changes the counters and the reported sites only. -/
theorem reportRace_eq (backingStore : ℕ) (report : RaceReport) :
    ∃ races logged sites, (s.reportRace backingStore report).2 =
      { s with
        racesDetected := races
        firstRaceLogged := logged
        reportedRaceSites := sites } := by
  dsimp only [reportRace]
  split_ifs
  · exact ⟨_, _, _, rfl⟩
  · exact ⟨_, _, _, rfl⟩

/-- The shadow of a buffer, empty when the buffer has none yet. -/
def shadowOf (backingStore sabByteLength : ℕ) : ShadowBuffer :=
  (s.shadowBuffers backingStore).getD (ShadowBuffer.new backingStore sabByteLength)

theorem shadowFor_eq_none_iff (backingStore sabByteLength : ℕ) :
    s.shadowFor backingStore sabByteLength = none ↔
      s.shadowBuffers backingStore = none ∧ sabByteLength = 0 := by
  unfold shadowFor
  split_ifs with h <;> simp [h]

/-- Looking up the shadow of an access changes at most the shadow of this buffer. -/
theorem eq_of_shadowFor_eq_some {backingStore sabByteLength : ℕ} {shadow : ShadowBuffer}
    {s' : Detector} (h : s.shadowFor backingStore sabByteLength = some (shadow, s')) :
    shadow = s.shadowOf backingStore sabByteLength ∧
      ∃ o, s' = { s with shadowBuffers := Function.update s.shadowBuffers backingStore o } := by
  have hself : s = { s with
      shadowBuffers :=
        Function.update s.shadowBuffers backingStore (s.shadowBuffers backingStore) } := by
    rw [Function.update_eq_self]
  unfold shadowFor getOrCreateShadow at h
  unfold shadowOf
  cases hs : s.shadowBuffers backingStore with
  | none =>
    rw [hs] at h
    split_ifs at h
    · cases h
    · obtain ⟨rfl, rfl⟩ := Prod.mk.inj (Option.some.inj h)
      exact ⟨rfl, _, rfl⟩
  | some shadow' =>
    rw [hs] at h
    split_ifs at h <;>
      · obtain ⟨rfl, rfl⟩ := Prod.mk.inj (Option.some.inj h)
        exact ⟨rfl, _, hself⟩

/-- Recording an access changes one shadow, the counters and the reported sites only. -/
theorem recordIn_eq (shadow : ShadowBuffer) (backingStore offset size : ℕ) (tid : Tid)
    (isWrite : Bool) :
    ∃ races logged sites, (s.recordIn shadow backingStore offset size tid isWrite).2 =
      { s with
        shadowBuffers := Function.update s.shadowBuffers backingStore
          (some (shadow.recordAccess offset size tid isWrite (s.threadClocks tid)).2)
        racesDetected := races
        firstRaceLogged := logged
        reportedRaceSites := sites } := by
  dsimp only [recordIn]
  split
  · exact ⟨_, _, _, rfl⟩
  · exact reportRace_eq ..

theorem recordIn_found (shadow : ShadowBuffer) (backingStore offset size : ℕ) (tid : Tid)
    (isWrite : Bool) : (s.recordIn shadow backingStore offset size tid isWrite).1.found =
      (shadow.recordAccess offset size tid isWrite (s.threadClocks tid)).1 := by
  dsimp only [recordIn]
  split
  · next h => rw [h]
  · next report h =>
    rw [h]
    dsimp only [reportRace]
    split_ifs <;> rfl

/-- An access changes at most one shadow, the counters and the reported sites. The shadow is
untouched only if the buffer has none and its length is not known. -/
theorem memoryAccess_eq (he : s.enabled = true) (backingStore sabByteLength offset size : ℕ)
    (tid : Tid) (isWrite : Bool) :
    ∃ o races checked logged sites,
      (s.memoryAccess backingStore sabByteLength offset size tid isWrite).2 =
        { s with
          shadowBuffers := Function.update s.shadowBuffers backingStore o
          racesDetected := races
          accessesChecked := checked
          firstRaceLogged := logged
          reportedRaceSites := sites } ∧
      (o = none ∧ s.shadowBuffers backingStore = none ∧ sabByteLength = 0 ∨
        o = some ((s.shadowOf backingStore sabByteLength).recordAccess offset size tid isWrite
          (s.threadClocks tid)).2) := by
  dsimp only [memoryAccess]
  rw [if_neg (by simp [he])]
  split
  · next h =>
    obtain ⟨hs, hlen⟩ := (shadowFor_eq_none_iff ..).mp h
    refine ⟨none, s.racesDetected, bump s.accessesChecked, s.firstRaceLogged, s.reportedRaceSites,
      ?_, .inl ⟨rfl, hs, hlen⟩⟩
    have hself : Function.update s.shadowBuffers backingStore none = s.shadowBuffers := by
      rw [← hs, Function.update_eq_self]
    rw [hself]
  · next shadow s' h =>
    obtain ⟨rfl, o, rfl⟩ := eq_of_shadowFor_eq_some _ h
    obtain ⟨races, logged, sites, hr⟩ := recordIn_eq
      { s with
        accessesChecked := bump s.accessesChecked
        shadowBuffers := Function.update s.shadowBuffers backingStore o }
      (s.shadowOf backingStore sabByteLength) backingStore offset size tid isWrite
    have hupdate (o' : Option ShadowBuffer) :
        Function.update (Function.update s.shadowBuffers backingStore o) backingStore o' =
          Function.update s.shadowBuffers backingStore o' := Function.update_idem ..
    refine ⟨some ((s.shadowOf backingStore sabByteLength).recordAccess offset size tid isWrite
      (s.threadClocks tid)).2, races, bump s.accessesChecked, logged, sites, ?_, .inr rfl⟩
    refine hr.trans ?_
    dsimp only
    rw [hupdate]

/-- The race that `MemoryAccess` finds is the one of `RecordAccess` on the shadow so far. -/
theorem memoryAccess_found (he : s.enabled = true) (backingStore sabByteLength offset size : ℕ)
    (tid : Tid) (isWrite : Bool) :
    (s.memoryAccess backingStore sabByteLength offset size tid isWrite).1.found =
      ((s.shadowOf backingStore sabByteLength).recordAccess offset size tid isWrite
        (s.threadClocks tid)).1 := by
  dsimp only [memoryAccess]
  rw [if_neg (by simp [he])]
  split
  · next h =>
    obtain ⟨hs, rfl⟩ := (shadowFor_eq_none_iff ..).mp h
    have hs' : s.shadowBuffers backingStore = none := hs
    rw [shadowOf, hs', Option.getD_none, ShadowBuffer.recordAccess_of_le (Nat.zero_le _)]
  · next shadow s' h =>
    obtain ⟨rfl, o, rfl⟩ := eq_of_shadowFor_eq_some _ h
    exact recordIn_found ..

/-- Clearing a shadow changes the shadows only. -/
theorem clearShadow_eq {s s' : Detector} {backingStore offset size : ℕ}
    (h : s.clearShadow backingStore offset size = some s') :
    ∃ shadows, s' = { s with shadowBuffers := shadows } := by
  unfold clearShadow at h
  split_ifs at h
  · obtain rfl := Option.some.inj h
    exact ⟨_, rfl⟩
  · cases hs : s.shadowBuffers backingStore with
    | none =>
      rw [hs] at h
      obtain rfl := Option.some.inj h
      exact ⟨_, rfl⟩
    | some shadow =>
      rw [hs] at h
      obtain ⟨shadow', -, rfl⟩ := Option.map_eq_some_iff.mp h
      exact ⟨_, rfl⟩

end Detector

namespace Op

/-- The calls that concern the shadows. -/
def concernsMemory : Op → Bool
  | .removeShadow _ | .clearShadow .. | .memoryAccess .. => true
  | _ => false

/-- The other calls leave the shadows, the counters and the reported sites alone. -/
theorem exec_eq_of_not_memory {s s' : Detector} {o : Op} (h : o.exec s = some s')
    (ho : o.concernsMemory = false) :
    ∃ clocks alive next orphan sync edges nextEdge, s' =
      { s with
        threadClocks := clocks
        threadAlive := alive
        nextTid := next
        orphanClock := orphan
        syncClocks := sync
        hbEdges := edges
        nextEdgeId := nextEdge } := by
  cases o with
  | threadCreate p =>
    obtain ⟨⟨t, s''⟩, hc, rfl⟩ := Option.map_eq_some_iff.mp h
    obtain ⟨-, rfl⟩ := Detector.threadCreate_eq_some_iff.mp hc
    exact ⟨_, _, _, _, _, _, _, rfl⟩
  | happensAfter r id =>
    obtain rfl := Option.some.inj h
    obtain ⟨clocks, edges, hs⟩ := s.happensAfter_eq r id
    exact ⟨_, _, _, _, _, _, _, hs⟩
  | acquire t a | mutexPostLock t a | mutexReadLock t a =>
    obtain rfl := Option.some.inj h
    obtain ⟨clocks, hs⟩ := s.joinSync_eq t a
    simp only [Detector.acquire, Detector.mutexPostLock, Detector.mutexReadLock]
    split_ifs
    · exact ⟨_, _, _, _, _, _, _, rfl⟩
    · exact ⟨_, _, _, _, _, _, _, hs⟩
  | threadAbsorb d t =>
    obtain rfl := Option.some.inj h
    obtain ⟨clocks, hs⟩ := s.threadAbsorb_eq d t
    exact ⟨_, _, _, _, _, _, _, hs⟩
  | threadDetach | mutexPreLock | mutexReadUnlock =>
    obtain rfl := Option.some.inj h
    exact ⟨_, _, _, _, _, _, _, rfl⟩
  | removeShadow | clearShadow | memoryAccess => cases ho
  | _ =>
    obtain rfl := Option.some.inj h
    simp only [Detector.threadFinish, Detector.threadDestroy, Detector.threadJoin,
      Detector.release, Detector.mutexCreate, Detector.mutexDestroy, Detector.mutexUnlock,
      Detector.happensBefore]
    split_ifs <;> exact ⟨_, _, _, _, _, _, _, rfl⟩

theorem exec_shadowBuffers_of_not_memory {s s' : Detector} {o : Op} (h : o.exec s = some s')
    (ho : o.concernsMemory = false) : s'.shadowBuffers = s.shadowBuffers := by
  obtain ⟨_, _, _, _, _, _, _, rfl⟩ := exec_eq_of_not_memory h ho
  rfl

theorem exec_enabled {s s' : Detector} {o : Op} (h : o.exec s = some s') :
    s'.enabled = s.enabled := by
  cases o with
  | removeShadow bs =>
    obtain rfl := Option.some.inj h
    unfold Detector.removeShadow
    split_ifs <;> rfl
  | clearShadow bs off size =>
    obtain ⟨shadows, rfl⟩ := Detector.clearShadow_eq h
    rfl
  | memoryAccess bs len off size t w =>
    obtain rfl := Option.some.inj h
    by_cases he : s.enabled = true
    · obtain ⟨_, _, _, _, _, hs, -⟩ := s.memoryAccess_eq he bs len off size t w
      rw [hs]
    · simp [Detector.memoryAccess, he]
  | _ =>
    obtain ⟨_, _, _, _, _, _, _, rfl⟩ := exec_eq_of_not_memory h rfl
    rfl

/-- The slot that a call frees. -/
def frees : Op → Option Tid
  | .threadDestroy tid => some tid
  | .threadJoin _ childTid => some childTid
  | _ => none

/-- What a call does to the allocator of slots: it creates a thread, or only frees a slot. -/
theorem exec_slots {s s' : Detector} {o : Op} (he : s.enabled = true) (h : o.exec s = some s') :
    (∃ (p : ℕ) (t : Tid), o = .threadCreate p ∧ s.findSlot = t ∧ s' = s.occupy t p) ∨
      (∀ p, o ≠ .threadCreate p) ∧ s'.nextTid = s.nextTid ∧
        ∀ u, s'.threadAlive u = if o.frees = some u then false else s.threadAlive u := by
  cases o with
  | threadCreate p =>
    obtain ⟨⟨t, s''⟩, hc, rfl⟩ := Option.map_eq_some_iff.mp h
    obtain ⟨hslot, rfl⟩ := Detector.threadCreate_eq_some_iff.mp hc
    exact .inl ⟨p, t, rfl, hslot, rfl⟩
  | threadDestroy t | threadJoin j t =>
    obtain rfl := Option.some.inj h
    refine .inr ⟨nofun, ?_, fun u ↦ ?_⟩
    · simp [Detector.threadDestroy, Detector.threadJoin, he]
    · by_cases hu : u = t
      · subst hu
        simp [Detector.threadDestroy, Detector.threadJoin, he, frees]
      · simp [Detector.threadDestroy, Detector.threadJoin, he, frees, hu, Ne.symm hu]
  | clearShadow bs off size =>
    obtain ⟨shadows, rfl⟩ := Detector.clearShadow_eq h
    exact .inr ⟨nofun, rfl, fun _ ↦ rfl⟩
  | memoryAccess bs len off size t w =>
    obtain rfl := Option.some.inj h
    obtain ⟨_, _, _, _, _, hs, -⟩ := s.memoryAccess_eq he bs len off size t w
    rw [hs]
    exact .inr ⟨nofun, rfl, fun _ ↦ rfl⟩
  | happensAfter r id =>
    obtain rfl := Option.some.inj h
    obtain ⟨clocks, edges, hs⟩ := s.happensAfter_eq r id
    rw [hs]
    exact .inr ⟨nofun, rfl, fun _ ↦ rfl⟩
  | acquire t a | mutexPostLock t a | mutexReadLock t a =>
    obtain rfl := Option.some.inj h
    obtain ⟨clocks, hs⟩ := s.joinSync_eq t a
    simp only [Detector.acquire, Detector.mutexPostLock, Detector.mutexReadLock, he,
      Bool.not_true, Bool.false_eq_true, ↓reduceIte]
    rw [hs]
    exact .inr ⟨nofun, rfl, fun _ ↦ rfl⟩
  | threadAbsorb d t =>
    obtain rfl := Option.some.inj h
    obtain ⟨clocks, hs⟩ := s.threadAbsorb_eq d t
    rw [hs]
    exact .inr ⟨nofun, rfl, fun _ ↦ rfl⟩
  | _ =>
    obtain rfl := Option.some.inj h
    refine .inr ⟨nofun, ?_, fun u ↦ ?_⟩ <;>
      simp [frees, Detector.threadFinish, Detector.threadDetach, Detector.release,
        Detector.publishSync, Detector.mutexCreate, Detector.mutexDestroy, Detector.eraseSync,
        Detector.mutexPreLock, Detector.mutexUnlock, Detector.mutexReadUnlock,
        Detector.happensBefore, Detector.removeShadow, he]

/-- The search for a slot starts inside of the array. -/
theorem exec_nextTid_lt {s s' : Detector} {o : Op} (he : s.enabled = true)
    (hs : s.nextTid < kMaxThreads) (h : o.exec s = some s') : s'.nextTid < kMaxThreads := by
  rcases exec_slots he h with ⟨p, t, rfl, -, rfl⟩ | ⟨-, hnext, -⟩
  · exact Nat.mod_lt _ (by decide)
  · rwa [hnext]

/-- Every call but `ClearShadow` returns. -/
theorem exec_isSome {s : Detector} (hs : s.nextTid < kMaxThreads) {o : Op}
    (ho : ∀ bs off size, o ≠ .clearShadow bs off size) : (o.exec s).isSome = true := by
  cases o with
  | threadCreate p =>
    have hlt := s.findSlot_lt hs
    simp [exec, Detector.threadCreate, hlt]
  | clearShadow bs off size => exact absurd rfl (ho bs off size)
  | _ => rfl

end Op

theorem execAll_isSome {s : Detector} (he : s.enabled = true) (hs : s.nextTid < kMaxThreads)
    {ops : List Op} (hops : ∀ o ∈ ops, ∀ bs off size, o ≠ .clearShadow bs off size) :
    (execAll Op.exec s ops).isSome = true := by
  induction ops generalizing s with
  | nil => rfl
  | cons o ops ih =>
    obtain ⟨s', hs'⟩ := Option.isSome_iff_exists.mp
      (Op.exec_isSome hs (hops o List.mem_cons_self))
    rw [execAll, hs']
    exact ih (Op.exec_enabled hs' ▸ he) (Op.exec_nextTid_lt he hs hs') fun o' ho' ↦
      hops o' (List.mem_cons_of_mem o ho')

/-- A finite run from the initial enabled state, in which every call returns. -/
abbrev Run := Execution Op.exec Detector.initial

namespace Run

variable (r : Run)

theorem enabled {k : ℕ} (hk : k ≤ r.ops.length) : (r.state k).enabled = true :=
  r.invariant_of_step (P := fun s ↦ s.enabled = true) rfl
    (fun ho hs ↦ (Op.exec_enabled (r.step ho)).trans hs) hk

/-- An invariant of the calls holds in every state of a run. -/
theorem invariant {P : Detector → Prop} (h₀ : P Detector.initial)
    (hstep : ∀ {s s' : Detector} {o : Op}, s.enabled = true → P s → o.exec s = some s' → P s')
    {k : ℕ} (hk : k ≤ r.ops.length) : P (r.state k) := by
  refine r.invariant_of_step h₀ (fun {j _} ho hs ↦ ?_) hk
  have hj : j < r.ops.length := (List.getElem?_eq_some_iff.mp ho).1
  exact hstep (r.enabled hj.le) hs (r.step ho)

/-- The call at position `k` creates a thread in slot `tid`. -/
def Creates (k : ℕ) (tid : Tid) : Prop :=
  ∃ p, r.ops[k]? = some (.threadCreate p) ∧
    (r.state k).threadCreate p = some (tid, r.state (k + 1))

end Run

end WebTSan
