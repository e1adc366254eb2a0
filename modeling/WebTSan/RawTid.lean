import WebTSan.Run

/-!
# Tids as array indices

The tid of a call is a `uint32_t`, and the member functions use it as an index into `thread_clocks_`
and `thread_alive_`. Some of them check it first, others do not. In this file tids are numbers, and
an array element is reached through `Detector.slot`, which faults outside of the arrays. With tids
below `kMaxThreads`, the member functions are those of `Detector`.

## Main definitions

* `WebTSan.Fault`, `WebTSan.OutOfRange`, `WebTSan.Detector.slot`.
* `WebTSan.RawTid.acquire` etc.: the member functions with an unchecked tid.
* `WebTSan.Detector.Reaches`: calls of member functions lead from one state to another one.

## Main results

* `WebTSan.RawTid.outOfRange_joinSync` etc.: when the functions that do not check a tid fault.
* `WebTSan.RawTid.exists_threadFinish` etc.: the functions that check a tid return.
-/

namespace WebTSan

/-- Why a call has no result. -/
inductive Fault
  /-- `thread_clocks_` or `thread_alive_` is used at an index that is not below `kMaxThreads`. -/
  | outOfRange (index : ℕ)
  /-- A `CHECK` stops the process. -/
  | check
  /-- A loop does not end. -/
  | loop
deriving DecidableEq

/-- An index of the call is out of range. -/
def OutOfRange {α : Type} (result : Except Fault α) : Prop :=
  ∃ index, result = .error (.outOfRange index)

section OutOfRange

variable {α β : Type}

@[simp] theorem not_outOfRange_ok (a : α) : ¬OutOfRange (.ok a) := nofun

@[simp] theorem outOfRange_map (f : α → β) (result : Except Fault α) :
    OutOfRange (result.map f) ↔ OutOfRange result := by
  cases result with
  | error fault => simp [OutOfRange, Except.map]
  | ok a => simp [Except.map]

theorem exists_of_bind_eq_ok {result : Except Fault α} {f : α → Except Fault β} {b : β}
    (h : result >>= f = .ok b) : ∃ a, result = .ok a ∧ f a = .ok b := by
  cases result with
  | error fault => cases h
  | ok a => exact ⟨a, rfl, h⟩

theorem outOfRange_bind {result : Except Fault α} {f : α → Except Fault β} :
    OutOfRange (result >>= f) ↔
      OutOfRange result ∨ ∃ a, result = .ok a ∧ OutOfRange (f a) := by
  cases result with
  | error fault =>
    refine ⟨fun ⟨index, h⟩ ↦ .inl ⟨index, ?_⟩, ?_⟩
    · cases h
      rfl
    · rintro (⟨index, h⟩ | ⟨a, h, -⟩)
      · cases h
        exact ⟨index, rfl⟩
      · cases h
  | ok a =>
    refine ⟨fun h ↦ .inr ⟨a, rfl, h⟩, ?_⟩
    rintro (h | ⟨b, hb, h⟩)
    · exact absurd h (not_outOfRange_ok a)
    · cases hb
      exact h

theorem outOfRange_bind_of_ok {result : Except Fault α} {f : α → Except Fault β} {a : α}
    (h : result = .ok a) : OutOfRange (result >>= f) ↔ OutOfRange (f a) := by
  rw [h]
  rfl

end OutOfRange

namespace Detector

/-- The element of `thread_clocks_` or `thread_alive_` at an index. -/
def slot (index : ℕ) : Except Fault Tid :=
  if h : index < kMaxThreads then .ok ⟨index, h⟩ else .error (.outOfRange index)

@[simp] theorem slot_coe (t : Tid) : slot t = .ok t := dif_pos t.isLt

theorem slot_of_le {index : ℕ} (h : kMaxThreads ≤ index) :
    slot index = .error (.outOfRange index) := dif_neg h.not_gt

/-- What uses an element is out of range exactly if the element does not exist. -/
theorem outOfRange_slot_bind {α : Type} {index : ℕ} {f : Tid → Except Fault α}
    (hf : ∀ t, ¬OutOfRange (f t)) : OutOfRange (slot index >>= f) ↔ kMaxThreads ≤ index := by
  rcases lt_or_ge index kMaxThreads with h | h
  · rw [outOfRange_bind_of_ok (slot_coe ⟨index, h⟩)]
    exact iff_of_false (hf _) h.not_ge
  · rw [slot_of_le h]
    exact iff_of_true ⟨index, rfl⟩ h

/-- `MemoryAccess` returns before it reads the clock of the thread: the length of the buffer is not
given, and there is no shadow. -/
def Untracked (s : Detector) (backingStore sabByteLength : ℕ) : Prop :=
  sabByteLength = 0 ∧ s.shadowBuffers backingStore = none

/-- One call of a member function. -/
def Calls (s s' : Detector) : Prop :=
  (∃ o : Op, o.exec s = some s') ∨ s' = s.incrementSuppressedCount

/-- Calls of member functions lead from one state to another one. -/
abbrev Reaches : Detector → Detector → Prop := Relation.ReflTransGen Calls

variable {s s' : Detector}

theorem Reaches.of_exec {o : Op} (h : o.exec s = some s') : s.Reaches s' := .single (.inl ⟨o, h⟩)

theorem Reaches.enabled (h : s.Reaches s') (he : s.enabled = true) : s'.enabled = true := by
  induction h with
  | refl => exact he
  | tail _ hcall ih =>
    rcases hcall with ⟨o, ho⟩ | rfl
    · exact (Op.exec_enabled ho).trans ih
    · exact ih

end Detector

/-! ### The member functions with unchecked tids -/

namespace RawTid

open Detector

section Definitions

variable (s : Detector)

/-- `ThreadCreate`. Its indices are remainders by `kMaxThreads`, the tid that passed the `CHECK`,
and a parent that is compared with `kMaxThreads` first. -/
def threadCreate (parentTid : ℕ) : Except Fault (Tid × Detector) :=
  match s.threadCreate parentTid with
  | some result => .ok result
  | none => .error .check

def threadFinish (tid : ℕ) : Except Fault Detector :=
  if !s.enabled then .ok s
  else if tid ≥ kMaxThreads then .ok s
  else do
    let t ← slot tid
    let finishing := s.threadClocks t
    return { s with
      orphanClock := s.orphanClock.join finishing
      threadClocks := fun i ↦
        if i = t ∨ s.threadAlive i = false then s.threadClocks i
        else (s.threadClocks i).join finishing }

/-- `ThreadDestroy`. While the detector is enabled, the write to `thread_alive_` is not checked. -/
def threadDestroy (tid : ℕ) : Except Fault Detector :=
  if s.enabled then do
    let orphanClock ←
      if tid < kMaxThreads then
        (slot tid).map fun t ↦
          if s.threadAlive t then s.orphanClock.join (s.threadClocks t) else s.orphanClock
      else .ok s.orphanClock
    let t ← slot tid
    return { s with
      orphanClock := orphanClock
      threadAlive := Function.update s.threadAlive t false }
  else if tid < kMaxThreads then do
    let t ← slot tid
    return { s with threadAlive := Function.update s.threadAlive t false }
  else .ok s

def threadJoin (joinerTid childTid : ℕ) : Except Fault Detector :=
  if !s.enabled then .ok s
  else if joinerTid ≥ kMaxThreads ∨ childTid ≥ kMaxThreads then .ok s
  else do
    let joiner ← slot joinerTid
    let child ← slot childTid
    return { s with
      threadClocks := Function.update s.threadClocks joiner
        ((s.threadClocks joiner).join (s.threadClocks child))
      threadAlive := Function.update s.threadAlive child false }

/-- `ThreadDetach` uses no element. -/
def threadDetach (_childTid : ℕ) : Except Fault Detector := .ok s

def threadAbsorb (dstTid srcTid : ℕ) : Except Fault Detector :=
  if !s.enabled then .ok s
  else if dstTid ≥ kMaxThreads ∨ srcTid ≥ kMaxThreads then .ok s
  else if dstTid = srcTid then .ok s
  else do
    let dst ← slot dstTid
    let src ← slot srcTid
    return { s with
      threadClocks := Function.update s.threadClocks dst
        ((s.threadClocks dst).join (s.threadClocks src)) }

/-- Join the clock stored at an address, if there is one, into the clock of a thread. -/
def joinSync (tid addr : ℕ) : Except Fault Detector :=
  match s.syncClocks addr with
  | none => .ok s
  | some clk => do
    let t ← slot tid
    return { s with
      threadClocks := Function.update s.threadClocks t ((s.threadClocks t).join clk) }

/-- Join the clock of a thread into the clock stored at an address, then tick the thread. -/
def publishSync (tid addr : ℕ) : Except Fault Detector := do
  let t ← slot tid
  return s.publishSync t addr

/-- `Acquire` does not check the tid. -/
def acquire (tid syncAddr : ℕ) : Except Fault Detector :=
  if !s.enabled then .ok s else joinSync s tid syncAddr

/-- `Release` does not check the tid. -/
def release (tid syncAddr : ℕ) : Except Fault Detector :=
  if !s.enabled then .ok s else publishSync s tid syncAddr

def mutexPostLock (tid addr : ℕ) : Except Fault Detector :=
  if !s.enabled ∨ tid ≥ kMaxThreads then .ok s else joinSync s tid addr

def mutexUnlock (tid addr : ℕ) : Except Fault Detector :=
  if !s.enabled ∨ tid ≥ kMaxThreads then .ok s else publishSync s tid addr

def mutexReadLock (tid addr : ℕ) : Except Fault Detector :=
  if !s.enabled ∨ tid ≥ kMaxThreads then .ok s else joinSync s tid addr

/-- `HappensBefore` does not check the tid. -/
def happensBefore (senderTid : ℕ) : Except Fault (ℕ × Detector) :=
  if !s.enabled then .ok (0, s)
  else do
    let t ← slot senderTid
    return s.happensBefore t

/-- `HappensAfter` does not check the tid. -/
def happensAfter (receiverTid edgeId : ℕ) : Except Fault Detector :=
  if !s.enabled ∨ edgeId = 0 then .ok s
  else
    match s.hbEdges edgeId with
    | none => .ok s
    | some clk => do
      let t ← slot receiverTid
      return { s with
        threadClocks := Function.update s.threadClocks t ((s.threadClocks t).join clk)
        hbEdges := Function.update s.hbEdges edgeId none }

/-- `MemoryAccess` does not check the tid. It reads the clock of the thread after it has found the
shadow. -/
def memoryAccess (backingStore sabByteLength offset size tid : ℕ) (isWrite : Bool) :
    Except Fault Detector :=
  if !s.enabled then .ok s
  else
    let s := { s with accessesChecked := bump s.accessesChecked }
    match s.shadowFor backingStore sabByteLength with
    | none => .ok s
    | some (shadow, s) => do
      let t ← slot tid
      return (s.recordIn shadow backingStore offset size t isWrite).2

end Definitions

/-! ### The member functions and the index -/

variable {s s' : Detector} {tid : ℕ}

theorem joinSync_coe (s : Detector) (t : Tid) (addr : ℕ) :
    joinSync s t addr = .ok (s.joinSync t addr) := by
  unfold joinSync Detector.joinSync
  cases s.syncClocks addr with
  | none => rfl
  | some clk =>
    rw [slot_coe]
    rfl

theorem publishSync_coe (s : Detector) (t : Tid) (addr : ℕ) :
    publishSync s t addr = .ok (s.publishSync t addr) := by
  rw [publishSync, slot_coe]
  rfl

theorem outOfRange_joinSync {addr : ℕ} : OutOfRange (joinSync s tid addr) ↔
    kMaxThreads ≤ tid ∧ s.syncClocks addr ≠ none := by
  unfold joinSync
  cases s.syncClocks addr with
  | none => simp
  | some clk => exact (outOfRange_slot_bind fun _ ↦ not_outOfRange_ok _).trans (by simp)

/-- Joining the clock of an address fails only at an index that is out of range. -/
theorem outOfRange_of_joinSync_eq_error {addr : ℕ} {fault : Fault}
    (h : joinSync s tid addr = .error fault) : OutOfRange (joinSync s tid addr) := by
  rcases lt_or_ge tid kMaxThreads with hlt | hle
  · rw [joinSync_coe s ⟨tid, hlt⟩] at h
    cases h
  · refine outOfRange_joinSync.mpr ⟨hle, fun hnone ↦ ?_⟩
    rw [joinSync, hnone] at h
    cases h

theorem outOfRange_publishSync {addr : ℕ} :
    OutOfRange (publishSync s tid addr) ↔ kMaxThreads ≤ tid :=
  outOfRange_slot_bind fun _ ↦ not_outOfRange_ok _

theorem acquire_eq (he : s.enabled = true) (tid addr : ℕ) :
    acquire s tid addr = joinSync s tid addr := if_neg (by simp [he])

theorem release_eq (he : s.enabled = true) (tid addr : ℕ) :
    release s tid addr = publishSync s tid addr := if_neg (by simp [he])

/-- What joins the clock of an address makes a call of `Op`, or nothing if there is no clock. -/
theorem reaches_joinSync (he : s.enabled = true) {addr : ℕ} (h : joinSync s tid addr = .ok s') :
    s.Reaches s' := by
  rcases lt_or_ge tid kMaxThreads with hlt | hle
  · rw [joinSync_coe s ⟨tid, hlt⟩] at h
    refine .of_exec (o := .acquire ⟨tid, hlt⟩ addr) ?_
    rw [Op.exec, Detector.acquire, he, ← Except.ok.inj h]
    rfl
  · rw [joinSync] at h
    cases hsync : s.syncClocks addr with
    | none =>
      rw [hsync] at h
      exact Except.ok.inj h ▸ .refl
    | some clk =>
      rw [hsync, slot_of_le hle] at h
      cases h

theorem reaches_publishSync (he : s.enabled = true) {addr : ℕ}
    (h : publishSync s tid addr = .ok s') : s.Reaches s' := by
  rcases lt_or_ge tid kMaxThreads with hlt | hle
  · rw [publishSync_coe s ⟨tid, hlt⟩] at h
    refine .of_exec (o := .release ⟨tid, hlt⟩ addr) ?_
    rw [Op.exec, Detector.release, he, ← Except.ok.inj h]
    rfl
  · rw [publishSync, slot_of_le hle] at h
    cases h

theorem threadCreate_eq_ok_iff {parentTid : ℕ} {result : Tid × Detector} :
    threadCreate s parentTid = .ok result ↔ s.threadCreate parentTid = some result := by
  unfold threadCreate
  cases s.threadCreate parentTid with
  | none => simp
  | some result' => simp

theorem not_outOfRange_threadCreate {parentTid : ℕ} :
    ¬OutOfRange (threadCreate s parentTid) := by
  unfold threadCreate
  cases s.threadCreate parentTid with
  | none => rintro ⟨_, h⟩; cases h
  | some result => exact not_outOfRange_ok _

theorem threadFinish_coe (he : s.enabled = true) (t : Tid) :
    threadFinish s t = .ok (s.threadFinish t) := by
  have ht : ¬(t : ℕ) ≥ kMaxThreads := t.isLt.not_ge
  simp only [threadFinish, Detector.threadFinish, he, ht, slot_coe]
  rfl

theorem threadFinish_of_le (h : kMaxThreads ≤ tid) : threadFinish s tid = .ok s := by
  simp [threadFinish, h]

theorem threadDestroy_coe (s : Detector) (t : Tid) :
    threadDestroy s t = .ok (s.threadDestroy t) := by
  simp only [threadDestroy, Detector.threadDestroy, t.isLt, slot_coe, if_true]
  cases s.enabled <;> rfl

/-- While the detector is enabled, `ThreadDestroy` writes to `thread_alive_` in any case. -/
theorem threadDestroy_of_le (he : s.enabled = true) (h : kMaxThreads ≤ tid) :
    threadDestroy s tid = .error (.outOfRange tid) := by
  simp only [threadDestroy, he, h.not_gt, if_false, if_true, slot_of_le h]
  rfl

theorem threadJoin_coe (he : s.enabled = true) (t u : Tid) :
    threadJoin s t u = .ok (s.threadJoin t u) := by
  have htu : ¬((t : ℕ) ≥ kMaxThreads ∨ (u : ℕ) ≥ kMaxThreads) :=
    not_or.mpr ⟨t.isLt.not_ge, u.isLt.not_ge⟩
  simp only [threadJoin, Detector.threadJoin, he, htu, slot_coe]
  rfl

theorem threadJoin_of_le {childTid : ℕ} (h : kMaxThreads ≤ tid ∨ kMaxThreads ≤ childTid) :
    threadJoin s tid childTid = .ok s := by
  simp [threadJoin, h]

theorem threadAbsorb_coe (he : s.enabled = true) (t u : Tid) :
    threadAbsorb s t u = .ok (s.threadAbsorb t u) := by
  have htu : ¬((t : ℕ) ≥ kMaxThreads ∨ (u : ℕ) ≥ kMaxThreads) :=
    not_or.mpr ⟨t.isLt.not_ge, u.isLt.not_ge⟩
  simp only [threadAbsorb, Detector.threadAbsorb, he, htu, slot_coe, Fin.val_inj]
  by_cases h : t = u
  · simp [h]
  · simp only [h]
    rfl

theorem threadAbsorb_of_le {srcTid : ℕ} (h : kMaxThreads ≤ tid ∨ kMaxThreads ≤ srcTid) :
    threadAbsorb s tid srcTid = .ok s := by
  simp [threadAbsorb, h]

theorem outOfRange_happensBefore (he : s.enabled = true) :
    OutOfRange (happensBefore s tid) ↔ kMaxThreads ≤ tid := by
  simp only [happensBefore, he]
  exact outOfRange_slot_bind fun _ ↦ not_outOfRange_ok _

theorem happensBefore_coe (he : s.enabled = true) (t : Tid) :
    happensBefore s t = .ok (s.happensBefore t) := by
  simp only [happensBefore, he, slot_coe]
  rfl

theorem outOfRange_happensAfter (he : s.enabled = true) {edgeId : ℕ} :
    OutOfRange (happensAfter s tid edgeId) ↔
      kMaxThreads ≤ tid ∧ edgeId ≠ 0 ∧ s.hbEdges edgeId ≠ none := by
  by_cases hid : edgeId = 0
  · simp [happensAfter, hid]
  · simp only [happensAfter, he, hid, Bool.not_true, Bool.false_eq_true, or_self, if_false]
    cases s.hbEdges edgeId with
    | none => simp
    | some clk => exact (outOfRange_slot_bind fun _ ↦ not_outOfRange_ok _).trans (by simp [hid])

theorem happensAfter_coe (s : Detector) (t : Tid) (edgeId : ℕ) :
    happensAfter s t edgeId = .ok (s.happensAfter t edgeId) := by
  unfold happensAfter Detector.happensAfter
  split_ifs
  · rfl
  · cases s.hbEdges edgeId with
    | none => rfl
    | some clk =>
      rw [slot_coe]
      rfl

theorem happensAfter_of_le {edgeId : ℕ} (hle : kMaxThreads ≤ tid)
    (h : happensAfter s tid edgeId = .ok s') : s' = s := by
  unfold happensAfter at h
  split_ifs at h
  · exact (Except.ok.inj h).symm
  · cases hedge : s.hbEdges edgeId with
    | none =>
      rw [hedge] at h
      exact (Except.ok.inj h).symm
    | some clk =>
      rw [hedge, slot_of_le hle] at h
      cases h

/-! What the calls that use a tid without a check do, if they return. -/

theorem reaches_threadCreate {parentTid : ℕ} {result : Tid × Detector}
    (h : threadCreate s parentTid = .ok result) : s.Reaches result.2 := by
  refine .of_exec (o := .threadCreate parentTid) ?_
  rw [Op.exec, threadCreate_eq_ok_iff.mp h]
  rfl

theorem reaches_threadDestroy (he : s.enabled = true) (h : threadDestroy s tid = .ok s') :
    s.Reaches s' := by
  rcases lt_or_ge tid kMaxThreads with hlt | hle
  · refine .of_exec (o := .threadDestroy ⟨tid, hlt⟩) (congrArg some ?_)
    exact Except.ok.inj ((threadDestroy_coe s ⟨tid, hlt⟩).symm.trans h)
  · rw [threadDestroy_of_le he hle] at h
    cases h

theorem reaches_happensBefore (he : s.enabled = true)
    (h : (happensBefore s tid).map Prod.snd = .ok s') : s.Reaches s' := by
  rcases lt_or_ge tid kMaxThreads with hlt | hle
  · refine .of_exec (o := .happensBefore ⟨tid, hlt⟩) (congrArg some ?_)
    rw [happensBefore_coe he ⟨tid, hlt⟩] at h
    exact Except.ok.inj h
  · have hout : OutOfRange ((happensBefore s tid).map Prod.snd) :=
      (outOfRange_map _ _).mpr ((outOfRange_happensBefore he).mpr hle)
    rw [h] at hout
    exact absurd hout (not_outOfRange_ok s')

theorem reaches_happensAfter {edgeId : ℕ} (h : happensAfter s tid edgeId = .ok s') :
    s.Reaches s' := by
  rcases lt_or_ge tid kMaxThreads with hlt | hle
  · refine .of_exec (o := .happensAfter ⟨tid, hlt⟩ edgeId) (congrArg some ?_)
    exact Except.ok.inj ((happensAfter_coe s ⟨tid, hlt⟩ edgeId).symm.trans h)
  · exact happensAfter_of_le hle h ▸ .refl

section Access

variable {backingStore sabByteLength offset size : ℕ} {isWrite : Bool}

theorem memoryAccess_coe (he : s.enabled = true) (t : Tid) :
    memoryAccess s backingStore sabByteLength offset size t isWrite =
      .ok (s.memoryAccess backingStore sabByteLength offset size t isWrite).2 := by
  simp only [memoryAccess, Detector.memoryAccess, he, slot_coe]
  cases Detector.shadowFor _ backingStore sabByteLength <;> rfl

theorem outOfRange_memoryAccess (he : s.enabled = true) :
    OutOfRange (memoryAccess s backingStore sabByteLength offset size tid isWrite) ↔
      kMaxThreads ≤ tid ∧ ¬s.Untracked backingStore sabByteLength := by
  have hnone := shadowFor_eq_none_iff { s with accessesChecked := bump s.accessesChecked }
    backingStore sabByteLength
  rw [and_comm] at hnone
  rw [memoryAccess, if_neg (by simp [he]), Untracked, ← hnone]
  dsimp only
  cases Detector.shadowFor { s with accessesChecked := bump s.accessesChecked }
      backingStore sabByteLength with
  | none => exact iff_of_false (not_outOfRange_ok _) fun h ↦ h.2 rfl
  | some result =>
    exact (outOfRange_slot_bind fun _ ↦ not_outOfRange_ok _).trans
      (and_iff_left (Option.some_ne_none _)).symm

/-- An access with a tid that is out of range returns only if the buffer has no shadow, and then it
does what an access of any thread does. -/
theorem memoryAccess_of_le (he : s.enabled = true) (hle : kMaxThreads ≤ tid)
    (h : memoryAccess s backingStore sabByteLength offset size tid isWrite = .ok s') (t : Tid) :
    s' = (s.memoryAccess backingStore sabByteLength offset size t isWrite).2 := by
  rw [memoryAccess, if_neg (by simp [he])] at h
  rw [Detector.memoryAccess, if_neg (by simp [he])]
  dsimp only at h ⊢
  cases hshadow : Detector.shadowFor { s with accessesChecked := bump s.accessesChecked }
      backingStore sabByteLength with
  | none =>
    rw [hshadow] at h
    exact (Except.ok.inj h).symm
  | some result =>
    rw [hshadow, slot_of_le hle] at h
    cases h

theorem reaches_memoryAccess (he : s.enabled = true)
    (h : memoryAccess s backingStore sabByteLength offset size tid isWrite = .ok s') :
    s.Reaches s' := by
  rcases lt_or_ge tid kMaxThreads with hlt | hle
  · rw [memoryAccess_coe he ⟨tid, hlt⟩] at h
    exact .of_exec (o := .memoryAccess backingStore sabByteLength offset size ⟨tid, hlt⟩ isWrite)
      (congrArg some (Except.ok.inj h))
  · exact .of_exec (o := .memoryAccess backingStore sabByteLength offset size 0 isWrite)
      (congrArg some (memoryAccess_of_le he hle h 0).symm)

end Access

/-! Calls that check the tid always return, and do nothing or what a call of `Op` does. -/

section Checked

variable (he : s.enabled = true) (tid : ℕ)
include he

theorem exists_threadFinish : ∃ s', threadFinish s tid = .ok s' ∧ s.Reaches s' := by
  rcases lt_or_ge tid kMaxThreads with hlt | hle
  · exact ⟨_, threadFinish_coe he ⟨tid, hlt⟩, .of_exec (o := .threadFinish ⟨tid, hlt⟩) rfl⟩
  · exact ⟨s, threadFinish_of_le hle, .refl⟩

theorem exists_threadJoin (childTid : ℕ) :
    ∃ s', threadJoin s tid childTid = .ok s' ∧ s.Reaches s' := by
  by_cases h : tid < kMaxThreads ∧ childTid < kMaxThreads
  · exact ⟨_, threadJoin_coe he ⟨tid, h.1⟩ ⟨childTid, h.2⟩,
      .of_exec (o := .threadJoin ⟨tid, h.1⟩ ⟨childTid, h.2⟩) rfl⟩
  · exact ⟨s, threadJoin_of_le (by omega), .refl⟩

theorem exists_threadAbsorb (srcTid : ℕ) :
    ∃ s', threadAbsorb s tid srcTid = .ok s' ∧ s.Reaches s' := by
  by_cases h : tid < kMaxThreads ∧ srcTid < kMaxThreads
  · exact ⟨_, threadAbsorb_coe he ⟨tid, h.1⟩ ⟨srcTid, h.2⟩,
      .of_exec (o := .threadAbsorb ⟨tid, h.1⟩ ⟨srcTid, h.2⟩) rfl⟩
  · exact ⟨s, threadAbsorb_of_le (by omega), .refl⟩

theorem exists_mutexPostLock (addr : ℕ) :
    ∃ s', mutexPostLock s tid addr = .ok s' ∧ s.Reaches s' := by
  rcases lt_or_ge tid kMaxThreads with hlt | hle
  · have hok : mutexPostLock s tid addr = .ok (s.joinSync ⟨tid, hlt⟩ addr) := by
      rw [mutexPostLock, if_neg (by simp [he, hlt])]
      exact joinSync_coe s ⟨tid, hlt⟩ addr
    exact ⟨_, hok, reaches_joinSync he (joinSync_coe s ⟨tid, hlt⟩ addr)⟩
  · exact ⟨s, if_pos (.inr hle), .refl⟩

theorem exists_mutexUnlock (addr : ℕ) :
    ∃ s', mutexUnlock s tid addr = .ok s' ∧ s.Reaches s' := by
  rcases lt_or_ge tid kMaxThreads with hlt | hle
  · have hok : mutexUnlock s tid addr = .ok (s.publishSync ⟨tid, hlt⟩ addr) := by
      rw [mutexUnlock, if_neg (by simp [he, hlt])]
      exact publishSync_coe s ⟨tid, hlt⟩ addr
    exact ⟨_, hok, reaches_publishSync he (publishSync_coe s ⟨tid, hlt⟩ addr)⟩
  · exact ⟨s, if_pos (.inr hle), .refl⟩

end Checked

end RawTid

end WebTSan
