import WebTSan.Lifecycle
import WebTSan.RawTid

/-!
# The tids of the host

The tid of a call comes from a thread-local variable, into which a page can put any `uint32_t`. The
hooks at most filter `UINT32_MAX`. A call that uses an index out of range has no result, so that a
run of the host ends at the first such index.

## Main definitions

* `WebTSan.Host`, `WebTSan.HostCall`, `WebTSan.HostCall.exec`: the calls of the hooks and of the JS
  globals on any threads.
* `WebTSan.HostCall.InRange`: what keeps a call inside of the arrays.
* `WebTSan.Host.run`: a sequence of calls.

## Main results

* `WebTSan.HostCall.exec_reaches`: on the detector, a call that returns does what calls of `Op` do.
* `WebTSan.HostCall.outOfRange_exec_iff`, `WebTSan.Host.inRange_iff`: which calls stay in range.
* `WebTSan.Host.exists_outOfRange`.
-/

namespace WebTSan

/-! ### Calls of the host -/

/-- The detector and the thread-local variables of all OS threads. -/
structure Host where
  detector : Detector
  /-- The thread-local `g_current_tsan_tid`. -/
  currentTid : ℕ → ℕ
  /-- The thread-local `g_current_suppress_depth`. -/
  suppressDepth : ℕ → ℕ

/-- The calls of the hooks and of the JS globals. Each of them is made on some thread. -/
inductive HostCall
  | workerInit
  | workerShutdown
  | setCurrentTid (value : ℤ)
  | pthreadCreate
  | threadFinish
  | pthreadJoin (child : ℤ)
  | pthreadDetach (child : ℤ)
  | mutexCreate (addr : ℕ)
  | mutexDestroy (addr : ℕ)
  | mutexPreLock (addr : ℕ)
  | mutexPostLock (addr : ℕ)
  | mutexUnlock (addr : ℕ)
  | mutexReadLock (addr : ℕ)
  | mutexReadUnlock (addr : ℕ)
  | atomicsLoad (location : ℕ)
  | atomicsStore (location : ℕ)
  | atomicsRMW (location : ℕ)
  | atomicsWaitComplete (location : ℕ)
  | atomicsNotify (location : ℕ)
  | postMessageSend
  | postMessageReceive (edgeId : ℕ)
  /-- An access that V8 records, of JS or of wasm code. -/
  | sabAccess (backingStore sabByteLength offset size : ℕ) (isWrite : Bool)
  /-- An access that is recorded even if accesses are suppressed. -/
  | recordRange (backingStore sabByteLength offset size : ℕ) (isWrite : Bool)
  | pushSuppress
  | popSuppress
  | removeShadow (backingStore : ℕ)
  | clearShadow (backingStore offset size : ℕ)
deriving DecidableEq

/-- The conversion of a number to `uint32_t` by `Uint32Value`. -/
def uint32Value (value : ℤ) : ℕ := (value % 2 ^ 32).toNat

namespace Host

variable (s : Host) (thread : ℕ)

/-- The host after `InitializeWebTSan` on thread `0`. -/
def initial : Host :=
  { detector := Page.initial.detector
    currentTid := Function.update (fun _ ↦ uint32Max) 0 0
    suppressDepth := fun _ ↦ 0 }

/-- The host after a call of the detector. -/
def withDetector (result : Except Fault Detector) : Except Fault Host :=
  result.map fun detector ↦ { s with detector := detector }

/-- A hook that does nothing on a thread without a tid. -/
def withTid (call : ℕ → Except Fault Detector) : Except Fault Host :=
  let tid := s.currentTid thread
  if tid = uint32Max then .ok s else s.withDetector (call tid)

def setTid (tid : ℕ) : Host :=
  { s with currentTid := Function.update s.currentTid thread tid }

/-- A worker is initialized. -/
def workerInit : Except Fault Host := do
  let (tid, detector) ← RawTid.threadCreate s.detector uint32Max
  return { s with detector := detector }.setTid thread tid

/-- `PerformShutdownOnWorkerThread`. -/
def workerShutdown : Except Fault Host :=
  let tid := s.currentTid thread
  if tid ≠ uint32Max then do
    let detector ← RawTid.threadDestroy s.detector tid
    return { s with detector := detector }.setTid thread uint32Max
  else .ok s

/-- `SetCurrentTidCallback`. -/
def setCurrentTid (value : ℤ) : Except Fault Host := do
  let newTid := uint32Value value
  let prevTid := s.currentTid thread
  let detector ←
    if prevTid ≠ uint32Max ∧ newTid ≠ uint32Max ∧ prevTid ≠ newTid then
      RawTid.threadAbsorb s.detector newTid prevTid
    else .ok s.detector
  return { s with detector := detector }.setTid thread newTid

/-- `PthreadCreateCallback`. -/
def pthreadCreate : Except Fault Host := do
  let (_, detector) ← RawTid.threadCreate s.detector (s.currentTid thread)
  return { s with detector := detector }

/-- `PthreadJoinCallback`. -/
def pthreadJoin (value : ℤ) : Except Fault Host :=
  s.withTid thread fun joiner ↦
    let child := uint32Value value
    if child = uint32Max then .ok s.detector else RawTid.threadJoin s.detector joiner child

/-- `PthreadDetachCallback`. -/
def pthreadDetach (value : ℤ) : Except Fault Host :=
  let child := uint32Value value
  if child = uint32Max then .ok s else s.withDetector (RawTid.threadDetach s.detector child)

/-- `OnSABAccess`. -/
def onSABAccess (backingStore sabByteLength offset size tid : ℕ) (isWrite : Bool) :
    Except Fault Detector :=
  if !s.detector.enabled then .ok s.detector
  else if s.suppressDepth thread > 0 then .ok s.detector.incrementSuppressedCount
  else RawTid.memoryAccess s.detector backingStore sabByteLength offset size tid isWrite

/-- `ClearShadowCallback`. -/
def clearShadow (backingStore offset size : ℕ) : Except Fault Host :=
  if size > 0 then
    match s.detector.clearShadow backingStore offset size with
    | some detector => .ok { s with detector := detector }
    | none => .error .loop
  else .ok s

end Host

namespace HostCall

variable (s : Host) (thread : ℕ)

/-- The host after a call on a thread. `OnAtomicsRMW` makes two calls of the detector, between which
other threads may run, like a load hook followed by a store hook. -/
def exec : HostCall → Except Fault Host
  | workerInit => s.workerInit thread
  | workerShutdown => s.workerShutdown thread
  | setCurrentTid value => s.setCurrentTid thread value
  | pthreadCreate => s.pthreadCreate thread
  | threadFinish => s.withTid thread (RawTid.threadFinish s.detector)
  | pthreadJoin child => s.pthreadJoin thread child
  | pthreadDetach child => s.pthreadDetach child
  | mutexCreate addr => s.withDetector (.ok (s.detector.mutexCreate addr))
  | mutexDestroy addr => s.withDetector (.ok (s.detector.mutexDestroy addr))
  | mutexPreLock _ => s.withTid thread fun _ ↦ .ok s.detector
  | mutexPostLock addr => s.withTid thread fun tid ↦ RawTid.mutexPostLock s.detector tid addr
  | mutexUnlock addr => s.withTid thread fun tid ↦ RawTid.mutexUnlock s.detector tid addr
  | mutexReadLock addr => s.withTid thread fun tid ↦ RawTid.mutexReadLock s.detector tid addr
  | mutexReadUnlock _ => s.withTid thread fun _ ↦ .ok s.detector
  | atomicsLoad location => s.withTid thread fun tid ↦ RawTid.acquire s.detector tid location
  | atomicsStore location => s.withTid thread fun tid ↦ RawTid.release s.detector tid location
  | atomicsRMW location => s.withTid thread fun tid ↦ do
    let detector ← RawTid.acquire s.detector tid location
    RawTid.release detector tid location
  | atomicsWaitComplete location =>
    s.withTid thread fun tid ↦ RawTid.acquire s.detector tid location
  | atomicsNotify location => s.withTid thread fun tid ↦ RawTid.release s.detector tid location
  | postMessageSend =>
    s.withDetector ((RawTid.happensBefore s.detector (s.currentTid thread)).map Prod.snd)
  | postMessageReceive edgeId =>
    s.withDetector (RawTid.happensAfter s.detector (s.currentTid thread) edgeId)
  | sabAccess backingStore sabByteLength offset size isWrite => s.withTid thread fun tid ↦
    s.onSABAccess thread backingStore sabByteLength offset size tid isWrite
  | recordRange backingStore sabByteLength offset size isWrite =>
    if size = 0 then .ok s
    else s.withTid thread fun tid ↦
      RawTid.memoryAccess s.detector backingStore sabByteLength offset size tid isWrite
  | pushSuppress => .ok { s with
      suppressDepth :=
        Function.update s.suppressDepth thread ((s.suppressDepth thread + 1) % 2 ^ 32) }
  | popSuppress => .ok { s with
      suppressDepth := Function.update s.suppressDepth thread (s.suppressDepth thread - 1) }
  | removeShadow backingStore => s.withDetector (.ok (s.detector.removeShadow backingStore))
  | clearShadow backingStore offset size => s.clearShadow backingStore offset size

/-- The hooks of messages use the current tid even if it is `UINT32_MAX`. -/
def filtersTid : HostCall → Bool
  | postMessageSend | postMessageReceive _ => false
  | _ => true

/-- The call does not use the current tid as an index without a check. -/
def SkipsIndex : HostCall → Prop
  | workerShutdown | atomicsStore _ | atomicsRMW _ | atomicsNotify _ | postMessageSend => False
  | atomicsLoad location | atomicsWaitComplete location => s.detector.syncClocks location = none
  | postMessageReceive edgeId => edgeId = 0 ∨ s.detector.hbEdges edgeId = none
  | sabAccess backingStore sabByteLength _ _ _ =>
    0 < s.suppressDepth thread ∨ s.detector.Untracked backingStore sabByteLength
  | recordRange backingStore sabByteLength _ size _ =>
    size = 0 ∨ s.detector.Untracked backingStore sabByteLength
  | _ => True

/-- The current tid is an index, or it is filtered, or it is not used as an unchecked index. -/
def InRange (c : HostCall) : Prop :=
  s.currentTid thread < kMaxThreads ∨ c.filtersTid = true ∧ s.currentTid thread = uint32Max ∨
    c.SkipsIndex s thread

end HostCall

/-! ### The calls of the host and the index -/

namespace Host

variable {s s' : Host} {thread : ℕ}

theorem withDetector_eq_ok {result : Except Fault Detector} (h : s.withDetector result = .ok s') :
    ∃ d, result = .ok d ∧ s' = { s with detector := d } := by
  cases result with
  | error fault => cases h
  | ok d => exact ⟨d, rfl, (Except.ok.inj h).symm⟩

/-- Clearing a range changes the detector only, by its call. -/
theorem clearShadow_eq_ok {backingStore offset size : ℕ}
    (h : s.clearShadow backingStore offset size = .ok s') :
    s' = s ∨ ∃ d, s.detector.clearShadow backingStore offset size = some d ∧
      s' = { s with detector := d } := by
  rw [clearShadow] at h
  split_ifs at h
  · cases hclear : s.detector.clearShadow backingStore offset size with
    | none =>
      rw [hclear] at h
      cases h
    | some d =>
      rw [hclear] at h
      exact .inr ⟨d, rfl, (Except.ok.inj h).symm⟩
  · exact .inl (Except.ok.inj h).symm

theorem outOfRange_withDetector {result : Except Fault Detector} :
    OutOfRange (s.withDetector result) ↔ OutOfRange result := outOfRange_map _ _

/-- A hook that filters `UINT32_MAX` changes the detector only, by its call. -/
theorem withTid_eq_ok {call : ℕ → Except Fault Detector} (h : s.withTid thread call = .ok s') :
    s' = s ∨ ∃ d, call (s.currentTid thread) = .ok d ∧ s' = { s with detector := d } := by
  dsimp only [withTid] at h
  split_ifs at h
  · exact .inl (Except.ok.inj h).symm
  · exact .inr (withDetector_eq_ok h)

theorem outOfRange_withTid {call : ℕ → Except Fault Detector} :
    OutOfRange (s.withTid thread call) ↔
      s.currentTid thread ≠ uint32Max ∧ OutOfRange (call (s.currentTid thread)) := by
  dsimp only [withTid]
  split_ifs with h
  · exact iff_of_false (not_outOfRange_ok _) fun hc ↦ hc.1 h
  · rw [outOfRange_withDetector, and_iff_right h]

end Host

namespace HostCall

open Detector

variable {s s' : Host} {thread : ℕ} {c : HostCall}

theorem not_inRange_iff : ¬c.InRange s thread ↔ kMaxThreads ≤ s.currentTid thread ∧
    (c.filtersTid = true → s.currentTid thread ≠ uint32Max) ∧ ¬c.SkipsIndex s thread := by
  rw [InRange, not_or, not_or, not_lt, not_and]

/-- A hook that filters `UINT32_MAX` and whose call of the detector uses the tid without a check. -/
theorem outOfRange_withTid_iff {call : ℕ → Except Fault Detector} (hc : c.filtersTid = true)
    (hcall : OutOfRange (call (s.currentTid thread)) ↔
      kMaxThreads ≤ s.currentTid thread ∧ ¬c.SkipsIndex s thread) :
    OutOfRange (s.withTid thread call) ↔ ¬c.InRange s thread := by
  rw [Host.outOfRange_withTid, hcall, not_inRange_iff, hc]
  tauto

/-- On the detector, a call of the host that returns does what calls of `Op` do. -/
theorem exec_reaches (he : s.detector.enabled = true) (h : c.exec s thread = .ok s') :
    s.detector.Reaches s'.detector := by
  have hwithTid {call : ℕ → Except Fault Detector} (h : s.withTid thread call = .ok s')
      (hcall : ∀ {tid d}, call tid = .ok d → s.detector.Reaches d) :
      s.detector.Reaches s'.detector := by
    rcases Host.withTid_eq_ok h with rfl | ⟨d, hd, rfl⟩
    · exact .refl
    · exact hcall hd
  have hchecked {result : Except Fault Detector} {d : Detector} (h : result = .ok d)
      (hex : ∃ d, result = .ok d ∧ s.detector.Reaches d) : s.detector.Reaches d := by
    obtain ⟨d', hd', hr⟩ := hex
    rwa [← Except.ok.inj (hd'.symm.trans h)]
  cases c with
  | workerInit =>
    obtain ⟨result, hr, h⟩ := exists_of_bind_eq_ok h
    exact Except.ok.inj h ▸ RawTid.reaches_threadCreate hr
  | workerShutdown =>
    rw [exec, Host.workerShutdown] at h
    split_ifs at h
    · obtain ⟨d, hd, h⟩ := exists_of_bind_eq_ok h
      exact Except.ok.inj h ▸ RawTid.reaches_threadDestroy he hd
    · exact Except.ok.inj h ▸ .refl
  | setCurrentTid value =>
    rw [exec, Host.setCurrentTid] at h
    split_ifs at h
    · obtain ⟨d, hd, h⟩ := exists_of_bind_eq_ok h
      rw [← Except.ok.inj h]
      exact hchecked hd (RawTid.exists_threadAbsorb he _ _)
    · exact Except.ok.inj h ▸ .refl
  | pthreadCreate =>
    obtain ⟨result, hr, h⟩ := exists_of_bind_eq_ok h
    exact Except.ok.inj h ▸ RawTid.reaches_threadCreate hr
  | threadFinish => exact hwithTid h fun hd ↦ hchecked hd (RawTid.exists_threadFinish he _)
  | pthreadJoin child =>
    rw [exec, Host.pthreadJoin] at h
    refine hwithTid h fun {tid d} hd ↦ ?_
    dsimp only at hd
    split_ifs at hd
    · exact Except.ok.inj hd ▸ .refl
    · exact hchecked hd (RawTid.exists_threadJoin he _ _)
  | pthreadDetach child =>
    rw [exec, Host.pthreadDetach] at h
    split_ifs at h
    · exact Except.ok.inj h ▸ .refl
    · exact Except.ok.inj h ▸ .refl
  | mutexCreate addr => exact Except.ok.inj h ▸ .of_exec (o := .mutexCreate addr) rfl
  | mutexDestroy addr => exact Except.ok.inj h ▸ .of_exec (o := .mutexDestroy addr) rfl
  | mutexPreLock | mutexReadUnlock =>
    rw [exec] at h
    exact hwithTid h fun hd ↦ Except.ok.inj hd ▸ .refl
  | mutexPostLock addr | mutexReadLock addr =>
    rw [exec] at h
    exact hwithTid h fun hd ↦ hchecked hd (RawTid.exists_mutexPostLock he _ addr)
  | mutexUnlock addr =>
    rw [exec] at h
    exact hwithTid h fun hd ↦ hchecked hd (RawTid.exists_mutexUnlock he _ addr)
  | atomicsLoad location | atomicsWaitComplete location =>
    simp only [exec, RawTid.acquire_eq he] at h
    exact hwithTid h (RawTid.reaches_joinSync he)
  | atomicsStore location | atomicsNotify location =>
    simp only [exec, RawTid.release_eq he] at h
    exact hwithTid h (RawTid.reaches_publishSync he)
  | atomicsRMW location =>
    rw [exec] at h
    refine hwithTid h fun {tid d} hd ↦ ?_
    obtain ⟨d', hd', hd⟩ := exists_of_bind_eq_ok hd
    rw [RawTid.acquire_eq he] at hd'
    have hacquire := RawTid.reaches_joinSync he hd'
    rw [RawTid.release_eq (hacquire.enabled he)] at hd
    exact hacquire.trans (RawTid.reaches_publishSync (hacquire.enabled he) hd)
  | postMessageSend =>
    obtain ⟨d, hd, rfl⟩ := Host.withDetector_eq_ok h
    exact RawTid.reaches_happensBefore he hd
  | postMessageReceive edgeId =>
    obtain ⟨d, hd, rfl⟩ := Host.withDetector_eq_ok h
    exact RawTid.reaches_happensAfter hd
  | sabAccess backingStore sabByteLength offset size isWrite =>
    rw [exec] at h
    refine hwithTid h fun {tid d} hd ↦ ?_
    rw [Host.onSABAccess, if_neg (by simp [he])] at hd
    split_ifs at hd
    · exact .single (.inr (Except.ok.inj hd).symm)
    · exact RawTid.reaches_memoryAccess he hd
  | recordRange backingStore sabByteLength offset size isWrite =>
    rw [exec] at h
    split_ifs at h
    · exact Except.ok.inj h ▸ .refl
    · exact hwithTid h (RawTid.reaches_memoryAccess he)
  | pushSuppress | popSuppress => exact Except.ok.inj h ▸ .refl
  | removeShadow backingStore =>
    exact Except.ok.inj h ▸ .of_exec (o := .removeShadow backingStore) rfl
  | clearShadow backingStore offset size =>
    rcases Host.clearShadow_eq_ok h with rfl | ⟨d, hclear, rfl⟩
    · exact .refl
    · exact .of_exec (o := .clearShadow backingStore offset size) hclear

/-- A call of the host uses an index that is out of range exactly if it is not in range. -/
theorem outOfRange_exec_iff (he : s.detector.enabled = true) :
    OutOfRange (c.exec s thread) ↔ ¬c.InRange s thread := by
  have hskips (hskip : c.SkipsIndex s thread) (hnot : ¬OutOfRange (c.exec s thread)) :
      OutOfRange (c.exec s thread) ↔ ¬c.InRange s thread :=
    iff_of_false hnot fun h ↦ h (.inr (.inr hskip))
  have hchecked {call : ℕ → Except Fault Detector}
      (hex : ∀ tid, ∃ d, call tid = .ok d ∧ s.detector.Reaches d) :
      ¬OutOfRange (s.withTid thread call) := by
    intro h
    obtain ⟨d, hd, -⟩ := hex (s.currentTid thread)
    exact not_outOfRange_ok d (hd ▸ (Host.outOfRange_withTid.mp h).2)
  have hcreate {parent : ℕ} {f : Tid × Detector → Host} :
      ¬OutOfRange (RawTid.threadCreate s.detector parent >>= fun result ↦ .ok (f result)) := by
    rw [outOfRange_bind]
    rintro (h | ⟨_, -, h⟩)
    · exact RawTid.not_outOfRange_threadCreate h
    · exact not_outOfRange_ok _ h
  cases c with
  | workerInit | pthreadCreate => exact hskips trivial hcreate
  | workerShutdown =>
    rw [not_inRange_iff, exec, Host.workerShutdown]
    split_ifs with htid
    · rcases lt_or_ge (s.currentTid thread) kMaxThreads with hlt | hle
      · rw [outOfRange_bind_of_ok (RawTid.threadDestroy_coe s.detector ⟨_, hlt⟩)]
        exact iff_of_false (not_outOfRange_ok _) fun h ↦ h.1.not_gt hlt
      · rw [RawTid.threadDestroy_of_le he hle]
        exact iff_of_true ⟨_, rfl⟩ ⟨hle, fun _ ↦ htid, not_false⟩
    · exact iff_of_false (not_outOfRange_ok _) fun h ↦ h.2.1 rfl (not_not.mp htid)
  | setCurrentTid value =>
    refine hskips trivial ?_
    rw [exec, Host.setCurrentTid]
    split_ifs
    · obtain ⟨d, hd, -⟩ := RawTid.exists_threadAbsorb he (uint32Value value) (s.currentTid thread)
      rw [outOfRange_bind_of_ok hd]
      exact not_outOfRange_ok _
    · exact not_outOfRange_ok _
  | threadFinish => exact hskips trivial (hchecked (RawTid.exists_threadFinish he))
  | pthreadJoin child =>
    refine hskips trivial ?_
    rw [exec, Host.pthreadJoin]
    refine hchecked fun tid ↦ ?_
    dsimp only
    split_ifs
    · exact ⟨_, rfl, .refl⟩
    · exact RawTid.exists_threadJoin he _ _
  | pthreadDetach child =>
    refine hskips trivial ?_
    rw [exec, Host.pthreadDetach]
    split_ifs <;> exact not_outOfRange_ok _
  | mutexCreate | mutexDestroy | pushSuppress | popSuppress | removeShadow =>
    exact hskips trivial (not_outOfRange_ok _)
  | mutexPreLock | mutexReadUnlock => exact hskips trivial (hchecked fun _ ↦ ⟨_, rfl, .refl⟩)
  | mutexPostLock addr | mutexReadLock addr =>
    exact hskips trivial (hchecked fun tid ↦ RawTid.exists_mutexPostLock he tid addr)
  | mutexUnlock addr =>
    exact hskips trivial (hchecked fun tid ↦ RawTid.exists_mutexUnlock he tid addr)
  | atomicsLoad location | atomicsWaitComplete location =>
    simp only [exec, RawTid.acquire_eq he]
    exact outOfRange_withTid_iff rfl RawTid.outOfRange_joinSync
  | atomicsStore location | atomicsNotify location =>
    simp only [exec, RawTid.release_eq he]
    exact outOfRange_withTid_iff rfl
      (RawTid.outOfRange_publishSync.trans (and_iff_left not_false).symm)
  | atomicsRMW location =>
    simp only [exec, RawTid.acquire_eq he]
    refine outOfRange_withTid_iff rfl (Iff.trans ?_ (and_iff_left not_false).symm)
    cases hd : RawTid.joinSync s.detector (s.currentTid thread) location with
    | ok d =>
      have hrelease := RawTid.release_eq ((RawTid.reaches_joinSync he hd).enabled he)
      rw [outOfRange_bind_of_ok rfl, hrelease]
      exact RawTid.outOfRange_publishSync
    | error fault =>
      have hout := RawTid.outOfRange_of_joinSync_eq_error hd
      refine iff_of_true (outOfRange_bind.mpr (.inl (hd ▸ hout))) ?_
      exact (RawTid.outOfRange_joinSync.mp hout).1
  | postMessageSend =>
    rw [not_inRange_iff, exec, Host.outOfRange_withDetector, outOfRange_map,
      RawTid.outOfRange_happensBefore he]
    exact ⟨fun hle ↦ ⟨hle, nofun, not_false⟩, And.left⟩
  | postMessageReceive edgeId =>
    rw [not_inRange_iff, exec, Host.outOfRange_withDetector, RawTid.outOfRange_happensAfter he,
      SkipsIndex, not_or]
    exact and_congr_right' (and_iff_right nofun).symm
  | sabAccess backingStore sabByteLength offset size isWrite =>
    rw [exec]
    refine outOfRange_withTid_iff rfl ?_
    rw [Host.onSABAccess, if_neg (by simp [he]), SkipsIndex, not_or]
    split_ifs with hdepth
    · exact iff_of_false (not_outOfRange_ok _) fun h ↦ h.2.1 hdepth
    · rw [RawTid.outOfRange_memoryAccess he, and_iff_right hdepth]
  | recordRange backingStore sabByteLength offset size isWrite =>
    rw [exec]
    split_ifs with hsize
    · exact iff_of_false (not_outOfRange_ok _) fun h ↦ h (.inr (.inr (.inl hsize)))
    · refine outOfRange_withTid_iff rfl ?_
      rw [RawTid.outOfRange_memoryAccess he, SkipsIndex, not_or, and_iff_right hsize]
  | clearShadow backingStore offset size =>
    refine hskips trivial ?_
    rw [exec, Host.clearShadow]
    split_ifs
    · cases s.detector.clearShadow backingStore offset size with
      | none => nofun
      | some d => exact not_outOfRange_ok _
    · exact not_outOfRange_ok _

/-- The current tid changes only if a worker starts or shuts down, or the page sets it. -/
theorem exec_currentTid (h : c.exec s thread = .ok s') (thread' : ℕ) :
    s'.currentTid thread' = s.currentTid thread' ∨ s'.currentTid thread' < kMaxThreads ∨
      s'.currentTid thread' = uint32Max ∨
        ∃ value, c = .setCurrentTid value ∧ s'.currentTid thread' = uint32Value value := by
  have hsame (hs : s'.currentTid = s.currentTid) : s'.currentTid thread' = s.currentTid thread' ∨
      s'.currentTid thread' < kMaxThreads ∨ s'.currentTid thread' = uint32Max ∨
        ∃ value, c = .setCurrentTid value ∧ s'.currentTid thread' = uint32Value value :=
    .inl (congrFun hs thread')
  have hwithTid {call : ℕ → Except Fault Detector} (h : s.withTid thread call = .ok s') :
      s'.currentTid = s.currentTid := by
    rcases Host.withTid_eq_ok h with rfl | ⟨d, -, rfl⟩ <;> rfl
  have hwithDetector {result : Except Fault Detector} (h : s.withDetector result = .ok s') :
      s'.currentTid = s.currentTid := by
    obtain ⟨d, -, rfl⟩ := Host.withDetector_eq_ok h
    rfl
  have hsetTid {d : Detector} {tid : ℕ} (hs : { s with detector := d }.setTid thread tid = s') :
      s'.currentTid thread' = s.currentTid thread' ∨ s'.currentTid thread' = tid := by
    subst hs
    by_cases hth : thread' = thread
    · exact .inr (hth ▸ Function.update_self ..)
    · exact .inl (Function.update_of_ne hth ..)
  cases c with
  | workerInit =>
    obtain ⟨⟨t, d⟩, -, h⟩ := exists_of_bind_eq_ok h
    rcases hsetTid (Except.ok.inj h) with hold | hnew
    · exact .inl hold
    · exact .inr (.inl (hnew ▸ t.isLt))
  | workerShutdown =>
    rw [exec, Host.workerShutdown] at h
    split_ifs at h
    · obtain ⟨d, -, h⟩ := exists_of_bind_eq_ok h
      exact (hsetTid (Except.ok.inj h)).imp_right fun hnew ↦ .inr (.inl hnew)
    · exact .inl (Except.ok.inj h ▸ rfl)
  | setCurrentTid value =>
    have hset : ∃ d, { s with detector := d }.setTid thread (uint32Value value) = s' := by
      rw [exec, Host.setCurrentTid] at h
      split_ifs at h
      · obtain ⟨d, -, h⟩ := exists_of_bind_eq_ok h
        exact ⟨d, Except.ok.inj h⟩
      · exact ⟨s.detector, Except.ok.inj h⟩
    obtain ⟨d, hd⟩ := hset
    exact (hsetTid hd).imp_right fun hnew ↦ .inr (.inr ⟨value, rfl, hnew⟩)
  | pthreadCreate =>
    obtain ⟨result, -, h⟩ := exists_of_bind_eq_ok h
    exact hsame (Except.ok.inj h ▸ rfl)
  | pthreadDetach child =>
    rw [exec, Host.pthreadDetach] at h
    split_ifs at h
    · exact hsame (Except.ok.inj h ▸ rfl)
    · exact hsame (hwithDetector h)
  | recordRange backingStore sabByteLength offset size isWrite =>
    rw [exec] at h
    split_ifs at h
    · exact hsame (Except.ok.inj h ▸ rfl)
    · exact hsame (hwithTid h)
  | clearShadow backingStore offset size =>
    rcases Host.clearShadow_eq_ok h with rfl | ⟨d, -, rfl⟩
    · exact hsame rfl
    · exact hsame rfl
  | mutexCreate | mutexDestroy | removeShadow | postMessageSend | postMessageReceive =>
    exact hsame (hwithDetector h)
  | pushSuppress | popSuppress => exact hsame (Except.ok.inj h ▸ rfl)
  | pthreadJoin child =>
    rw [exec, Host.pthreadJoin] at h
    exact hsame (hwithTid h)
  | _ =>
    rw [exec] at h
    exact hsame (hwithTid h)

end HostCall

namespace Host

/-- Calls on any threads, one after the other, up to the first one that has no result. -/
def run (s : Host) (calls : List (ℕ × HostCall)) : Except Fault Host :=
  calls.foldlM (fun s c ↦ c.2.exec s c.1) s

variable {s s' : Host} {calls : List (ℕ × HostCall)}

/-- A sequence of calls stays inside of the arrays exactly if each of its calls is in range. -/
theorem outOfRange_run_iff (he : s.detector.enabled = true) :
    ¬OutOfRange (s.run calls) ↔ ∀ before c after, calls = before ++ c :: after →
      ∀ s', s.run before = .ok s' → c.2.InRange s' c.1 := by
  induction calls generalizing s with
  | nil => exact iff_of_true (not_outOfRange_ok s) (by simp)
  | cons c calls ih =>
    have hc : OutOfRange (c.2.exec s c.1) ↔ ¬c.2.InRange s c.1 :=
      HostCall.outOfRange_exec_iff he
    constructor
    · intro hrun before c' after hsplit s' hs'
      cases before with
      | nil =>
        obtain ⟨rfl, rfl⟩ := List.cons.inj hsplit
        obtain rfl := Except.ok.inj hs'
        refine not_not.mp fun hin ↦ hrun ?_
        obtain ⟨index, hindex⟩ := hc.mpr hin
        refine ⟨index, ?_⟩
        rw [run, List.foldlM_cons, hindex]
        rfl
      | cons c₁ before =>
        obtain ⟨rfl, rfl⟩ := List.cons.inj hsplit
        obtain ⟨s₁, h₁, hs'⟩ := exists_of_bind_eq_ok hs'
        refine (ih ((HostCall.exec_reaches he h₁).enabled he)).mp ?_ before c' after rfl s' hs'
        rwa [run, List.foldlM_cons, outOfRange_bind_of_ok h₁] at hrun
    · intro hall hrun
      have hin := hall [] c calls rfl s rfl
      cases h₁ : c.2.exec s c.1 with
      | error fault =>
        rw [run, List.foldlM_cons, h₁] at hrun
        refine hc.mp ?_ hin
        rw [h₁]
        obtain ⟨index, hindex⟩ := hrun
        exact ⟨index, by cases hindex; rfl⟩
      | ok s₁ =>
        rw [run, List.foldlM_cons, outOfRange_bind_of_ok h₁] at hrun
        refine (ih ((HostCall.exec_reaches he h₁).enabled he)).mpr ?_ hrun
        intro before c' after hsplit s' hs'
        refine hall (c :: before) c' after (congrArg (c :: ·) hsplit) s' ?_
        rw [run, List.foldlM_cons, h₁]
        exact hs'

/-- If the page sets no other tids, every thread has a tid that is an index, or none. -/
theorem run_currentTid (hset : ∀ c ∈ calls, ∀ value, c.2 = .setCurrentTid value →
      uint32Value value < kMaxThreads ∨ uint32Value value = uint32Max)
    (h₀ : ∀ thread, s.currentTid thread < kMaxThreads ∨ s.currentTid thread = uint32Max)
    (h : s.run calls = .ok s') (thread : ℕ) :
    s'.currentTid thread < kMaxThreads ∨ s'.currentTid thread = uint32Max := by
  induction calls generalizing s with
  | nil => exact Except.ok.inj h ▸ h₀ thread
  | cons c calls ih =>
    obtain ⟨s₁, h₁, h⟩ := exists_of_bind_eq_ok h
    refine ih (fun c' hc' ↦ hset c' (.tail _ hc')) (fun thread' ↦ ?_) h
    rcases HostCall.exec_currentTid h₁ thread' with hold | hlt | hmax | ⟨value, hc, hvalue⟩
    · exact hold ▸ h₀ thread'
    · exact .inl hlt
    · exact .inr hmax
    · exact hvalue ▸ hset c (.head _) value hc

/-- When a sequence of calls uses the clock and liveness arrays only inside of their bounds: exactly
if each call finds a tid that is an index, or one that is filtered, or does not use it as an index
without a check. If the page only sets tids that are indices, or `UINT32_MAX`, it is enough that
threads without a tid send and receive no messages. -/
theorem inRange_iff (calls : List (ℕ × HostCall)) :
    (¬OutOfRange (initial.run calls) ↔ ∀ before c after, calls = before ++ c :: after →
      ∀ s, initial.run before = .ok s → c.2.InRange s c.1) ∧
    ((∀ c ∈ calls, ∀ value, c.2 = .setCurrentTid value →
        uint32Value value < kMaxThreads ∨ uint32Value value = uint32Max) →
      (∀ before c after, calls = before ++ c :: after → ∀ s, initial.run before = .ok s →
        c.2.filtersTid = true ∨ s.currentTid c.1 ≠ uint32Max) →
      ¬OutOfRange (initial.run calls)) := by
  have he : initial.detector.enabled = true := rfl
  refine ⟨outOfRange_run_iff he, fun hset hmessages ↦ (outOfRange_run_iff he).mpr ?_⟩
  intro before c after hsplit s hs
  have htid := run_currentTid (fun c' hc' ↦ hset c' (hsplit ▸ List.mem_append_left _ hc'))
    (fun thread ↦ ?_) hs c.1
  · rcases htid with hlt | hmax
    · exact .inl hlt
    · have hmessage := (hmessages before c after hsplit s hs).resolve_right (not_not.mpr hmax)
      exact .inr (.inl ⟨hmessage, hmax⟩)
  · by_cases hthread : thread = 0
    · exact .inl (by simp [initial, hthread, kMaxThreads])
    · exact .inr (Function.update_of_ne hthread 0 fun _ ↦ uint32Max)

/-- The main thread creates a pthread, which runs on a worker and stores to an atomic location. -/
def pthreadCalls : List (ℕ × HostCall) :=
  [(0, .pthreadCreate), (1, .workerInit), (1, .setCurrentTid 1), (1, .atomicsStore 500),
    (1, .threadFinish), (0, .pthreadJoin 1), (1, .workerShutdown)]

theorem pthreadCalls_inRange : ¬OutOfRange (initial.run pthreadCalls) := by
  refine (inRange_iff pthreadCalls).2 (fun c hc value hset ↦ ?_) fun before c after h s _ ↦ .inl ?_
  · have hone : value = 1 := by
      simp only [pthreadCalls, List.mem_cons, List.not_mem_nil, or_false] at hc
      rcases hc with rfl | rfl | rfl | rfl | rfl | rfl | rfl <;> cases hset
      rfl
    exact .inl (hone ▸ by decide)
  · have hc : c ∈ pthreadCalls := h ▸ List.mem_append_right _ (.head _)
    simp only [pthreadCalls, List.mem_cons, List.not_mem_nil, or_false] at hc
    rcases hc with rfl | rfl | rfl | rfl | rfl | rfl | rfl <;> rfl

/-- A page that sets the tid of the main thread to `64` and stores to an atomic location, and one
that sets it to `UINT32_MAX` and sends a message, use the clock array outside of its bounds. -/
theorem exists_outOfRange :
    initial.run [(0, .setCurrentTid 64), (0, .atomicsStore 500)] = .error (.outOfRange 64) ∧
      initial.run [(0, .setCurrentTid (-1)), (0, .postMessageSend)] =
        .error (.outOfRange uint32Max) := ⟨rfl, rfl⟩

end Host

end WebTSan
