import WebTSan.RangeClearing

/-!
# Calls that overlap

In `Detector.lean` every call is one step. Most member functions hold all their locks from the first
access to the state of the detector to the last one, and are one step also when threads overlap. Two
are not. `MemoryAccess` takes one lock after the other: it looks its shadow up, copies the clock of
its thread, records one byte after the other, and filters and counts the race that it has found.
`ClearShadow` holds the lock of the table of shadows all the time, and looks at one page, or clears
one byte, at a time. Here these two are taken apart into the sections that the locks make atomic,
and the steps of any number of threads are interleaved.

`MemoryAccess` keeps a pointer to its shadow, which `RemoveShadow` may destroy in the meantime. A
pointer is the number of shadows of the buffer that had been destroyed when it was read. A step that
follows a pointer to a shadow that is gone has no result.

## Main definitions

* `WebTSan.AccessCall`, `WebTSan.AccessStage`: a call of `MemoryAccess`, and where it is.
* `WebTSan.ConcurrentState`, `WebTSan.ConcurrentOp`, `WebTSan.ConcurrentRun`.
* `WebTSan.ConcurrentState.Step`: the paths through the code of a step.
* `WebTSan.ConcurrentRun.syncRun`: the calls that do not concern the memory, as a run of the
  detector.

## Main results

* `WebTSan.ConcurrentState.step_of_exec`: a step takes one of the paths.
* `WebTSan.ConcurrentRun.threadClocks_eq`: the clocks are those of the run of the other calls.
-/

namespace WebTSan

/-- The arguments of a call of `MemoryAccess`. -/
structure AccessCall where
  backingStore : ℕ
  sabByteLength : ℕ
  offset : ℕ
  size : ℕ
  tid : Tid
  isWrite : Bool
deriving DecidableEq

/-- Where a thread is in `MemoryAccess`. -/
inductive AccessStage
  /-- Before the shadow is looked up. -/
  | lookup
  /-- Before the clock is copied. -/
  | snapshot (shadow : ℕ)
  /-- In the loop of `RecordAccess`, before round `i`. -/
  | loop (shadow : ℕ) (clk : VClock) (i : ℕ)
  /-- Before the race is looked up among the reported sites. -/
  | filter (report : RaceReport)
  /-- Before the race is counted. -/
  | count (report : RaceReport)
  /-- Before the flag for the first log line is exchanged. -/
  | log (report : RaceReport)
  /-- Before the callback is called. -/
  | notify (report : RaceReport)

/-- Where the thread that holds the lock of the table of shadows is in `ClearRange`. -/
structure ClearStage where
  backingStore : ℕ
  byte : ℕ
  endByte : ℕ
  /-- The end of the page that the inner loop is on. -/
  pageEnd : Option ℕ

/-- The detector with the calls that are under way. -/
structure ConcurrentState (ι : Type*) where
  detector : Detector
  /-- How many shadows of a buffer have been destroyed. -/
  destroyed : ℕ → ℕ
  /-- The call of `MemoryAccess` that a thread is in. -/
  stage : ι → Option (AccessCall × AccessStage)
  /-- The call of `ClearShadow` that is under way. -/
  clearing : Option ClearStage
  /-- The reports in the log. -/
  logged : List RaceReport
  /-- The reports that the callback was called with. -/
  notified : List RaceReport

/-- A step of the threads. -/
inductive ConcurrentOp (ι : Type*)
  /-- A call that does not concern the memory. -/
  | call (o : Op)
  | removeShadow (backingStore : ℕ)
  /-- A thread calls `MemoryAccess`. -/
  | access (thread : ι) (c : AccessCall)
  /-- A thread takes the next step of `MemoryAccess`. -/
  | next (thread : ι)
  /-- Some thread calls `ClearShadow`. -/
  | clearShadow (backingStore offset size : ℕ)
  /-- The next step of `ClearShadow`. -/
  | clearNext

namespace Detector

/-- Looking up the shadow of an access stores it, if the buffer had none. -/
theorem snd_eq_of_shadowFor_eq_some (s : Detector) {backingStore sabByteLength : ℕ}
    {shadow : ShadowBuffer} {s' : Detector}
    (h : s.shadowFor backingStore sabByteLength = some (shadow, s')) :
    s' = { s with
      shadowBuffers := Function.update s.shadowBuffers backingStore
        (some (s.shadowOf backingStore sabByteLength)) } := by
  unfold shadowFor getOrCreateShadow at h
  unfold shadowOf
  cases hs : s.shadowBuffers backingStore with
  | none =>
    rw [hs] at h
    split_ifs at h
    · cases h
    · obtain ⟨-, rfl⟩ := Prod.mk.inj (Option.some.inj h)
      rfl
  | some shadow' =>
    rw [hs] at h
    have hself : Function.update s.shadowBuffers backingStore (some shadow') =
        s.shadowBuffers := by
      rw [← hs, Function.update_eq_self]
    split_ifs at h <;>
      · obtain ⟨-, rfl⟩ := Prod.mk.inj (Option.some.inj h)
        rw [Option.getD_some, hself]

end Detector

variable {ι : Type*}

namespace ConcurrentState

/-- No call is under way. -/
def initial : ConcurrentState ι :=
  { detector := Detector.initial
    destroyed := fun _ ↦ 0
    stage := fun _ ↦ none
    clearing := none
    logged := []
    notified := [] }

section Paths

variable (s : ConcurrentState ι)

/-- The shadow that a pointer leads to. -/
def deref (backingStore shadow : ℕ) : Option ShadowBuffer :=
  if s.destroyed backingStore = shadow then s.detector.shadowBuffers backingStore else none

def setDetector (d : Detector) : ConcurrentState ι := { s with detector := d }

def setShadow (backingStore : ℕ) (shadow : ShadowBuffer) : ConcurrentState ι :=
  s.setDetector { s.detector with
    shadowBuffers := Function.update s.detector.shadowBuffers backingStore (some shadow) }

def setClearing (c : Option ClearStage) : ConcurrentState ι := { s with clearing := c }

/-- `RemoveShadow`. -/
def removeShadow (backingStore : ℕ) : ConcurrentState ι :=
  { s with
    detector := s.detector.removeShadow backingStore
    destroyed :=
      if s.detector.enabled && (s.detector.shadowBuffers backingStore).isSome then
        Function.update s.destroyed backingStore (s.destroyed backingStore + 1)
      else s.destroyed }

/-! ### `ClearShadow` -/

/-- The first part of `ClearShadow`. -/
def clearShadow (backingStore offset size : ℕ) : ConcurrentState ι :=
  if !s.detector.enabled then s
  else
    match s.detector.shadowBuffers backingStore with
    | none => s
    | some shadow => s.setClearing (some ⟨backingStore, offset, shadow.clearEnd offset size, none⟩)

/-- Invalidate the cells of one byte of a page. -/
def clearCells (shadow : ShadowBuffer) (byte : ℕ) : ShadowBuffer :=
  { shadow with
    pages := Function.update shadow.pages (ShadowBuffer.pageIndex byte)
      ((shadow.pages (ShadowBuffer.pageIndex byte)).map fun page ↦
        ShadowBuffer.clearByte page (ShadowBuffer.inPageOffset byte)) }

/-- A step of `ClearRange`: a page is looked up, a byte is cleared, or one of the loops ends. -/
def clearNext (c : ClearStage) (shadow : ShadowBuffer) : ConcurrentState ι :=
  match c.pageEnd with
  | none =>
    if c.byte < c.endByte then
      let pageIdx := ShadowBuffer.pageIndex c.byte
      let nextPage := (pageIdx + 1) * kPageBytes % 2 ^ 64
      match shadow.pages pageIdx with
      | none => s.setClearing (some { c with byte := nextPage })
      | some _ => s.setClearing (some { c with pageEnd := some (min c.endByte nextPage) })
    else s.setClearing none
  | some pageEnd =>
    if c.byte < pageEnd then
      (s.setShadow c.backingStore (clearCells shadow c.byte)).setClearing
        (some { c with byte := c.byte + 1 })
    else s.setClearing (some { c with pageEnd := none })

/-! ### `MemoryAccess` -/

variable [DecidableEq ι] (thread : ι)

def setStage (st : Option (AccessCall × AccessStage)) : ConcurrentState ι :=
  { s with stage := Function.update s.stage thread st }

/-- The first part of `MemoryAccess`. -/
def access (c : AccessCall) : ConcurrentState ι :=
  if !s.detector.enabled then s
  else
    (s.setDetector { s.detector with
      accessesChecked := bump s.detector.accessesChecked }).setStage thread (some (c, .lookup))

/-- A round of the loop of `RecordAccess`. -/
def round (c : AccessCall) (shadow : ℕ) (clk : VClock) (i : ℕ) : Option (ConcurrentState ι) :=
  if i < c.size then
    (s.deref c.backingStore shadow).map fun sb ↦
      if c.offset + i < sb.byteLength then
        let result := sb.recordByte (c.offset + i) c.tid c.isWrite clk
        (s.setShadow c.backingStore result.2).setStage thread
          (some (c, result.1.elim (.loop shadow clk (i + 1)) .filter))
      else s.setStage thread none
  else some (s.setStage thread none)

/-- A race passes the filter if its key is new. -/
def filter (c : AccessCall) (report : RaceReport) : ConcurrentState ι :=
  let key := Detector.siteKey c.backingStore report.sabOffset
  if key ∈ s.detector.reportedRaceSites then s.setStage thread none
  else
    (s.setDetector { s.detector with
      reportedRaceSites := insert key s.detector.reportedRaceSites }).setStage thread
        (some (c, .count report))

/-- Only the first race is logged. -/
def log (c : AccessCall) (report : RaceReport) : ConcurrentState ι :=
  if s.detector.firstRaceLogged then s.setStage thread (some (c, .notify report))
  else
    ({ s.setDetector { s.detector with firstRaceLogged := true } with
      logged := s.logged ++ [report] }).setStage thread (some (c, .notify report))

/-- A step of `MemoryAccess`. -/
def next (c : AccessCall) : AccessStage → Option (ConcurrentState ι)
  | .lookup =>
    if s.clearing.isSome then none
    else
      match s.detector.shadowFor c.backingStore c.sabByteLength with
      | none => some (s.setStage thread none)
      | some (_, d) =>
        some ((s.setDetector d).setStage thread
          (some (c, .snapshot (s.destroyed c.backingStore))))
  | .snapshot shadow =>
    some (s.setStage thread (some (c, .loop shadow (s.detector.threadClocks c.tid) 0)))
  | .loop shadow clk i => s.round thread c shadow clk i
  | .filter report => some (s.filter thread c report)
  | .count report =>
    some ((s.setDetector { s.detector with
      racesDetected := bump s.detector.racesDetected }).setStage thread (some (c, .log report)))
  | .log report => some (s.log thread c report)
  | .notify report =>
    some (({ s with notified := s.notified ++ [report] }).setStage thread none)

end Paths

end ConcurrentState

/-- The call of a step that does not concern the memory. -/
def ConcurrentOp.syncCall : ConcurrentOp ι → Option Op
  | call o => some o
  | _ => none

open ConcurrentState in
/-- The state after a step, if the step can be taken: a thread waits for the lock of the table of
shadows while `ClearShadow` holds it. -/
def ConcurrentOp.exec [DecidableEq ι] (s : ConcurrentState ι) :
    ConcurrentOp ι → Option (ConcurrentState ι)
  | call o =>
    if o.concernsMemory then none
    else (o.exec s.detector).map s.setDetector
  | removeShadow backingStore =>
    if s.clearing.isSome then none else some (s.removeShadow backingStore)
  | access thread c => if (s.stage thread).isSome then none else some (s.access thread c)
  | next thread => (s.stage thread).bind fun p ↦ s.next thread p.1 p.2
  | clearShadow backingStore offset size =>
    if s.clearing.isSome then none else some (s.clearShadow backingStore offset size)
  | clearNext =>
    s.clearing.bind fun c ↦ (s.detector.shadowBuffers c.backingStore).map (s.clearNext c)

/-- A run of any number of threads from the initial enabled state. -/
abbrev ConcurrentRun (ι : Type*) [DecidableEq ι] :=
  Execution (ConcurrentOp.exec (ι := ι)) ConcurrentState.initial

namespace ConcurrentState

section Step

variable [DecidableEq ι]

/-- The paths through the code of a step. -/
inductive Step (s : ConcurrentState ι) : ConcurrentOp ι → ConcurrentState ι → Prop
  | call {o : Op} {d : Detector} (ho : o.concernsMemory = false)
      (h : o.exec s.detector = some d) : Step s (.call o) (s.setDetector d)
  | removeShadow {bs : ℕ} (hfree : s.clearing = none) :
      Step s (.removeShadow bs) (s.removeShadow bs)
  | access {t : ι} {c : AccessCall} (ht : s.stage t = none) :
      Step s (.access t c)
        ((s.setDetector { s.detector with
          accessesChecked := bump s.detector.accessesChecked }).setStage t (some (c, .lookup)))
  | lookupNone {t : ι} {c : AccessCall} (ht : s.stage t = some (c, .lookup))
      (hfree : s.clearing = none) (hnone : s.detector.shadowBuffers c.backingStore = none) :
      Step s (.next t) (s.setStage t none)
  | lookup {t : ι} {c : AccessCall} (ht : s.stage t = some (c, .lookup))
      (hfree : s.clearing = none) :
      Step s (.next t)
        ((s.setShadow c.backingStore
          (s.detector.shadowOf c.backingStore c.sabByteLength)).setStage t
            (some (c, .snapshot (s.destroyed c.backingStore))))
  | snapshot {t : ι} {c : AccessCall} {shadow : ℕ} (ht : s.stage t = some (c, .snapshot shadow)) :
      Step s (.next t) (s.setStage t
        (some (c, .loop shadow (s.detector.threadClocks c.tid) 0)))
  | record {t : ι} {c : AccessCall} {shadow : ℕ} {clk : VClock} {i : ℕ} {sb : ShadowBuffer}
      (ht : s.stage t = some (c, .loop shadow clk i)) (hi : i < c.size)
      (hsb : s.deref c.backingStore shadow = some sb) (hlen : c.offset + i < sb.byteLength) :
      Step s (.next t)
        ((s.setShadow c.backingStore
          (sb.recordByte (c.offset + i) c.tid c.isWrite clk).2).setStage t
            (some (c, (sb.recordByte (c.offset + i) c.tid c.isWrite clk).1.elim
              (.loop shadow clk (i + 1)) .filter)))
  | loopEnd {t : ι} {c : AccessCall} {shadow : ℕ} {clk : VClock} {i : ℕ}
      (ht : s.stage t = some (c, .loop shadow clk i))
      (hend : i < c.size → ∃ sb, s.deref c.backingStore shadow = some sb ∧
        sb.byteLength ≤ c.offset + i) : Step s (.next t) (s.setStage t none)
  | repeated {t : ι} {c : AccessCall} {report : RaceReport}
      (ht : s.stage t = some (c, .filter report))
      (hmem : Detector.siteKey c.backingStore report.sabOffset ∈ s.detector.reportedRaceSites) :
      Step s (.next t) (s.setStage t none)
  | insert {t : ι} {c : AccessCall} {report : RaceReport}
      (ht : s.stage t = some (c, .filter report))
      (hmem : Detector.siteKey c.backingStore report.sabOffset ∉ s.detector.reportedRaceSites) :
      Step s (.next t)
        ((s.setDetector { s.detector with
          reportedRaceSites := insert (Detector.siteKey c.backingStore report.sabOffset)
            s.detector.reportedRaceSites }).setStage t (some (c, .count report)))
  | count {t : ι} {c : AccessCall} {report : RaceReport}
      (ht : s.stage t = some (c, .count report)) :
      Step s (.next t)
        ((s.setDetector { s.detector with
          racesDetected := bump s.detector.racesDetected }).setStage t (some (c, .log report)))
  | logged {t : ι} {c : AccessCall} {report : RaceReport}
      (ht : s.stage t = some (c, .log report)) (hlog : s.detector.firstRaceLogged = true) :
      Step s (.next t) (s.setStage t (some (c, .notify report)))
  | log {t : ι} {c : AccessCall} {report : RaceReport}
      (ht : s.stage t = some (c, .log report)) (hlog : s.detector.firstRaceLogged = false) :
      Step s (.next t)
        (({ s.setDetector { s.detector with firstRaceLogged := true } with
          logged := s.logged ++ [report] }).setStage t (some (c, .notify report)))
  | notify {t : ι} {c : AccessCall} {report : RaceReport}
      (ht : s.stage t = some (c, .notify report)) :
      Step s (.next t) (({ s with notified := s.notified ++ [report] }).setStage t none)
  | clearNone {bs off size : ℕ} (hfree : s.clearing = none)
      (hnone : s.detector.shadowBuffers bs = none) : Step s (.clearShadow bs off size) s
  | clearShadow {bs off size : ℕ} {sb : ShadowBuffer} (hfree : s.clearing = none)
      (hsb : s.detector.shadowBuffers bs = some sb) :
      Step s (.clearShadow bs off size)
        (s.setClearing (some ⟨bs, off, sb.clearEnd off size, none⟩))
  | clearSkip {bs byte endByte : ℕ} {sb : ShadowBuffer}
      (hc : s.clearing = some ⟨bs, byte, endByte, none⟩)
      (hsb : s.detector.shadowBuffers bs = some sb) (hlt : byte < endByte)
      (hpage : sb.pages (ShadowBuffer.pageIndex byte) = none) :
      Step s .clearNext
        (s.setClearing (some
          ⟨bs, (ShadowBuffer.pageIndex byte + 1) * kPageBytes % 2 ^ 64, endByte, none⟩))
  | clearEnter {bs byte endByte : ℕ} {sb : ShadowBuffer} {page : ShadowPage}
      (hc : s.clearing = some ⟨bs, byte, endByte, none⟩)
      (hsb : s.detector.shadowBuffers bs = some sb) (hlt : byte < endByte)
      (hpage : sb.pages (ShadowBuffer.pageIndex byte) = some page) :
      Step s .clearNext
        (s.setClearing (some ⟨bs, byte, endByte,
          some (min endByte ((ShadowBuffer.pageIndex byte + 1) * kPageBytes % 2 ^ 64))⟩))
  | clearReturn {bs byte endByte : ℕ} (hc : s.clearing = some ⟨bs, byte, endByte, none⟩)
      (hle : endByte ≤ byte) : Step s .clearNext (s.setClearing none)
  | clearByte {bs byte endByte pageEnd : ℕ} {sb : ShadowBuffer}
      (hc : s.clearing = some ⟨bs, byte, endByte, some pageEnd⟩)
      (hsb : s.detector.shadowBuffers bs = some sb) (hlt : byte < pageEnd) :
      Step s .clearNext
        ((s.setShadow bs (clearCells sb byte)).setClearing
          (some ⟨bs, byte + 1, endByte, some pageEnd⟩))
  | clearLeave {bs byte endByte pageEnd : ℕ}
      (hc : s.clearing = some ⟨bs, byte, endByte, some pageEnd⟩) (hle : pageEnd ≤ byte) :
      Step s .clearNext (s.setClearing (some ⟨bs, byte, endByte, none⟩))

variable {s s' : ConcurrentState ι}

/-- A step of the loop of `RecordAccess` records a byte, or ends the loop. -/
theorem step_of_round {t : ι} {c : AccessCall} {shadow i : ℕ} {clk : VClock}
    (ht : s.stage t = some (c, .loop shadow clk i)) (h : s.round t c shadow clk i = some s') :
    s.Step (.next t) s' := by
  unfold round at h
  split_ifs at h with hi
  · obtain ⟨sb, hsb, hs⟩ := Option.map_eq_some_iff.mp h
    split_ifs at hs with hlen
    · obtain rfl := hs
      exact .record ht hi hsb hlen
    · obtain rfl := hs
      exact .loopEnd ht fun _ ↦ ⟨sb, hsb, not_lt.mp hlen⟩
  · obtain rfl := Option.some.inj h
    exact .loopEnd ht fun hi' ↦ absurd hi' hi

/-- A step of `MemoryAccess` takes one of its paths. -/
theorem step_of_next {t : ι} {c : AccessCall} {st : AccessStage} (ht : s.stage t = some (c, st))
    (h : s.next t c st = some s') : s.Step (.next t) s' := by
  cases st with
  | lookup =>
    simp only [next] at h
    split_ifs at h with hfree
    have hfree : s.clearing = none := by simpa using hfree
    split at h
    · next hnone =>
      obtain rfl := Option.some.inj h
      exact .lookupNone ht hfree ((s.detector.shadowFor_eq_none_iff ..).mp hnone).1
    · next sb d hsome =>
      obtain rfl := Option.some.inj h
      obtain rfl := s.detector.snd_eq_of_shadowFor_eq_some hsome
      exact .lookup ht hfree
  | snapshot shadow =>
    obtain rfl := Option.some.inj h
    exact .snapshot ht
  | loop shadow clk i => exact step_of_round ht h
  | filter report =>
    obtain rfl := Option.some.inj h
    dsimp only [filter]
    split_ifs with hmem
    · exact .repeated ht hmem
    · exact .insert ht hmem
  | count report =>
    obtain rfl := Option.some.inj h
    exact .count ht
  | log report =>
    obtain rfl := Option.some.inj h
    dsimp only [log]
    split_ifs with hlog
    · exact .logged ht hlog
    · exact .log ht (by simpa using hlog)
  | notify report =>
    obtain rfl := Option.some.inj h
    exact .notify ht

/-- A step of `ClearShadow` takes one of its paths. -/
theorem step_of_clearNext {c : ClearStage} {sb : ShadowBuffer} (hc : s.clearing = some c)
    (hsb : s.detector.shadowBuffers c.backingStore = some sb) :
    s.Step .clearNext (s.clearNext c sb) := by
  obtain ⟨bs, byte, endByte, pageEnd⟩ := c
  cases pageEnd with
  | none =>
    simp only [clearNext]
    split_ifs with hlt
    · cases hpage : sb.pages (ShadowBuffer.pageIndex byte) with
      | none => exact .clearSkip hc hsb hlt hpage
      | some page => exact .clearEnter hc hsb hlt hpage
    · exact .clearReturn hc (not_lt.mp hlt)
  | some pageEnd =>
    simp only [clearNext]
    split_ifs with hlt
    · exact .clearByte hc hsb hlt
    · exact .clearLeave hc (not_lt.mp hlt)

/-- A step takes one of the paths. -/
theorem step_of_exec {o : ConcurrentOp ι} (he : s.detector.enabled = true)
    (h : o.exec s = some s') : s.Step o s' := by
  cases o with
  | call o =>
    simp only [ConcurrentOp.exec] at h
    split_ifs at h with ho
    obtain ⟨d, hd, rfl⟩ := Option.map_eq_some_iff.mp h
    exact .call (by simpa using ho) hd
  | removeShadow bs =>
    simp only [ConcurrentOp.exec] at h
    split_ifs at h with hfree
    obtain rfl := Option.some.inj h
    exact .removeShadow (by simpa using hfree)
  | access t c =>
    simp only [ConcurrentOp.exec] at h
    split_ifs at h with ht
    obtain rfl := Option.some.inj h
    rw [ConcurrentState.access, if_neg (by simp [he])]
    exact .access (by simpa using ht)
  | next t =>
    obtain ⟨⟨c, st⟩, ht, h⟩ := Option.bind_eq_some_iff.mp h
    exact step_of_next ht h
  | clearShadow bs off size =>
    simp only [ConcurrentOp.exec] at h
    split_ifs at h with hfree
    obtain rfl := Option.some.inj h
    have hfree : s.clearing = none := by simpa using hfree
    rw [ConcurrentState.clearShadow, if_neg (by simp [he])]
    cases hsb : s.detector.shadowBuffers bs with
    | none => exact .clearNone hfree hsb
    | some sb => exact .clearShadow hfree hsb
  | clearNext =>
    obtain ⟨c, hc, h⟩ := Option.bind_eq_some_iff.mp h
    obtain ⟨sb, hsb, rfl⟩ := Option.map_eq_some_iff.mp h
    exact step_of_clearNext hc hsb

/-- The calls that do not concern the memory are all that changes the rest of the detector. -/
theorem Step.withMemory_eq {o : ConcurrentOp ι} (h : s.Step o s')
    (ho : ∀ o', o ≠ .call o') (m : Detector) :
    s'.detector.withMemory m = s.detector.withMemory m := by
  cases h with
  | call => exact absurd rfl (ho _)
  | removeShadow =>
    dsimp only [ConcurrentState.removeShadow, Detector.removeShadow]
    split_ifs <;> rfl
  | _ => rfl

theorem Step.of_call {o : Op} (h : s.Step (.call o) s') :
    o.concernsMemory = false ∧ ∃ d, o.exec s.detector = some d ∧ s' = s.setDetector d := by
  cases h with
  | call ho h => exact ⟨ho, _, h, rfl⟩

theorem Step.enabled_eq {o : ConcurrentOp ι} (h : s.Step o s') :
    s'.detector.enabled = s.detector.enabled := by
  by_cases ho : ∃ o', o = .call o'
  · obtain ⟨o', rfl⟩ := ho
    obtain ⟨-, d, hexec, rfl⟩ := h.of_call
    exact Op.exec_enabled hexec
  · have hsync := h.withMemory_eq (not_exists.mp ho) s.detector
    exact congrArg (fun d ↦ d.enabled) hsync

end Step

end ConcurrentState

namespace ConcurrentRun

variable [DecidableEq ι] (e : ConcurrentRun ι)

theorem enabled {k : ℕ} (hk : k ≤ e.ops.length) : (e.state k).detector.enabled = true := by
  refine e.invariant_of_step (P := fun s ↦ s.detector.enabled = true) rfl (fun ho hs ↦ ?_) hk
  exact (ConcurrentState.step_of_exec hs (e.step ho)).enabled_eq.trans hs

/-- Every step of a run takes one of the paths. -/
theorem stepAt {k : ℕ} {o : ConcurrentOp ι} (ho : e.ops[k]? = some o) :
    (e.state k).Step o (e.state (k + 1)) :=
  ConcurrentState.step_of_exec (e.enabled (List.getElem?_eq_some_iff.mp ho).1.le) (e.step ho)

/-! ### The calls that do not concern the memory -/

/-- The calls that do not concern the memory act on the rest of the detector, and nothing else
does. -/
theorem projects : e.Projects Op.exec ConcurrentOp.syncCall
    fun s ↦ s.detector.withMemory Detector.initial where
  exec_of_some {k o o'} ho h := by
    cases o with
    | call o'' =>
      obtain rfl := Option.some.inj h
      obtain ⟨hmem, d, hexec, hs⟩ := (e.stepAt ho).of_call
      rw [Op.exec_withMemory _ _ hmem, hexec, hs]
      rfl
    | _ => cases h
  view_of_none {k o} ho h :=
    (e.stepAt ho).withMemory_eq (by rintro o' rfl; cases h) Detector.initial

/-- The calls that do not concern the memory, as a run of the detector. -/
def syncRun : Run := Execution.project e.projects rfl

/-- How many calls that do not concern the memory have been made before a point. -/
def calls (k : ℕ) : ℕ := e.seen ConcurrentOp.syncCall k

theorem syncRun_state {k : ℕ} (hk : k ≤ e.ops.length) :
    e.syncRun.state (e.calls k) = (e.state k).detector.withMemory Detector.initial :=
  Execution.project_state e.projects rfl hk

/-- The clocks are those of the run of the calls that do not concern the memory. -/
theorem threadClocks_eq {k : ℕ} (hk : k ≤ e.ops.length) :
    (e.syncRun.state (e.calls k)).threadClocks = (e.state k).detector.threadClocks := by
  rw [e.syncRun_state hk]
  rfl

theorem calls_mono {j k : ℕ} (h : j ≤ k) : e.calls j ≤ e.calls k := e.seen_mono _ h

theorem calls_le {k : ℕ} (hk : k ≤ e.ops.length) : e.calls k ≤ e.syncRun.ops.length :=
  (e.calls_mono hk).trans (e.seen_length _).le

theorem calls_succ {k : ℕ} {o : Op} (ho : e.ops[k]? = some (.call o)) :
    e.calls (k + 1) = e.calls k + 1 := e.seen_succ ho

theorem lt_of_calls_lt {j k : ℕ} (h : e.calls j < e.calls k) : j < k := by
  by_contra hle
  exact absurd (e.calls_mono (not_lt.mp hle)) (not_le_of_gt h)

/-- A call that is made at or after a point is counted at or after it. -/
theorem le_of_calls_le {j k : ℕ} {o : Op} (ho : e.ops[k]? = some (.call o))
    (h : e.calls j ≤ e.calls k) : j ≤ k := by
  by_contra hlt
  have hle := e.calls_mono (not_le.mp hlt : k + 1 ≤ j)
  rw [e.calls_succ ho] at hle
  exact absurd (hle.trans h) (Nat.not_succ_le_self _)

/-- A call of the run without the memory is one of the steps. -/
theorem exists_of_syncRun_getElem? {j : ℕ} {o : Op} (ho : e.syncRun.ops[j]? = some o) :
    ∃ k, e.ops[k]? = some (.call o) ∧ e.calls k = j := by
  obtain ⟨k, o', ho', hf, hj⟩ := e.exists_of_getElem?_filterMap _ ho
  cases o' with
  | call o'' =>
    obtain rfl := Option.some.inj hf
    exact ⟨k, ho', hj⟩
  | _ => cases hf

end ConcurrentRun

end WebTSan
