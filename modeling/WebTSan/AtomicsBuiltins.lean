import WebTSan.Atomics
import WebTSan.CallStack
import WebTSan.HappensBefore
import WebTSan.SyncAddress

/-!
# The builtins of `Atomics`

A builtin of `Atomics` validates its array and its index, converts its arguments, checks the index
again, and accesses the element. At different places in between some of the builtins call a runtime
function with a hook. Converting an index or a value runs code of the user, which may throw, make
accesses and call builtins; a pending race is reported through `console.error`, which may be code of
the user as well. The builtins are calls of a `CallMachine`, whose environment makes all other
calls of the detector. The flag `--wasm_tsan` is on, and the processor is not MIPS64, where the
builtins call other runtime functions.

## Main definitions

* `WebTSan.JsEnv.atomicsLoad`, `atomicsStore`, `atomicsExchange`, `atomicsCompareExchange`,
  `atomicBinopBuiltinCommon`: the steps of the builtins.
* `WebTSan.JsEnv.machine`, `WebTSan.JsRun`.
* `WebTSan.JsRun.detectorRun`: the run of the detector in a run of the builtins.

## Main results

* `WebTSan.JsRun.exec_detectorOp`: what an event does to the detector.
-/

namespace WebTSan

/-- The builtins that access an element. -/
inductive AtomicsBuiltin
  | load
  | store
  | exchange
  | compareExchange
  | add
  | sub
  | and
  | or
  | xor
deriving DecidableEq

/-- Whether a builtin writes the element. -/
def AtomicsBuiltin.writes : AtomicsBuiltin → Bool
  | load => false
  | _ => true

/-- The elements kinds after `INT32_ELEMENTS`. -/
def ElementsKind.isBigInt : ElementsKind → Bool
  | bigInt64 | bigUint64 => true
  | _ => false

/-- A builtin with its array and the index that `ToIndex` gives. -/
structure AtomicsCall where
  builtin : AtomicsBuiltin
  array : TypedArray
  index : ℕ

/-- A step of a builtin. -/
inductive BuiltinStep
  | validateIntegerTypedArray
  /-- `ValidateAtomicAccess`, which converts the index. -/
  | validateAtomicAccess
  /-- `ToInteger_Inline` or `ToBigInt` for an argument. -/
  | convertValue
  | checkJSTypedArrayIndex
  /-- `MaybeThrowRace`, at the end of a runtime function. -/
  | maybeThrowRace
  /-- A call of the detector in a hook, or the access. -/
  | micro (m : Micro) (addr : ℕ)
deriving DecidableEq

namespace BuiltinStep

/-- Whether code of the user may run at a step. -/
def runsUserCode : BuiltinStep → Bool
  | validateAtomicAccess | convertValue | maybeThrowRace => true
  | _ => false

/-- Whether a step may throw. -/
def throws : BuiltinStep → Bool
  | validateIntegerTypedArray | validateAtomicAccess | convertValue | checkJSTypedArrayIndex => true
  | _ => false

/-- The call of the detector that a step makes. -/
def detectorOp (tid : Tid) : BuiltinStep → Option Op
  | micro .acquire addr => some (.acquire tid addr)
  | micro .release addr => some (.release tid addr)
  | _ => none

/-- The effect of a step on the detector. -/
def run (s : Detector) (tid : Tid) : BuiltinStep → Detector
  | micro .acquire addr => s.acquire tid addr
  | micro .release addr => s.release tid addr
  | _ => s

/-- The effect of a step is the one of its call of the detector. Where there is none, it is the one
of `ThreadDetach`. -/
theorem exec_detectorOp (s : Detector) (tid : Tid) (st : BuiltinStep) :
    ((st.detectorOp tid).getD (.threadDetach tid)).exec s = some (st.run s tid) := by
  cases st with
  | micro m addr => cases m <;> rfl
  | _ => rfl

theorem run_enabled (s : Detector) (tid : Tid) (st : BuiltinStep) :
    (st.run s tid).enabled = s.enabled :=
  Op.exec_enabled (exec_detectorOp s tid st)

end BuiltinStep

/-- The steps of a hook. -/
def AtomicsHook.micros : AtomicsHook → List Micro
  | load => onAtomicsLoad
  | store => onAtomicsStore
  | rmw => onAtomicsRMW

/-- The flag and the callbacks that the runtime functions see in every thread. -/
structure JsEnv where
  pointerCompression : Bool
  callbacks : Tid → AtomicsCallbacks
  active (tid : Tid) : (callbacks tid).Active tid

namespace JsEnv

variable (env : JsEnv)

/-- `CallRuntime` with one of the runtime functions for a hook. The hook gets the slot of the thread
that runs the builtin. -/
def callRuntime (hook : AtomicsHook) (tid : Tid) (array : TypedArray) (index : ℕ) :
    List BuiltinStep :=
  match runtimeWebTSanAtomics hook (env.callbacks tid) array
      (smiTag env.pointerCompression (BitVec.ofNat 64 index)) with
  | none => []
  | some call => (call.hook.micros.map fun m ↦ .micro m call.location.toNat) ++ [.maybeThrowRace]

/-- The access at the end of a builtin. -/
def access (array : TypedArray) (index : ℕ) : BuiltinStep :=
  .micro .access (array.accessedAddress (BitVec.ofNat 64 index)).toNat

/-- `AtomicsLoad`. -/
def atomicsLoad (tid : Tid) (array : TypedArray) (index : ℕ) : List BuiltinStep :=
  [.validateIntegerTypedArray, .validateAtomicAccess, .checkJSTypedArrayIndex] ++
    env.callRuntime .load tid array index ++ [access array index]

/-- `AtomicsStore`. The jump for the last two elements kinds passes the hook. -/
def atomicsStore (tid : Tid) (array : TypedArray) (index : ℕ) : List BuiltinStep :=
  [.validateIntegerTypedArray, .validateAtomicAccess] ++
    if array.kind.isBigInt then
      [.convertValue, .checkJSTypedArrayIndex, access array index]
    else
      [.convertValue, .checkJSTypedArrayIndex] ++ env.callRuntime .store tid array index ++
        [access array index]

/-- `AtomicsExchange`. -/
def atomicsExchange (tid : Tid) (array : TypedArray) (index : ℕ) : List BuiltinStep :=
  [.validateIntegerTypedArray, .validateAtomicAccess] ++ env.callRuntime .rmw tid array index ++
    [.convertValue, .checkJSTypedArrayIndex, access array index]

/-- `AtomicsCompareExchange`. -/
def atomicsCompareExchange (tid : Tid) (array : TypedArray) (index : ℕ) : List BuiltinStep :=
  [.validateIntegerTypedArray, .validateAtomicAccess] ++ env.callRuntime .rmw tid array index ++
    [.convertValue, .convertValue, .checkJSTypedArrayIndex, access array index]

/-- `AtomicBinopBuiltinCommon`. -/
def atomicBinopBuiltinCommon (array : TypedArray) (index : ℕ) : List BuiltinStep :=
  [.validateIntegerTypedArray, .validateAtomicAccess, .convertValue, .checkJSTypedArrayIndex,
    access array index]

/-- The steps of a builtin. -/
def steps (tid : Tid) (call : AtomicsCall) : List BuiltinStep :=
  match call.builtin with
  | .load => env.atomicsLoad tid call.array call.index
  | .store => env.atomicsStore tid call.array call.index
  | .exchange => env.atomicsExchange tid call.array call.index
  | .compareExchange => env.atomicsCompareExchange tid call.array call.index
  | .add | .sub | .and | .or | .xor => atomicBinopBuiltinCommon call.array call.index

end JsEnv

/-- The thread whose code makes a plain access. -/
def Op.accessor : Op → Option Tid
  | .memoryAccess _ _ _ _ tid _ => some tid
  | _ => none

/-- The builtins of all threads, on a detector that is called from elsewhere as well. A thread makes
plain accesses outside of builtins, and in the code of the user that they run. -/
def JsEnv.machine (env : JsEnv) : CallMachine Tid AtomicsCall BuiltinStep Detector Op where
  steps := env.steps
  passes call st := st ≠ .validateAtomicAccess || call.index < call.array.length
  throws := BuiltinStep.throws
  reenters := BuiltinStep.runsUserCode
  run := BuiltinStep.run
  env := Op.exec
  actor := Op.accessor

/-- A run of the builtins from the initial enabled detector. -/
abbrev JsRun (env : JsEnv) := CallRun env.machine Detector.initial

namespace JsRun

variable {env : JsEnv}

/-- The call of the detector in an event. Where there is none, it is `ThreadDetach`, which has no
effect. -/
def detectorOp (s : CallState Tid AtomicsCall BuiltinStep Detector) :
    CallEvent Tid AtomicsCall Op → Op
  | .env o => o
  | .call tid _ | .throw tid => .threadDetach tid
  | .step tid =>
    match s.frames tid with
    | (_, st :: _) :: _ => (st.detectorOp tid).getD (.threadDetach tid)
    | _ => .threadDetach tid

/-- What an event does to the detector. -/
theorem exec_detectorOp {s s' : CallState Tid AtomicsCall BuiltinStep Detector}
    {ev : CallEvent Tid AtomicsCall Op} (h : env.machine.exec s ev = some s') :
    (detectorOp s ev).exec s.shared = some s'.shared := by
  cases ev with
  | call tid call =>
    obtain ⟨-, rfl⟩ := exec_call h
    rfl
  | throw tid =>
    obtain ⟨_, _, _, _, -, -, rfl⟩ := exec_throw h
    rfl
  | env o =>
    obtain ⟨-, shared, ho, rfl⟩ := exec_env h
    exact ho
  | step tid =>
    obtain ⟨c, st, todo, rest, hf, -, rfl⟩ := exec_step h
    dsimp only [detectorOp]
    rw [hf]
    exact st.exec_detectorOp s.shared tid

/-- The run of the detector, with one call for every event. -/
def detectorRun (e : JsRun env) : Run where
  ops := e.ops.mapIdx fun k ev ↦ detectorOp (e.state k) ev
  state k := (e.state k).shared
  state_zero := by rw [e.state_zero]; rfl
  step {k o} h := by
    rw [List.getElem?_mapIdx] at h
    obtain ⟨ev, hev, rfl⟩ := Option.map_eq_some_iff.mp h
    exact exec_detectorOp (e.step hev)

variable {e : JsRun env}

theorem detectorRun_length : e.detectorRun.ops.length = e.ops.length := List.length_mapIdx

theorem detectorRun_getElem? {k : ℕ} :
    e.detectorRun.ops[k]? = e.ops[k]?.map fun ev ↦ detectorOp (e.state k) ev :=
  List.getElem?_mapIdx

/-- A step of a builtin that calls the detector, in the run of the detector. -/
theorem detectorRun_of_performs {c : Invocation Tid AtomicsCall} {st : BuiltinStep} {k : ℕ} {o : Op}
    (h : e.Performs c st k) (ho : st.detectorOp c.tid = some o) :
    e.detectorRun.ops[k]? = some o := by
  obtain ⟨todo, hev, rest, hf⟩ := h
  rw [detectorRun_getElem?, hev, Option.map_some]
  dsimp only [detectorOp]
  rw [hf]
  dsimp only
  rw [ho, Option.getD_some]

/-- An event of a builtin creates no thread, makes no plain access, and creates and destroys no
mutex. -/
theorem detectorOp_of_ne_env {s : CallState Tid AtomicsCall BuiltinStep Detector}
    {ev : CallEvent Tid AtomicsCall Op} (h : ∀ o, ev ≠ .env o) :
    (∀ p, detectorOp s ev ≠ .threadCreate p) ∧ (detectorOp s ev).accessor = none ∧
      (detectorOp s ev).erases = none := by
  cases ev with
  | env o => exact absurd rfl (h o)
  | call t call => exact ⟨nofun, rfl, rfl⟩
  | throw t => exact ⟨nofun, rfl, rfl⟩
  | step t =>
    dsimp only [detectorOp]
    split
    · next c st todo rest hf =>
      cases st with
      | micro m addr => cases m <;> exact ⟨nofun, rfl, rfl⟩
      | _ => exact ⟨nofun, rfl, rfl⟩
    · exact ⟨nofun, rfl, rfl⟩

/-- A plain access in the run of the detector is an event of the environment. -/
theorem ops_of_memoryAccess {k bs len off size : ℕ} {tid : Tid} {w : Bool}
    (h : e.detectorRun.ops[k]? = some (.memoryAccess bs len off size tid w)) :
    e.ops[k]? = some (.env (.memoryAccess bs len off size tid w)) := by
  rw [detectorRun_getElem?] at h
  obtain ⟨ev, hev, hop⟩ := Option.map_eq_some_iff.mp h
  by_cases henv : ∃ o, ev = .env o
  · obtain ⟨o, rfl⟩ := henv
    obtain rfl : o = _ := hop
    exact hev
  · have hnone := (detectorOp_of_ne_env (s := e.state k) (not_exists.mp henv)).2.1
    rw [hop] at hnone
    cases hnone

/-- A plain access is made by code of the user. -/
theorem isOpen_of_memoryAccess {k bs len off size : ℕ} {tid : Tid} {w : Bool}
    (h : e.detectorRun.ops[k]? = some (.memoryAccess bs len off size tid w)) :
    env.machine.isOpen (e.state k) tid = true := by
  obtain ⟨hopen, -⟩ := exec_env (e.step (ops_of_memoryAccess h))
  exact hopen tid rfl

/-- While no thread is created, all threads keep their slots. -/
theorem sameOccupant_of_ops {t : Tid} {i j : ℕ}
    (h : ∀ m, i ≤ m → m < j → ∀ p, e.ops[m]? ≠ some (.env (.threadCreate p))) :
    e.detectorRun.SameOccupant t i j := by
  intro m hm hmj hcreates
  obtain ⟨p, ho, -⟩ := Run.creates_iff.mp hcreates
  rw [detectorRun_getElem?] at ho
  obtain ⟨ev, hev, hop⟩ := Option.map_eq_some_iff.mp ho
  by_cases henv : ∃ o, ev = .env o
  · obtain ⟨o, rfl⟩ := henv
    obtain rfl : o = _ := hop
    exact h m hm hmj p hev
  · exact (detectorOp_of_ne_env (not_exists.mp henv)).1 p hop

end JsRun

end WebTSan
