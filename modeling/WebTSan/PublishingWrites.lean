import WebTSan.AtomicsBuiltins
import WebTSan.Detection
import WebTSan.ReadsFrom

/-!
# Builtins that publish

A thread writes data, then an element by a builtin of `Atomics`, and another thread reads the
element by a builtin and then the data. No race is to be reported. This holds if the hook of the
first builtin releases, the hook of the second one acquires, and both use the same key. The builtins
for arithmetic call no hook, and `Atomics.store` calls none for elements of 64 bits.

## Main definitions

* `WebTSan.AtomicsBuiltin.publishes`, `WebTSan.AtomicsBuiltin.acquires`.
* `WebTSan.JsRun.Handover`: a builtin that completes before another one starts.
* `WebTSan.JsRun.HandsOver`: the second thread then knows what the first one knew, in all runs.

## Main results

* `WebTSan.JsEnv.release_mem_steps_iff`, `WebTSan.JsEnv.acquire_mem_steps_iff`.
* `WebTSan.JsRun.handsOver_iff`: which pairs of builtins hand over.
-/

namespace WebTSan

/-- The builtins whose hook releases, for an elements kind. -/
def AtomicsBuiltin.publishes (kind : ElementsKind) : AtomicsBuiltin → Bool
  | store => !kind.isBigInt
  | exchange | compareExchange => true
  | _ => false

/-- The builtins whose hook acquires. -/
def AtomicsBuiltin.acquires : AtomicsBuiltin → Bool
  | load | exchange | compareExchange => true
  | _ => false

namespace JsEnv

variable (env : JsEnv)

/-- The key of the element of a call. -/
def keyOf (call : AtomicsCall) : ℕ := (call.array.key env.pointerCompression call.index).toNat

variable {env} {tid : Tid} {call : AtomicsCall}

/-- The steps of a runtime function, for a shared array. -/
theorem callRuntime_eq (hs : call.array.isShared = true) (hook : AtomicsHook) (tid : Tid) :
    env.callRuntime hook tid call.array call.index =
      (hook.micros.map fun m ↦ .micro m (env.keyOf call)) ++ [.maybeThrowRace] := by
  rw [callRuntime, TypedArray.runtimeWebTSanAtomics_eq (env.active tid) hs]
  rfl

/-- Which builtins release, and where. -/
theorem release_mem_steps_iff (hs : call.array.isShared = true) {addr : ℕ} :
    .micro .release addr ∈ env.steps tid call ↔
      call.builtin.publishes call.array.kind = true ∧ addr = env.keyOf call := by
  unfold steps
  cases hb : call.builtin <;>
    simp [atomicsLoad, atomicsStore, atomicsExchange, atomicsCompareExchange,
      atomicBinopBuiltinCommon, callRuntime_eq hs, AtomicsHook.micros, onAtomicsLoad,
      onAtomicsStore, onAtomicsRMW, access, AtomicsBuiltin.publishes]
  split_ifs with hk <;> simp [hk]

/-- Which builtins acquire, and where. -/
theorem acquire_mem_steps_iff (hs : call.array.isShared = true) {addr : ℕ} :
    .micro .acquire addr ∈ env.steps tid call ↔
      call.builtin.acquires = true ∧ addr = env.keyOf call := by
  unfold steps
  cases hb : call.builtin <;>
    simp [atomicsLoad, atomicsStore, atomicsExchange, atomicsCompareExchange,
      atomicBinopBuiltinCommon, callRuntime_eq hs, AtomicsHook.micros, onAtomicsLoad,
      onAtomicsStore, onAtomicsRMW, access, AtomicsBuiltin.acquires]
  split_ifs with hk <;> simp

theorem steps_ne_nil (env : JsEnv) (tid : Tid) (call : AtomicsCall) : env.steps tid call ≠ [] := by
  unfold steps
  cases call.builtin <;> simp [atomicsLoad, atomicsStore, atomicsExchange, atomicsCompareExchange,
    atomicBinopBuiltinCommon]

end JsEnv

namespace JsRun

variable {env : JsEnv}

/-- The call `c` starts at `a` and completes at `k`, the call `d` starts at `b` and completes at
`l`, later. Both threads keep their slots during the calls, and no mutex is created or destroyed at
the key of the element. -/
structure Handover (e : JsRun env) (c d : Invocation Tid AtomicsCall) (a k b l : ℕ) : Prop where
  starts : e.StartsAt c a
  completes : e.Completes c k
  lt : k < b
  starts_reader : e.StartsAt d b
  completes_reader : e.Completes d l
  sender : e.detectorRun.SameOccupant c.tid a k
  receiver : e.detectorRun.SameOccupant d.tid b (l + 1)
  keepsSync : e.detectorRun.KeepsSync (env.keyOf c.kind) a l

variable {e : JsRun env} {c d : Invocation Tid AtomicsCall} {a k b l : ℕ}

theorem Handover.happensBefore (h : e.Handover c d a k b l)
    (hc : c.kind.array.isShared = true) (hd : d.kind.array.isShared = true)
    (hpub : c.kind.builtin.publishes c.kind.array.kind = true)
    (hacq : d.kind.builtin.acquires = true) (hkey : env.keyOf c.kind = env.keyOf d.kind) :
    e.detectorRun.HappensBefore (a, c.tid) (l + 1, d.tid) := by
  obtain ⟨i, hai, hik, hi⟩ := h.completes.performs h.starts
    ((JsEnv.release_mem_steps_iff hc).mpr ⟨hpub, rfl⟩)
  obtain ⟨j, hbj, hjl, hj⟩ := h.completes_reader.performs h.starts_reader
    ((JsEnv.acquire_mem_steps_iff hd).mpr ⟨hacq, rfl⟩)
  have hik' := h.lt
  have hi' : e.detectorRun.ops[i]? = some (.release c.tid (env.keyOf c.kind)) :=
    detectorRun_of_performs hi rfl
  have hj' : e.detectorRun.ops[j]? = some (.acquire d.tid (env.keyOf d.kind)) :=
    detectorRun_of_performs hj rfl
  have hsync : e.detectorRun.HappensBefore (i, c.tid) (j + 1, d.tid) := by
    refine .single (.sync (by omega) ⟨_, hi', rfl⟩ ⟨_, hj', by rw [hkey]; rfl⟩ ?_)
    exact fun x o hx hxj ho ↦ h.keepsSync (by omega) (by omega) ho
  have hlen : l < e.detectorRun.ops.length := by
    obtain ⟨st, hst⟩ := h.completes_reader
    rw [detectorRun_length]
    exact hst.lt_length
  have hfirst : e.detectorRun.HappensBefore (a, c.tid) (i, c.tid) :=
    .single (.programOrder hai (by omega) fun x hx hxi ↦ h.sender hx (by omega))
  have hboth : e.detectorRun.HappensBefore (a, c.tid) (j + 1, d.tid) := hfirst.trans hsync
  exact hboth.programOrder (h.receiver.mono (by omega) le_rfl) (by omega) hlen

/-- A builtin that releases hands what its thread knows over to a later builtin that acquires the
same key. -/
theorem Handover.handedOver (h : e.Handover c d a k b l) (hw : e.detectorRun.NoWrap)
    (hc : c.kind.array.isShared = true) (hd : d.kind.array.isShared = true)
    (hpub : c.kind.builtin.publishes c.kind.array.kind = true)
    (hacq : d.kind.builtin.acquires = true) (hkey : env.keyOf c.kind = env.keyOf d.kind) :
    e.detectorRun.HandedOver c.tid d.tid a (l + 1) := by
  have ha : a ≤ e.detectorRun.ops.length := by
    rw [detectorRun_length]
    exact h.starts.lt_length.le
  exact .of_clock_le hw ha ((h.happensBefore hc hd hpub hacq hkey).clock_le hw)

/-! ### Builtins that do not publish -/

/-- Thread `u` and the address `key` know nothing of thread `t`. -/
structure Unaware (t u : Tid) (key : ℕ) (s : Detector) : Prop where
  enabled : s.enabled = true
  thread : s.clockOf (.thread u) t = 0
  sync : s.clockOf (.sync key) t = 0

/-- A step of `t` tells nothing to `u` and to `key`, unless it releases `key`. -/
theorem Unaware.run_sender {t u : Tid} {key : ℕ} {s : Detector} (h : Unaware t u key s)
    (hu : u ≠ t) {st : BuiltinStep} (hst : st ≠ .micro .release key) :
    Unaware t u key (st.run s t) := by
  cases st with
  | micro m addr =>
    cases m with
    | acquire =>
      refine ⟨(BuiltinStep.run_enabled ..).trans h.enabled, ?_, ?_⟩ <;>
        rw [BuiltinStep.run, Detector.clockOf_acquire h.enabled]
      · rw [if_neg (by simpa using hu)]
        exact h.thread
      · rw [if_neg (by simp)]
        exact h.sync
    | release =>
      have hne : key ≠ addr := fun hkey ↦ hst (by rw [hkey])
      refine ⟨(BuiltinStep.run_enabled ..).trans h.enabled, ?_, ?_⟩ <;>
        rw [BuiltinStep.run, Detector.clockOf_release h.enabled]
      · rw [if_neg (by simpa using hu), if_neg (by simp)]
        exact h.thread
      · rw [if_neg (by simp), if_neg (by simpa using hne)]
        exact h.sync
    | access => exact h
  | _ => exact h

/-- A step of `u` learns nothing of `t`, unless it acquires another address than `key`. -/
theorem Unaware.run_reader {t u : Tid} {key : ℕ} {s : Detector} (h : Unaware t u key s)
    (hu : u ≠ t) {st : BuiltinStep} (hst : ∀ addr, st = .micro .acquire addr → addr = key) :
    Unaware t u key (st.run s u) := by
  cases st with
  | micro m addr =>
    cases m with
    | acquire =>
      obtain rfl := hst addr rfl
      refine ⟨(BuiltinStep.run_enabled ..).trans h.enabled, ?_, ?_⟩ <;>
        rw [BuiltinStep.run, Detector.clockOf_acquire h.enabled]
      · rw [if_pos rfl, Pi.sup_apply, h.thread, h.sync, sup_idem]
      · rw [if_neg (by simp)]
        exact h.sync
    | release =>
      refine ⟨(BuiltinStep.run_enabled ..).trans h.enabled, ?_, ?_⟩ <;>
        rw [BuiltinStep.run, Detector.clockOf_release h.enabled]
      · rw [if_pos rfl, VClock.increment_of_ne _ hu.symm]
        exact h.thread
      · rw [if_neg (by simp)]
        split_ifs
        · rw [Pi.sup_apply, h.thread, h.sync, sup_idem]
        · exact h.sync
    | access => exact h
  | _ => exact h

theorem Unaware.foldl_sender {t u : Tid} {key : ℕ} {s : Detector} (h : Unaware t u key s)
    (hu : u ≠ t) {l : List BuiltinStep} (hl : .micro .release key ∉ l) :
    Unaware t u key (l.foldl (fun s st ↦ st.run s t) s) :=
  List.foldlRecOn l _ h fun _ hs _ hst ↦ hs.run_sender hu fun heq ↦ hl (heq ▸ hst)

theorem Unaware.foldl_reader {t u : Tid} {key : ℕ} {s : Detector} (h : Unaware t u key s)
    (hu : u ≠ t) {l : List BuiltinStep} (hl : ∀ addr, .micro .acquire addr ∈ l → addr = key) :
    Unaware t u key (l.foldl (fun s st ↦ st.run s u) s) :=
  List.foldlRecOn l _ h fun _ hs _ hst ↦ hs.run_reader hu fun addr heq ↦ hl addr (heq ▸ hst)

/-! ### Two builtins one after the other -/

/-- The steps of a builtin are few. -/
theorem length_steps_le {call : AtomicsCall} (hs : call.array.isShared = true) (tid : Tid) :
    (env.steps tid call).length ≤ 9 := by
  have hruntime (hook : AtomicsHook) :
      (env.callRuntime hook tid call.array call.index).length ≤ 3 := by
    rw [JsEnv.callRuntime_eq hs]
    cases hook <;> simp [AtomicsHook.micros, onAtomicsLoad, onAtomicsStore, onAtomicsRMW]
  unfold JsEnv.steps
  cases call.builtin with
  | load =>
    have hlen := hruntime .load
    simp only [JsEnv.atomicsLoad, List.length_append, List.length_cons, List.length_nil]
    omega
  | store =>
    have hlen := hruntime .store
    simp only [JsEnv.atomicsStore]
    split_ifs <;> simp only [List.length_append, List.length_cons, List.length_nil] <;> omega
  | exchange | compareExchange =>
    have hlen := hruntime .rmw
    simp only [JsEnv.atomicsExchange, JsEnv.atomicsCompareExchange, List.length_append,
      List.length_cons, List.length_nil]
    omega
  | add | sub | and | or | xor => exact Nat.le_of_ble_eq_true rfl

/-- The creation of two threads. -/
def createEvents : List (CallEvent Tid AtomicsCall Op) :=
  [.env (.threadCreate uint32Max), .env (.threadCreate uint32Max)]

theorem execAll_createEvents :
    execAll env.machine.exec (CallState.initial Detector.initial) createEvents =
      some (CallState.initial AtomicRun.twoThreads) := rfl

/-- The two builtins that one thread and then another one run to the end. -/
def handoverCalls (env : JsEnv) (c d : AtomicsCall) : List (CallEvent Tid AtomicsCall Op) :=
  CallRun.wholeCall env.machine 0 c ++ CallRun.wholeCall env.machine 1 d

theorem ne_env_of_mem_handoverCalls {c d : AtomicsCall} {ev : CallEvent Tid AtomicsCall Op}
    (h : ev ∈ handoverCalls env c d) (o : Op) : ev ≠ .env o := by
  rintro rfl
  simp [handoverCalls, CallRun.wholeCall, List.mem_replicate] at h

theorem passes_of_lt {call : AtomicsCall} (h : call.index < call.array.length) (st : BuiltinStep) :
    env.machine.passes call st = true := by
  simp [JsEnv.machine, h]

theorem execAll_handoverCalls {c d : AtomicsCall} (hi : c.index < c.array.length)
    (hj : d.index < d.array.length) : (execAll env.machine.exec
      (CallState.initial Detector.initial)
      (createEvents ++ handoverCalls env c d)).isSome = true := by
  rw [execAll_append, execAll_createEvents, Option.bind_some, handoverCalls, execAll_append,
    CallRun.wholeCall, execAll_whole_call rfl fun st _ ↦ passes_of_lt hi st, Option.bind_some,
    CallRun.wholeCall, execAll_whole_call rfl fun st _ ↦ passes_of_lt hj st]
  rfl

/-- Two threads, one of which runs a builtin to completion before the other one does. -/
theorem exists_handover {c d : AtomicsCall} (hc : c.array.isShared = true)
    (hd : d.array.isShared = true) (hi : c.index < c.array.length)
    (hj : d.index < d.array.length) :
    ∃ (e : JsRun env) (a k b l : ℕ), e.Handover ⟨0, 0, c⟩ ⟨1, 1, d⟩ a k b l ∧
      e.detectorRun.NoWrap ∧ (e.state a).shared = AtomicRun.twoThreads ∧
      (e.state (l + 1)).shared = (env.steps 1 d).foldl (fun s st ↦ st.run s 1)
        ((env.steps 0 c).foldl (fun s st ↦ st.run s 0) AtomicRun.twoThreads) := by
  let e : JsRun env := .ofOps _ (execAll_handoverCalls hi hj)
  have hdrop : e.ops.drop 2 = handoverCalls env c d := rfl
  have hops₁ : CallRun.wholeCall env.machine 0 c <+: e.ops.drop 2 := List.prefix_append _ _
  have hstate₁ : e.state 2 = CallState.initial AtomicRun.twoThreads :=
    e.state_add_length (k := 0) (List.prefix_append _ _) execAll_createEvents
  have hstarts₁ := CallRun.startsAt_of_wholeCall hops₁
  have hends₁ := CallRun.completes_of_wholeCall hops₁ (by rw [hstate₁]; rfl)
    (fun st _ ↦ passes_of_lt hi st) (JsEnv.steps_ne_nil env _ _)
  have hstate₂ := CallRun.state_of_wholeCall hops₁ (by rw [hstate₁]; rfl)
    fun st _ ↦ passes_of_lt hi st
  have hops₂ : CallRun.wholeCall env.machine 1 d <+:
      e.ops.drop (2 + (env.machine.steps 0 c).length + 1) := by
    rw [Nat.add_assoc, ← CallRun.length_wholeCall, ← List.drop_drop, hdrop, handoverCalls,
      List.drop_left]
  have hstarts₂ := CallRun.startsAt_of_wholeCall hops₂
  have hends₂ := CallRun.completes_of_wholeCall hops₂ (by rw [hstate₂, hstate₁]; rfl)
    (fun st _ ↦ passes_of_lt hj st) (JsEnv.steps_ne_nil env _ _)
  have hstate₃ := CallRun.state_of_wholeCall hops₂ (by rw [hstate₂, hstate₁]; rfl)
    fun st _ ↦ passes_of_lt hj st
  rw [hstate₂, hstate₁] at hstarts₂ hends₂ hstate₃
  rw [hstate₁] at hstarts₁ hends₁
  -- after the creation of the threads there are only builtins
  have hquiet {m : ℕ} {ev : CallEvent Tid AtomicsCall Op} (hm : 2 ≤ m) (hev : e.ops[m]? = some ev)
      (o : Op) : ev ≠ .env o := by
    rw [← Nat.add_sub_cancel' hm, ← List.getElem?_drop, hdrop] at hev
    exact ne_env_of_mem_handoverCalls (List.mem_of_getElem? hev) o
  have hsame (t : Tid) {i j : ℕ} (hi : 2 ≤ i) : e.detectorRun.SameOccupant t i j :=
    sameOccupant_of_ops fun m hm _ p hev ↦ hquiet (hi.trans hm) hev _ rfl
  refine ⟨e, 2, _, _, _, ⟨hstarts₁, hends₁, ?_, hstarts₂, hends₂, hsame _ le_rfl, hsame _ ?_, ?_⟩,
    ?_, congrArg CallState.shared hstate₁, ?_⟩
  · exact Nat.lt_succ_self _
  · omega
  · intro m o hm _ ho
    rw [detectorRun_getElem?] at ho
    obtain ⟨ev, hev, rfl⟩ := Option.map_eq_some_iff.mp ho
    rw [(detectorOp_of_ne_env (hquiet hm.le hev)).2.2]
    nofun
  · refine Run.noWrap_of_length _ ?_
    have hlen₁ : (env.steps 0 c).length ≤ 9 := length_steps_le hc 0
    have hlen₂ : (env.steps 1 d).length ≤ 9 := length_steps_le hd 1
    rw [detectorRun_length]
    change (createEvents ++ handoverCalls env c d).length < 2 ^ 64
    simp only [createEvents, handoverCalls, CallRun.wholeCall, JsEnv.machine, List.length_append,
      List.length_cons, List.length_replicate, List.length_nil]
    omega
  · exact congrArg CallState.shared hstate₃

/-- In all runs the builtin `d` learns what the thread of `c` knew at the start of `c`. No clock
component reaches `2 ^ 64`. -/
def HandsOver (env : JsEnv) (c d : AtomicsCall) : Prop :=
  ∀ (e : JsRun env) (i j : ℕ) (t u : Tid) (a k b l : ℕ), e.Handover ⟨i, t, c⟩ ⟨j, u, d⟩ a k b l →
    e.detectorRun.NoWrap → e.detectorRun.HandedOver t u a (l + 1)

/-- If a hook is missing or the keys differ, the second thread may learn nothing. -/
theorem not_handsOver {c d : AtomicsCall} (hc : c.array.isShared = true)
    (hd : d.array.isShared = true) (hi : c.index < c.array.length) (hj : d.index < d.array.length)
    (h : ¬(c.builtin.publishes c.array.kind = true ∧ d.builtin.acquires = true ∧
      env.keyOf c = env.keyOf d)) : ¬HandsOver env c d := by
  intro hall
  obtain ⟨e, a, k, b, l, hover, hw, hstate, hstate'⟩ :=
    @exists_handover env c d hc hd hi hj
  -- an address that `c` does not release, and the only one that `d` may acquire
  obtain ⟨key, hrelease, hacquire⟩ : ∃ key, .micro .release key ∉ env.steps 0 c ∧
      ∀ addr, .micro .acquire addr ∈ env.steps 1 d → addr = key := by
    by_cases hacq : d.builtin.acquires = true
    · refine ⟨env.keyOf d, fun hmem ↦ ?_, fun addr hmem ↦ ?_⟩
      · obtain ⟨hpub, hkey⟩ := (JsEnv.release_mem_steps_iff hc).mp hmem
        exact h ⟨hpub, hacq, hkey.symm⟩
      · exact ((JsEnv.acquire_mem_steps_iff hd).mp hmem).2
    · refine ⟨env.keyOf c + 1, fun hmem ↦ ?_, fun addr hmem ↦ ?_⟩
      · exact Nat.succ_ne_self _ ((JsEnv.release_mem_steps_iff hc).mp hmem).2
      · exact absurd ((JsEnv.acquire_mem_steps_iff hd).mp hmem).1 hacq
  have hunaware : Unaware 0 1 key AtomicRun.twoThreads := ⟨rfl, rfl, rfl⟩
  have hend := (hunaware.foldl_sender (by decide) hrelease).foldl_reader (by decide) hacquire
  have hle := (hall e 0 1 0 1 a k b l hover hw).clock_le 0
  change (e.state a).shared.threadClocks 0 0 ≤ (e.state (l + 1)).shared.threadClocks 1 0 at hle
  rw [hstate, hstate'] at hle
  have hzero : AtomicRun.twoThreads.threadClocks 0 0 ≤ 0 := hle.trans hend.thread.le
  exact absurd hzero (by decide)

/-- What a thread knows at the start of a builtin is handed over to another builtin if and only if
the hook of the first one releases, the hook of the second one acquires, and both use the same
key. -/
theorem handsOver_iff {c d : AtomicsCall} (hc : c.array.isShared = true)
    (hd : d.array.isShared = true) (hi : c.index < c.array.length)
    (hj : d.index < d.array.length) : HandsOver env c d ↔
      c.builtin.publishes c.array.kind = true ∧ d.builtin.acquires = true ∧
        env.keyOf c = env.keyOf d := by
  refine ⟨fun h ↦ ?_, fun ⟨hpub, hacq, hkey⟩ ↦ ?_⟩
  · by_contra hnot
    exact not_handsOver hc hd hi hj hnot h
  · exact fun e i j t u a k b l hover hw ↦ hover.handedOver hw hc hd hpub hacq hkey

end JsRun

/-- A shared array of eight elements. -/
def sharedArray (kind : ElementsKind) : TypedArray where
  kind := kind
  isShared := true
  backingStore := 2 ^ 40
  byteLength := 64
  byteOffset := 0
  length := 8
  end_le := by cases kind <;> decide
  byteLength_le := by decide
  backingStore_add_le := by decide

/-- In every thread all hooks are registered. -/
def activeEnv : JsEnv where
  pointerCompression := true
  callbacks tid := ⟨true, fun _ ↦ true, some tid⟩
  active tid := ⟨rfl, fun _ ↦ rfl, rfl, (tid.isLt.trans (by decide)).ne⟩

/-- A store of an `Int32Array` is handed over to an exchange, and there is a run in which this
happens. -/
theorem store_handsOver_exchange :
    let c : AtomicsCall := ⟨.store, sharedArray .int32, 3⟩
    let d : AtomicsCall := ⟨.exchange, sharedArray .int32, 3⟩
    JsRun.HandsOver activeEnv c d ∧ ∃ (e : JsRun activeEnv) (a k b l : ℕ),
      e.Handover ⟨0, 0, c⟩ ⟨1, 1, d⟩ a k b l ∧ e.detectorRun.NoWrap := by
  refine ⟨(JsRun.handsOver_iff rfl rfl (by decide) (by decide)).mpr ⟨rfl, rfl, rfl⟩, ?_⟩
  obtain ⟨e, a, k, b, l, hover, hw, -⟩ := @JsRun.exists_handover activeEnv
    ⟨.store, sharedArray .int32, 3⟩ ⟨.exchange, sharedArray .int32, 3⟩ rfl rfl (by decide)
    (by decide)
  exact ⟨e, a, k, b, l, hover, hw⟩

/-- The builtins for arithmetic and a store of a `BigInt64Array` do not publish. -/
theorem add_not_handsOver :
    ¬JsRun.HandsOver activeEnv ⟨.add, sharedArray .int32, 3⟩ ⟨.load, sharedArray .int32, 3⟩ ∧
    ¬JsRun.HandsOver activeEnv ⟨.store, sharedArray .bigInt64, 3⟩
      ⟨.load, sharedArray .bigInt64, 3⟩ :=
  ⟨JsRun.not_handsOver rfl rfl (by decide) (by decide) (by decide),
    JsRun.not_handsOver rfl rfl (by decide) (by decide) (by decide)⟩

end WebTSan
