import WebTSan.PublishingWrites

/-!
# What a hook of `Atomics` covers

A builtin of `Atomics` may run code of the user, which may throw or make accesses. If the builtin
throws, it is to have no effect on the clocks. If it completes, its release is to cover all accesses
that the thread has made before the real one. Both depend on the place of the hook among the steps
of the builtin: `AtomicsExchange` and `AtomicsCompareExchange` call it before they convert their
values.

## Main definitions

* `WebTSan.AtomicsBuiltin.hooksFirst`, `WebTSan.AtomicsBuiltin.beforeHook`.
* `WebTSan.JsRun.LeavesNoTrace`, `WebTSan.JsRun.ReleaseCovers`, `WebTSan.JsRun.HookSound`.

## Main results

* `WebTSan.JsRun.leavesNoTrace_iff`: which throwing calls leave no trace.
* `WebTSan.JsRun.releaseCovers_iff`: which completed calls have released all accesses.
* `WebTSan.JsRun.hookSound_iff`: both together, for every call of every run.
-/

namespace WebTSan

namespace AtomicsBuiltin

/-- The builtins that call their hook before they convert their values. -/
def hooksFirst : AtomicsBuiltin → Bool
  | exchange | compareExchange => true
  | _ => false

/-- Whether a builtin takes a step before its hook. A builtin without a hook has nothing behind it
but the access. -/
def beforeHook (builtin : AtomicsBuiltin) : BuiltinStep → Bool
  | .validateIntegerTypedArray | .validateAtomicAccess => true
  | .convertValue | .checkJSTypedArrayIndex => !builtin.hooksFirst
  | .maybeThrowRace | .micro .. => false

end AtomicsBuiltin

namespace JsEnv

variable {call : AtomicsCall}

/-- The steps before the hook, those of the detector in the hook, and those behind. -/
theorem exists_steps_split (env : JsEnv) (tid : Tid) (hs : call.array.isShared = true) :
    ∃ before hook behind,
    env.steps tid call = before ++ hook ++ behind ∧
    (∀ st ∈ before, call.builtin.beforeHook st = true) ∧
    (∀ st ∈ hook, ∃ m addr, st = .micro m addr) ∧
    (∀ st ∈ behind, call.builtin.beforeHook st = false ∧ ∀ addr, st ≠ .micro .release addr) := by
  let key := env.keyOf call
  have hruntime (hook : AtomicsHook) : env.callRuntime hook tid call.array call.index =
      (hook.micros.map fun m ↦ .micro m key) ++ [.maybeThrowRace] := callRuntime_eq hs hook tid
  let last := access call.array call.index
  unfold steps
  cases call.builtin with
  | load =>
    refine ⟨[.validateIntegerTypedArray, .validateAtomicAccess, .checkJSTypedArrayIndex],
      [.micro .acquire key], [.maybeThrowRace, last], ?_, ?_, ?_, ?_⟩
    · simp [atomicsLoad, hruntime, AtomicsHook.micros, onAtomicsLoad, key, last]
    all_goals simp [AtomicsBuiltin.beforeHook, AtomicsBuiltin.hooksFirst, access, last]
  | store =>
    by_cases hk : call.array.kind.isBigInt
    · refine ⟨[.validateIntegerTypedArray, .validateAtomicAccess, .convertValue,
        .checkJSTypedArrayIndex], [], [last], ?_, ?_, ?_, ?_⟩
      · simp [atomicsStore, hk, last]
      all_goals simp [AtomicsBuiltin.beforeHook, AtomicsBuiltin.hooksFirst, access, last]
    · refine ⟨[.validateIntegerTypedArray, .validateAtomicAccess, .convertValue,
        .checkJSTypedArrayIndex], [.micro .release key], [.maybeThrowRace, last], ?_, ?_, ?_, ?_⟩
      · simp [atomicsStore, hk, hruntime, AtomicsHook.micros, onAtomicsStore, key, last]
      all_goals simp [AtomicsBuiltin.beforeHook, AtomicsBuiltin.hooksFirst, access, last]
  | exchange =>
    refine ⟨[.validateIntegerTypedArray, .validateAtomicAccess],
      [.micro .acquire key, .micro .release key],
      [.maybeThrowRace, .convertValue, .checkJSTypedArrayIndex, last], ?_, ?_, ?_, ?_⟩
    · simp [atomicsExchange, hruntime, AtomicsHook.micros, onAtomicsRMW, key, last]
    all_goals simp [AtomicsBuiltin.beforeHook, AtomicsBuiltin.hooksFirst, access, last]
  | compareExchange =>
    refine ⟨[.validateIntegerTypedArray, .validateAtomicAccess],
      [.micro .acquire key, .micro .release key],
      [.maybeThrowRace, .convertValue, .convertValue, .checkJSTypedArrayIndex, last],
      ?_, ?_, ?_, ?_⟩
    · simp [atomicsCompareExchange, hruntime, AtomicsHook.micros, onAtomicsRMW, key, last]
    all_goals simp [AtomicsBuiltin.beforeHook, AtomicsBuiltin.hooksFirst, access, last]
  | add | sub | and | or | xor =>
    refine ⟨[.validateIntegerTypedArray, .validateAtomicAccess, .convertValue,
      .checkJSTypedArrayIndex], [], [last], ?_, ?_, ?_, ?_⟩
    · simp [atomicBinopBuiltinCommon, last]
    all_goals simp [AtomicsBuiltin.beforeHook, AtomicsBuiltin.hooksFirst, access, last]

/-- A builtin with its hook first has a hook that releases. -/
theorem publishes_of_hooksFirst {builtin : AtomicsBuiltin} (h : builtin.hooksFirst = true)
    (kind : ElementsKind) : builtin.publishes kind = true := by
  cases builtin <;> first | rfl | cases h

end JsEnv

namespace JsRun

variable {env : JsEnv} (e : JsRun env) (c : Invocation Tid AtomicsCall)

/-- A plain access of a thread. -/
def AccessesAt (tid : Tid) (x : ℕ) : Prop :=
  ∃ bs len off size w, e.detectorRun.ops[x]? = some (.memoryAccess bs len off size tid w)

/-- The steps that `c` has taken before position `k` have changed no clock of a thread or of an
address. -/
def LeavesNoTrace (k : ℕ) : Prop :=
  ∀ st, ∀ j < k, e.Performs c st j →
    (e.state (j + 1)).shared.threadClocks = (e.state j).shared.threadClocks ∧
    (e.state (j + 1)).shared.syncClocks = (e.state j).shared.syncClocks

/-- The call `c`, which completes at position `k`, releases, and the clock that it releases covers
all accesses that its thread has made before. -/
structure ReleaseCovers (k : ℕ) : Prop where
  performs : ∃ i addr, e.Performs c (.micro .release addr) i
  covers {i addr x : ℕ} (hi : e.Performs c (.micro .release addr) i) (hxk : x < k)
    (hx : e.AccessesAt c.tid x) (hsame : e.detectorRun.SameOccupant c.tid x k) :
    (e.state x).shared.threadClocks c.tid c.tid ≤ (e.state i).shared.threadClocks c.tid c.tid

/-- If the call `c` throws, it leaves no trace. If it writes and completes, and its thread keeps its
slot during the call, its release covers all accesses before it. -/
structure HookSound : Prop where
  noTrace {st : BuiltinStep} {todo : List BuiltinStep} {k : ℕ} (h : e.ThrowsAt c st todo k) :
    e.LeavesNoTrace c k
  covers {a k : ℕ} (ha : e.StartsAt c a) (hk : e.Completes c k)
    (hsame : e.detectorRun.SameOccupant c.tid a k) (hw : c.kind.builtin.writes = true) :
    e.ReleaseCovers c k

variable {e c}

/-- The state of the detector after a step of a call. -/
theorem shared_succ_of_performs {st : BuiltinStep} {j : ℕ} (h : e.Performs c st j) :
    (e.state (j + 1)).shared = st.run (e.state j).shared c.tid := by
  obtain ⟨todo, h⟩ := h
  obtain ⟨rest, -, hs⟩ := h.state_succ
  rw [hs]
  rfl

/-- A release ticks, even if its counter wraps around. -/
theorem threadClocks_ne_of_release {addr j : ℕ} (h : e.Performs c (.micro .release addr) j) :
    (e.state (j + 1)).shared.threadClocks ≠ (e.state j).shared.threadClocks := by
  intro heq
  have hj : j ≤ e.ops.length := (List.getElem?_eq_some_iff.mp h.choose_spec.1).1.le
  have he : (e.state j).shared.enabled = true := e.detectorRun.enabled (detectorRun_length ▸ hj)
  rw [shared_succ_of_performs h] at heq
  have hown := congrFun (congrFun heq c.tid) c.tid
  simp only [BuiltinStep.run, Detector.release, he, Bool.not_true, Bool.false_eq_true, if_false,
    Detector.publishSync, Function.update_self, VClock.increment_self, bump] at hown
  omega

/-- A call that throws leaves no trace if and only if it throws before its hook. -/
theorem leavesNoTrace_iff (hs : c.kind.array.isShared = true) {st : BuiltinStep}
    {todo : List BuiltinStep} {k : ℕ} (h : e.ThrowsAt c st todo k) :
    e.LeavesNoTrace c k ↔ c.kind.builtin.beforeHook st = true := by
  obtain ⟨before, hook, behind, hsteps, hbefore, hhook, hbehind⟩ :=
    JsEnv.exists_steps_split env c.tid hs
  have hthrows : BuiltinStep.throws st = true := h.throws
  have hmem := h.mem
  have hk : k ≤ e.ops.length := (List.getElem?_eq_some_iff.mp h.1).1.le
  have hnot : st ∉ hook := by
    intro hst
    obtain ⟨m, addr, rfl⟩ := hhook st hst
    cases hthrows
  constructor
  · intro hnone
    by_contra hst
    -- the hook comes before the step that throws, and it releases
    have hfirst : c.kind.builtin.hooksFirst = true := by
      cases st <;> simp_all [AtomicsBuiltin.beforeHook, BuiltinStep.throws]
    have hrelease : .micro .release (env.keyOf c.kind) ∈ env.steps c.tid c.kind :=
      (JsEnv.release_mem_steps_iff hs).mpr ⟨JsEnv.publishes_of_hooksFirst hfirst _, rfl⟩
    have hbody : .micro .release (env.keyOf c.kind) ∈ before ++ hook := by
      rw [hsteps] at hrelease
      exact (List.mem_append.mp hrelease).resolve_right fun hmem ↦ (hbehind _ hmem).2 _ rfl
    obtain ⟨a, i, -, -, hik, hi⟩ := CallRun.performs_of_mem hk hmem hsteps
      (fun hmem ↦ (List.mem_append.mp hmem).elim (fun hmem ↦ hst (hbefore st hmem)) hnot) hbody
    exact threadClocks_ne_of_release hi (hnone _ i hik hi).1
  · intro hst st' j hjk hj
    have hbody : st' ∈ before := by
      refine hj.mem_body hjk hk hmem (hsteps.trans (List.append_assoc ..)) fun hmem ↦ ?_
      rcases List.mem_append.mp hmem with hmem | hmem
      · exact hnot hmem
      · exact absurd hst (by rw [(hbehind st hmem).1]; decide)
    rw [shared_succ_of_performs hj]
    cases st' with
    | micro m addr => cases hbefore _ hbody
    | _ => exact ⟨rfl, rfl⟩

/-- The release of a completed call covers all accesses if and only if there is one, and no access
is made by code that the call lets in behind its hook. -/
theorem releaseCovers_iff (hs : c.kind.array.isShared = true) (hw : e.detectorRun.NoWrap) {a k : ℕ}
    (ha : e.StartsAt c a) (hk : e.Completes c k) (hsame : e.detectorRun.SameOccupant c.tid a k) :
    e.ReleaseCovers c k ↔ c.kind.builtin.publishes c.kind.array.kind = true ∧
      ∀ x < k, e.AccessesAt c.tid x → ∀ st todo, (c, st :: todo) ∈ (e.state x).frames c.tid →
        c.kind.builtin.beforeHook st = true := by
  obtain ⟨before, hook, behind, hsteps, hbefore, hhook, hbehind⟩ :=
    JsEnv.exists_steps_split env c.tid hs
  have hlen : k ≤ e.ops.length := hk.choose_spec.lt_length.le
  have hrelease {i addr : ℕ} (hi : e.Performs c (.micro .release addr) i) :
      e.detectorRun.ReleasesAt i c.tid addr := ⟨_, detectorRun_of_performs hi rfl, rfl⟩
  constructor
  · rintro ⟨⟨i₀, addr, hi₀⟩, hcovers⟩
    obtain ⟨hpub, -⟩ := (JsEnv.release_mem_steps_iff hs).mp hi₀.mem_steps
    refine ⟨hpub, fun x hxk hx st todo hmem ↦ ?_⟩
    by_contra hst
    have hxlen : x ≤ e.ops.length := hxk.le.trans hlen
    -- code of the user runs at `x`, so the step is none of the hook
    have hnot : st ∉ before ++ hook := by
      obtain ⟨bs, len, off, size, w, ho⟩ := hx
      obtain ⟨st', todo', heq, hreenters⟩ :=
        (CallRun.waiting e hxlen).of_isOpen (isOpen_of_memoryAccess ho) hmem
      obtain ⟨rfl, rfl⟩ := List.cons.inj heq
      intro hmem
      rcases List.mem_append.mp hmem with hmem | hmem
      · exact hst (hbefore st hmem)
      · obtain ⟨m, addr, rfl⟩ := hhook st hmem
        cases hreenters
    have hbody : .micro .release addr ∈ before ++ hook := by
      have hin : .micro .release addr ∈ env.steps c.tid c.kind := hi₀.mem_steps
      rw [hsteps] at hin
      exact (List.mem_append.mp hin).resolve_right fun hmem ↦ (hbehind _ hmem).2 _ rfl
    obtain ⟨a', i, hstart, hai, hix, hi⟩ := CallRun.performs_of_mem hxlen hmem hsteps hnot hbody
    obtain rfl := ha.unique hstart
    have hlt := (hrelease hi).lt hw
    have hsame' : e.detectorRun.SameOccupant c.tid (i + 1) x := hsame.mono (by omega) hxk.le
    have hle := hsame'.clock_le hw hix (by rwa [detectorRun_length])
    exact absurd (hcovers hi hxk hx (hsame.mono (by omega) le_rfl)) (by
      change ¬(e.detectorRun.state x).threadClocks c.tid c.tid ≤
        (e.detectorRun.state i).threadClocks c.tid c.tid
      omega)
  · rintro ⟨hpub, hquiet⟩
    constructor
    · obtain ⟨i, -, -, hi⟩ := hk.performs ha ((JsEnv.release_mem_steps_iff hs).mpr ⟨hpub, rfl⟩)
      exact ⟨i, _, hi⟩
    · intro i addr x hi hxk hx hsame'
      have hik := hk.performs_le hi
      rcases le_or_gt x i with hxi | hix
      · exact (hsame'.mono le_rfl hik).clock_le hw hxi (by rw [detectorRun_length]; omega)
      · -- the step of the call at `x` comes behind its hook
        obtain ⟨st, todo, hmem⟩ := hk.mem_frames ha ((hi.lt ha).trans hix) hxk.le
        have hst := hquiet x hxk hx st todo hmem
        have hbody : .micro .release addr ∈ before := by
          refine hi.mem_body hix (hxk.le.trans hlen) hmem
            (hsteps.trans (List.append_assoc ..)) fun hmem ↦ ?_
          rcases List.mem_append.mp hmem with hmem | hmem
          · obtain ⟨m, addr, rfl⟩ := hhook st hmem
            cases hst
          · exact absurd hst (by rw [(hbehind st hmem).1]; decide)
        cases hbefore _ hbody

/-- A call is sound if and only if it throws only before its hook, and, if it writes and completes,
it has a hook that releases and code that it lets in behind the hook makes no access. -/
theorem hookSound_iff (hs : c.kind.array.isShared = true) (hw : e.detectorRun.NoWrap) :
    e.HookSound c ↔
      (∀ st todo k, e.ThrowsAt c st todo k → c.kind.builtin.beforeHook st = true) ∧
      ∀ a k, e.StartsAt c a → e.Completes c k → e.detectorRun.SameOccupant c.tid a k →
        c.kind.builtin.writes = true → c.kind.builtin.publishes c.kind.array.kind = true ∧
          ∀ x < k, e.AccessesAt c.tid x → ∀ st todo, (c, st :: todo) ∈ (e.state x).frames c.tid →
            c.kind.builtin.beforeHook st = true := by
  constructor
  · intro h
    refine ⟨fun st todo k hk ↦ (leavesNoTrace_iff hs hk).mp (h.noTrace hk), ?_⟩
    intro a k ha hk hsame hwrites
    exact (releaseCovers_iff hs hw ha hk hsame).mp (h.covers ha hk hsame hwrites)
  · rintro ⟨hthrows, hcompletes⟩
    refine ⟨fun hk ↦ (leavesNoTrace_iff hs hk).mpr (hthrows _ _ _ hk), ?_⟩
    intro a k ha hk hsame hwrites
    exact (releaseCovers_iff hs hw ha hk hsame).mpr (hcompletes a k ha hk hsame hwrites)

end JsRun

/-! ### Values that are objects -/

/-- A call of thread 0. -/
def callOf (builtin : AtomicsBuiltin) : Invocation Tid AtomicsCall :=
  ⟨0, 0, ⟨builtin, sharedArray .int32, 3⟩⟩

/-- Thread 0 runs a store, and the conversion of the value writes a byte. -/
def writingStore : JsRun activeEnv :=
  .ofOps [.env (.threadCreate uint32Max), .call 0 (callOf .store).kind, .step 0, .step 0,
    .env (.memoryAccess (2 ^ 40) 64 40 1 0 true), .step 0, .step 0, .step 0, .step 0, .step 0]
    (by rfl)

/-- The store is sound: the byte is written before the hook. -/
theorem writingStore_hookSound : writingStore.HookSound (callOf .store) ∧
    writingStore.StartsAt (callOf .store) 1 ∧ writingStore.Completes (callOf .store) 9 := by
  refine ⟨(JsRun.hookSound_iff rfl (Run.noWrap_of_length _ ?_)).mpr ⟨?_, ?_⟩, ⟨rfl, rfl⟩,
    ⟨_, rfl, [], rfl⟩⟩
  · exact (by decide : 10 < 2 ^ 64)
  · intro st todo k h
    have hthrow := List.mem_of_getElem? h.1
    simp [writingStore, Execution.ofOps] at hthrow
  · intro a k _ _ _ _
    refine ⟨rfl, fun x _ hx st todo hmem ↦ ?_⟩
    obtain ⟨bs, len, off, size, w, ho⟩ := hx
    have hev := JsRun.ops_of_memoryAccess ho
    obtain rfl : x = 4 := by
      have hlen : x < 10 := (List.getElem?_eq_some_iff.mp hev).1
      interval_cases x <;> first | rfl | cases hev
    have hframes : (writingStore.state 4).frames 0 = [(callOf .store, [.convertValue,
        .checkJSTypedArrayIndex, .micro .release (activeEnv.keyOf (callOf .store).kind),
        .maybeThrowRace, JsEnv.access (sharedArray .int32) 3])] := rfl
    rw [show (callOf .store).tid = 0 from rfl, hframes, List.mem_singleton] at hmem
    obtain ⟨rfl, -⟩ := List.cons.inj (Prod.mk.inj hmem).2
    rfl

/-- Thread 0 starts an exchange, whose hook runs; then the conversion of the value throws. -/
def throwingExchange : JsRun activeEnv :=
  .ofOps [.env (.threadCreate uint32Max), .call 0 (callOf .exchange).kind, .step 0, .step 0,
    .step 0, .step 0, .step 0, .throw 0] (by rfl)

/-- Thread 0 runs an exchange, and the conversion of the value writes a byte. -/
def writingExchange : JsRun activeEnv :=
  .ofOps [.env (.threadCreate uint32Max), .call 0 (callOf .exchange).kind, .step 0, .step 0,
    .step 0, .step 0, .step 0, .env (.memoryAccess (2 ^ 40) 64 40 1 0 true), .step 0, .step 0,
    .step 0]
    (by rfl)

/-- The exchange that throws has changed the clocks, and the one that completes has not released the
byte that its thread has written before. -/
theorem exchange_not_hookSound : ¬throwingExchange.HookSound (callOf .exchange) ∧
    ¬writingExchange.HookSound (callOf .exchange) := by
  constructor
  · intro h
    have hthrows : throwingExchange.ThrowsAt (callOf .exchange) .convertValue
        [.checkJSTypedArrayIndex, JsEnv.access (sharedArray .int32) 3] 7 := ⟨rfl, [], rfl⟩
    have hbefore := (JsRun.leavesNoTrace_iff rfl hthrows).mp (h.noTrace hthrows)
    cases hbefore
  · intro h
    have hstart : writingExchange.StartsAt (callOf .exchange) 1 := ⟨rfl, rfl⟩
    have hend : writingExchange.Completes (callOf .exchange) 10 := ⟨_, rfl, [], rfl⟩
    have hsame : writingExchange.detectorRun.SameOccupant (callOf .exchange).tid 1 10 := by
      refine JsRun.sameOccupant_of_ops fun m hm hmj p hev ↦ ?_
      interval_cases m <;> cases hev
    have hw : writingExchange.detectorRun.NoWrap :=
      Run.noWrap_of_length _ (by decide : 11 < 2 ^ 64)
    have hquiet := ((JsRun.releaseCovers_iff rfl hw hstart hend hsame).mp
      (h.covers hstart hend hsame rfl)).2
    have haccess : writingExchange.AccessesAt 0 7 := ⟨_, _, _, _, _, rfl⟩
    have hmem : (callOf .exchange, [.convertValue, .checkJSTypedArrayIndex,
        JsEnv.access (sharedArray .int32) 3]) ∈ (writingExchange.state 7).frames 0 :=
      List.mem_singleton.mpr rfl
    cases hquiet 7 (by decide) haccess _ _ hmem

end WebTSan
