import WebTSan.Access
import WebTSan.Allocator
import WebTSan.Clocks

/-!
# The two paths of an atomic store

An atomic store of JavaScript calls `OnAtomicsStore`, which releases the location. The dispatch of
`Runtime_WasmTraceMemory` does not tell a store from a read-modify-write operation and calls
`OnAtomicsRMW`, which acquires the location before it releases it. The two paths agree exactly if
the clock of the thread already dominates the one of the location. Nothing makes it so: of two
threads that only store to a location, the second one acquires on the Wasm path what the first one
released, and a race of theirs that the path of JavaScript reports is lost.

## Main definitions

* `WebTSan.Detector.onAtomicsStore`, `WebTSan.Detector.onAtomicsRMW`.
* `WebTSan.StorePath`, `WebTSan.Detector.atomicStore`: an atomic store on one of the paths.
* `WebTSan.Detector.Dominates`: the condition under which the paths agree.
* `WebTSan.StoreCall`: what a page does, with its atomic stores on one path.

## Main results

* `WebTSan.Session.bounded`: every counter is a 64-bit number.
* `WebTSan.Detector.atomicStore_eq_iff`, `WebTSan.Detector.storeAll_threadClocks`.
* `WebTSan.Session.atomicStore_paths`.
-/

namespace WebTSan

/-! ### Counters are 64-bit numbers -/

theorem bump_lt (v : ℕ) : bump v < 2 ^ 64 := Nat.mod_lt _ (by decide)

theorem bump_injOn {v w : ℕ} (hv : v < 2 ^ 64) (hw : w < 2 ^ 64) (h : bump v = bump w) :
    v = w := by
  simp only [bump] at h
  omega

/-- Two clocks that agree after a tick agree before it. -/
theorem VClock.increment_sup_eq_iff {clk other : VClock} {t : Tid} (hclk : clk t < 2 ^ 64)
    (hother : other t < 2 ^ 64) :
    (clk ⊔ other).increment t = clk.increment t ↔ other ≤ clk := by
  refine ⟨fun h i ↦ ?_, fun h ↦ by rw [sup_eq_left.mpr h]⟩
  have hi := congrFun h i
  by_cases hit : i = t
  · subst hit
    rw [increment_self, increment_self] at hi
    exact sup_eq_left.mp (bump_injOn (max_lt hclk hother) hclk hi)
  · rw [increment_of_ne _ hit, increment_of_ne _ hit] at hi
    exact sup_eq_left.mp hi

/-- Every counter is below `2 ^ 64`. -/
def Detector.Bounded (s : Detector) : Prop := ∀ p t, s.clockOf p t < 2 ^ 64

namespace Detector.Bounded

variable {s s' : Detector} (h : s.Bounded)
include h

theorem joined_lt (places : Finset Place) (t : Tid) : s.joined places t < 2 ^ 64 :=
  (Finset.sup_lt_iff (by decide)).mpr fun q _ ↦ h q t

theorem of_clockOf_eq (heq : ∀ p, s'.clockOf p = s.clockOf p) : s'.Bounded :=
  fun p t ↦ heq p ▸ h p t

/-- A disabled detector keeps its clocks, unless a thread is created. -/
theorem of_disabled {o : Op} (he : ¬s.enabled = true) (ho : o.exec s = some s') : s'.Bounded := by
  cases o with
  | threadCreate p =>
    obtain ⟨⟨t, s''⟩, hc, rfl⟩ := Option.map_eq_some_iff.mp ho
    obtain ⟨-, rfl⟩ := threadCreate_eq_some_iff.mp hc
    intro q u
    rw [clockOf_occupy]
    split_ifs
    · by_cases hu : u = t
      · subst hu
        rw [VClock.increment_self]
        exact bump_lt _
      · rw [VClock.increment_of_ne _ hu, ← s.joined_threadCreate]
        exact h.joined_lt _ u
    · exact h q u
  | threadDestroy t =>
    obtain rfl := Option.some.inj ho
    exact h.of_clockOf_eq fun q ↦ by cases q <;> simp [threadDestroy, he, clockOf]
  | clearShadow bs off size =>
    obtain ⟨shadows, rfl⟩ := clearShadow_eq ho
    exact h.of_clockOf_eq fun q ↦ by cases q <;> rfl
  | _ =>
    have hs : s' = s := by
      simpa [Op.exec, he, threadFinish, threadJoin, threadDetach, threadAbsorb, acquire, release,
        mutexCreate, mutexDestroy, mutexPreLock, mutexPostLock, mutexUnlock, mutexReadLock,
        mutexReadUnlock, happensBefore, happensAfter, removeShadow, memoryAccess,
        eq_comm] using ho
    rwa [hs]

theorem op {o : Op} (ho : o.exec s = some s') : s'.Bounded := by
  by_cases he : s.enabled = true
  · intro q u
    rw [exec_clockOf he ho, nextClock]
    cases s.ticks o with
    | none => exact h.joined_lt _ u
    | some tv =>
      dsimp only
      split_ifs
      · by_cases hu : u = tv.1
        · subst hu
          rw [VClock.increment_self]
          exact bump_lt _
        · rw [VClock.increment_of_ne _ hu]
          exact h.joined_lt _ u
      · exact h.joined_lt _ u
  · exact h.of_disabled he ho

theorem call {c : Call} (hc : c.exec s = some s') : s'.Bounded := by
  cases c with
  | op o => exact h.op hc
  | reset =>
    obtain rfl := Option.some.inj hc
    exact fun q u ↦ by cases q <;> exact Nat.two_pow_pos 64
  | enable | disable | incrementSuppressedCount =>
    obtain rfl := Option.some.inj hc
    exact h.of_clockOf_eq fun q ↦ by cases q <;> rfl

end Detector.Bounded

theorem Session.bounded (S : Session) {k : ℕ} (hk : k ≤ S.ops.length) : (S.state k).Bounded :=
  S.invariant_of_step (P := Detector.Bounded)
    (fun q _ ↦ by cases q <;> exact Nat.two_pow_pos 64) (fun hc h ↦ h.call (S.step hc)) hk

/-! ### The hooks and their callers -/

/-- The language of an atomic store. -/
inductive StorePath
  | js
  | wasm
deriving DecidableEq

namespace Detector

def onAtomicsLoad (s : Detector) (tid : Tid) (location : ℕ) : Detector :=
  if s.enabled then s.acquire tid location else s

def onAtomicsStore (s : Detector) (tid : Tid) (location : ℕ) : Detector :=
  if s.enabled then s.release tid location else s

def onAtomicsRMW (s : Detector) (tid : Tid) (location : ℕ) : Detector :=
  if s.enabled then (s.acquire tid location).release tid location else s

/-- The dispatch of `Runtime_WasmTraceMemory` for an atomic operation of the current thread. -/
def wasmTraceAtomic (s : Detector) (isStore : Bool) (location : ℕ) : (tid : Option Tid) → Detector
  | none => s
  | some tid => if !isStore then s.onAtomicsLoad tid location else s.onAtomicsRMW tid location

/-- `Runtime_WebTSanAtomicsStore`. -/
def webTSanAtomicsStore (s : Detector) (location : ℕ) : (tid : Option Tid) → Detector
  | none => s
  | some tid => s.onAtomicsStore tid location

/-- An atomic store on one of the paths. -/
def atomicStore (s : Detector) (path : StorePath) (tid : Option Tid) (location : ℕ) : Detector :=
  match path with
  | .js => s.webTSanAtomicsStore location tid
  | .wasm => s.wasmTraceAtomic true location tid

/-- Atomic stores of threads to locations, one after the other. -/
def storeAll (s : Detector) (path : StorePath) (stores : List (Tid × ℕ)) : Detector :=
  stores.foldl (fun s st ↦ s.atomicStore path (some st.1) st.2) s

/-- The detector is off, or the thread knows the clock of the location. -/
def Dominates (s : Detector) (tid : Tid) (location : ℕ) : Prop :=
  s.enabled = false ∨ s.clockOf (.sync location) ≤ s.threadClocks tid

section AtomicStore

variable {s : Detector} {t : Tid} {a : ℕ}

/-- Acquiring what the thread knows changes nothing. -/
theorem acquire_eq_self (h : s.clockOf (.sync a) ≤ s.threadClocks t) : s.acquire t a = s := by
  rw [acquire, joinSync]
  cases hs : s.syncClocks a with
  | none => exact ite_self s
  | some clk =>
    have hclk : clk ≤ s.threadClocks t := by simpa [clockOf, hs] using h
    simp only [VClock.join_eq_sup, sup_eq_left.mpr hclk, Function.update_eq_self, ite_self]

/-- A store of a thread that knows the clock of the location is the same on both paths. -/
theorem Dominates.atomicStore_eq (h : s.Dominates t a) :
    s.atomicStore .wasm (some t) a = s.atomicStore .js (some t) a := by
  simp only [atomicStore, wasmTraceAtomic, webTSanAtomicsStore, onAtomicsRMW, onAtomicsStore,
    Bool.not_true, Bool.false_eq_true, ↓reduceIte]
  rcases h with he | hle
  · simp [he]
  · rw [acquire_eq_self hle]

theorem enabled_atomicStore (s : Detector) (path : StorePath) (tid : Option Tid) (a : ℕ) :
    (s.atomicStore path tid a).enabled = s.enabled := by
  have hrelease (s : Detector) (t : Tid) : (s.release t a).enabled = s.enabled :=
    Op.exec_enabled (o := .release t a) rfl
  have hacquire (s : Detector) (t : Tid) : (s.acquire t a).enabled = s.enabled :=
    Op.exec_enabled (o := .acquire t a) rfl
  cases tid with
  | none => cases path <;> rfl
  | some t =>
    cases path <;> simp only [atomicStore, webTSanAtomicsStore, wasmTraceAtomic, onAtomicsStore,
      onAtomicsRMW, Bool.not_true, Bool.false_eq_true, ↓reduceIte] <;> split_ifs <;>
      simp only [hrelease, hacquire]

section Enabled

variable (he : s.enabled = true)
include he

theorem clockOf_atomicStore_js (t : Tid) (a : ℕ) (p : Place) :
    (s.atomicStore .js (some t) a).clockOf p =
      if p = .thread t then (s.clockOf p).increment t
      else if p = .sync a then s.clockOf p ⊔ s.clockOf (.thread t) else s.clockOf p := by
  simp only [atomicStore, webTSanAtomicsStore, onAtomicsStore, he, ↓reduceIte, clockOf_release he]

theorem clockOf_atomicStore_wasm (t : Tid) (a : ℕ) (p : Place) :
    (s.atomicStore .wasm (some t) a).clockOf p =
      if p = .thread t then (s.clockOf p ⊔ s.clockOf (.sync a)).increment t
      else if p = .sync a then s.clockOf p ⊔ s.clockOf (.thread t) else s.clockOf p := by
  have he' : (s.acquire t a).enabled = true := (Op.exec_enabled (o := .acquire t a) rfl).trans he
  simp only [atomicStore, wasmTraceAtomic, onAtomicsRMW, he, Bool.not_true, Bool.false_eq_true,
    ↓reduceIte, clockOf_release he', clockOf_acquire he]
  by_cases ht : p = .thread t
  · simp [ht]
  · by_cases ha : p = .sync a
    · subst ha
      simp [sup_comm]
    · simp [ht, ha]

end Enabled

/-- The two paths leave the same clocks exactly if the thread knows the clock of the location. -/
theorem atomicStore_eq_iff (hb : s.Bounded) :
    (s.atomicStore .wasm (some t) a).threadClocks t =
        (s.atomicStore .js (some t) a).threadClocks t ∧
      (s.atomicStore .wasm (some t) a).syncClocks a =
        (s.atomicStore .js (some t) a).syncClocks a ↔ s.Dominates t a := by
  refine ⟨fun ⟨h, _⟩ ↦ ?_, fun h ↦ by rw [h.atomicStore_eq]; exact ⟨rfl, rfl⟩⟩
  cases he : s.enabled with
  | false => exact .inl he
  | true =>
    rw [← clockOf_thread, ← clockOf_thread, clockOf_atomicStore_wasm he, clockOf_atomicStore_js he,
      if_pos rfl, if_pos rfl] at h
    exact .inr ((VClock.increment_sup_eq_iff (hb _ t) (hb _ t)).mp h)

/-! ### Threads that only store -/

/-- On the path of JavaScript, no thread learns anything about another one. -/
theorem storeAll_threadClocks (he : s.enabled = true) {u : Tid} (hut : u ≠ t)
    (stores : List (Tid × ℕ)) :
    (s.storeAll .js stores).threadClocks u t = s.threadClocks u t := by
  induction stores generalizing s with
  | nil => rfl
  | cons st stores ih =>
    rw [storeAll, List.foldl_cons, ← storeAll, ih ((enabled_atomicStore ..).trans he),
      ← clockOf_thread, clockOf_atomicStore_js he]
    by_cases hu : u = st.1
    · subst hu
      rw [if_pos rfl, VClock.increment_of_ne _ hut.symm, clockOf_thread]
    · simp [hu]

/-- On the path of Wasm, what is known of another thread is not forgotten. -/
theorem le_storeAll (he : s.enabled = true) {p : Place} (hp : p ≠ .thread t)
    (stores : List (Tid × ℕ)) : s.clockOf p t ≤ (s.storeAll .wasm stores).clockOf p t := by
  induction stores generalizing s with
  | nil => exact le_rfl
  | cons st stores ih =>
    refine le_trans ?_ (ih ((enabled_atomicStore ..).trans he))
    rw [clockOf_atomicStore_wasm he]
    split_ifs with hst hsync
    · have hne : t ≠ st.1 := fun ht ↦ hp (ht ▸ hst)
      rw [VClock.increment_of_ne _ hne]
      exact le_sup_left
    · exact le_sup_left
    · exact le_rfl

theorem storeAll_append (s : Detector) (path : StorePath) (stores stores' : List (Tid × ℕ)) :
    s.storeAll path (stores ++ stores') = (s.storeAll path stores).storeAll path stores' :=
  List.foldl_append ..

theorem enabled_storeAll (he : s.enabled = true) (path : StorePath) (stores : List (Tid × ℕ)) :
    (s.storeAll path stores).enabled = true := by
  induction stores generalizing s with
  | nil => exact he
  | cons st stores ih => exact ih ((enabled_atomicStore ..).trans he)

/-- On the path of Wasm, a thread that stores to a location learns what an earlier store to it was
made with. -/
theorem le_storeAll_of_stores (he : s.enabled = true) {u : Tid} (hut : u ≠ t)
    (stores stores' : List (Tid × ℕ)) : s.threadClocks t t ≤
      (s.storeAll .wasm ((t, a) :: stores ++ (u, a) :: stores')).threadClocks u t := by
  have he₁ := (enabled_atomicStore s .wasm (some t) a).trans he
  have he₂ := enabled_storeAll he₁ .wasm stores
  have he₃ := (enabled_atomicStore _ .wasm (some u) a).trans he₂
  have hreleased : s.threadClocks t t ≤
      (s.atomicStore .wasm (some t) a).clockOf (.sync a) t := by
    rw [clockOf_atomicStore_wasm he, if_neg (by simp), if_pos rfl]
    exact le_sup_right
  have hacquired {s : Detector} (he : s.enabled = true) : s.clockOf (.sync a) t ≤
      (s.atomicStore .wasm (some u) a).clockOf (.thread u) t := by
    rw [clockOf_atomicStore_wasm he, if_pos rfl, VClock.increment_of_ne _ hut.symm]
    exact le_sup_right
  rw [storeAll_append]
  calc s.threadClocks t t
      ≤ (s.atomicStore .wasm (some t) a).clockOf (.sync a) t := hreleased
    _ ≤ (s.storeAll .wasm ((t, a) :: stores)).clockOf (.sync a) t :=
        le_storeAll he₁ (by simp) stores
    _ ≤ ((s.storeAll .wasm ((t, a) :: stores)).atomicStore .wasm (some u) a).clockOf
        (.thread u) t := hacquired he₂
    _ ≤ ((s.storeAll .wasm ((t, a) :: stores)).storeAll .wasm ((u, a) :: stores')).threadClocks
        u t := le_storeAll he₃ (by simpa using hut) stores'

end AtomicStore

end Detector

/-! ### Pages -/

/-- What a page does: it calls the detector, or performs an atomic store. -/
inductive StoreCall
  | call (c : Call)
  | store (tid : Option Tid) (location : ℕ)

/-- The state after a step of a page whose stores take the given path. -/
def StoreCall.exec (path : StorePath) (s : Detector) : StoreCall → Option Detector
  | .call c => c.exec s
  | .store tid location => some (s.atomicStore path tid location)

namespace Session

/-- Thread 0 writes a byte, and threads 0 and 1 store to one location, which nobody loads. -/
def storesOnly : List StoreCall :=
  [.call .enable, .call (.op (.threadCreate uint32Max)), .call (.op (.threadCreate uint32Max)),
    .call (.op (.memoryAccess 4096 8 0 1 0 true)), .store (some 0) 64, .store (some 1) 64]

/-- With stores of JavaScript thread 1 races when it reads the byte, and with stores of Wasm it does
not. -/
theorem storesOnly_paths_differ :
    (∃ s, execAll (StoreCall.exec .js) Detector.initial.disable storesOnly = some s ∧
      s.threadClocks 1 0 = 0 ∧
      (Op.found s (.memoryAccess 4096 8 0 1 1 false)).isSome = true) ∧
    ∃ s, execAll (StoreCall.exec .wasm) Detector.initial.disable storesOnly = some s ∧
      s.threadClocks 1 0 = 1 ∧ Op.found s (.memoryAccess 4096 8 0 1 1 false) = none :=
  ⟨⟨_, rfl, by decide, by decide⟩, ⟨_, rfl, by decide, by decide⟩⟩

/-- The two paths of an atomic store. In every reachable state they leave the same clocks exactly if
the detector is off or the thread knows the clock of the location. Two pages that do the same, one
on each path, are in the same state as long as this holds at every store. If thread `t` accesses a
byte and stores to a location, and thread `u` stores to it later, then a later access of `u` is
never found to race with the one of `t` on the path of Wasm; on the path of JavaScript it is,
whenever `u` did not know the epoch of `t` from the beginning. -/
theorem atomicStore_paths (S : Session) {k : ℕ} (hk : k ≤ S.ops.length) :
    (∀ t a, ((S.state k).atomicStore .wasm (some t) a).threadClocks t =
          ((S.state k).atomicStore .js (some t) a).threadClocks t ∧
        ((S.state k).atomicStore .wasm (some t) a).syncClocks a =
          ((S.state k).atomicStore .js (some t) a).syncClocks a ↔
      (S.state k).Dominates t a) ∧
    (∀ e : Execution (StoreCall.exec .js) (S.state k),
      (∀ {j : ℕ} {t : Tid} {a : ℕ}, e.ops[j]? = some (.store (some t) a) →
        (e.state j).Dominates t a) →
      ∃ e' : Execution (StoreCall.exec .wasm) (S.state k), e'.ops = e.ops ∧
        ∀ j ≤ e.ops.length, e'.state j = e.state j) ∧
    ((S.state k).enabled = true → ∀ {t u : Tid}, u ≠ t → ∀ (a : ℕ) (w w' : Bool)
      (stores stores' : List (Tid × ℕ)),
      (ShadowCell.ofAccess t w ((S.state k).threadClocks t)).races u w'
        (((S.state k).storeAll .wasm ((t, a) :: stores ++ (u, a) :: stores')).threadClocks u) =
          false ∧
      ((ShadowCell.ofAccess t w ((S.state k).threadClocks t)).races u w'
        (((S.state k).storeAll .js ((t, a) :: stores ++ (u, a) :: stores')).threadClocks u) =
          true ↔ (w = true ∨ w' = true) ∧
        (S.state k).threadClocks u t < (S.state k).threadClocks t t)) := by
  refine ⟨fun t a ↦ Detector.atomicStore_eq_iff (S.bounded hk), fun e hdom ↦ ?_,
    fun he {t u} hut a w w' stores stores' ↦ ⟨?_, ?_⟩⟩
  · refine e.exists_related (R := fun s s' ↦ s' = s) rfl fun {j o s'} ho hs ↦ ?_
    subst hs
    refine ⟨_, ?_, rfl⟩
    rw [← e.step ho]
    cases o with
    | call c => rfl
    | store tid a =>
      cases tid with
      | none => rfl
      | some t => exact congrArg some (hdom ho).atomicStore_eq
  · have hle := Detector.le_storeAll_of_stores (a := a) he hut stores stores'
    rw [← Bool.not_eq_true, ShadowCell.races_iff]
    exact fun h ↦ absurd h.2.2.2 (not_lt.mpr hle)
  · rw [ShadowCell.races_iff]
    simp [ShadowCell.ofAccess, Detector.storeAll_threadClocks he hut, hut.symm]

/-- The detector is switched on and creates two threads. -/
def twoCreated : Session :=
  .ofOps [.enable, .op (.threadCreate uint32Max), .op (.threadCreate uint32Max)] (by decide)

/-- The first store of thread 0 is the same on both paths; once thread 1 stores to the location too,
only the path of JavaScript tells that the threads are not ordered. -/
theorem atomicStore_paths_twoCreated :
    (((twoCreated.state 3).atomicStore .wasm (some 0) 64).threadClocks 0 =
        ((twoCreated.state 3).atomicStore .js (some 0) 64).threadClocks 0 ∧
      ((twoCreated.state 3).atomicStore .wasm (some 0) 64).syncClocks 64 =
        ((twoCreated.state 3).atomicStore .js (some 0) 64).syncClocks 64) ∧
    (ShadowCell.ofAccess 0 true ((twoCreated.state 3).threadClocks 0)).races 1 false
      (((twoCreated.state 3).storeAll .wasm [(0, 64), (1, 64)]).threadClocks 1) = false ∧
    (ShadowCell.ofAccess 0 true ((twoCreated.state 3).threadClocks 0)).races 1 false
      (((twoCreated.state 3).storeAll .js [(0, 64), (1, 64)]).threadClocks 1) = true := by
  have hk : 3 ≤ twoCreated.ops.length := by decide
  obtain ⟨hsame, -, hrace⟩ := atomicStore_paths twoCreated hk
  obtain ⟨hwasm, hjs⟩ := hrace rfl (show (1 : Tid) ≠ 0 by decide) 64 true false [] []
  exact ⟨(hsame 0 64).mpr (.inr fun _ ↦ Nat.zero_le _), hwasm, hjs.mpr ⟨.inl rfl, by decide⟩⟩

end Session

end WebTSan
