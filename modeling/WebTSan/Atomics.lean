import WebTSan.Access

/-!
# Instrumented atomic operations

An atomic operation of a program is not one step. The generated code performs the real access to
the memory, and calls a hook of the detector before or after it, and the hook may call the detector
twice. An `Instrumentation` lists these steps for every operation of a language: `js` for the
builtins of `Atomics`, `wasm` for the code that Liftoff generates. A `Machine` interleaves the
steps of the operations of all threads, together with plain accesses.

A word of the memory remembers the operation that wrote it, which is how a run tells what an
operation reads from.

## Main definitions

* `WebTSan.Instrumentation`, `WebTSan.Instrumentation.js`, `WebTSan.Instrumentation.wasm`.
* `WebTSan.Machine`, `WebTSan.Event`, `WebTSan.AtomicRun`.
* `WebTSan.AtomicRun.StartsAt`, `Performs`, `Completes`, `ReadsFrom`.

## Main results

* `WebTSan.AtomicRun.pending_spec`: a thread works on its operation without a break.
* `WebTSan.AtomicRun.writer_spec`: a word was written by the operation that it remembers.
-/

namespace WebTSan

/-- An indivisible step of an atomic operation: a call of the detector, or the access. -/
inductive Micro
  | acquire
  | release
  | access
deriving DecidableEq

/-- The atomic operations of a language: the word that an operation writes over an old one, whether
it reads the old one, and its steps. An operation that writes releases its location, and one that
reads acquires it, once and in any order. -/
structure Instrumentation (α : Type) where
  written : α → ℕ → Option ℕ
  reads : α → Bool
  steps : α → List Micro
  nodup (op : α) : (steps op).Nodup
  release_mem {op : α} {old v : ℕ} : written op old = some v → .release ∈ steps op
  acquire_mem {op : α} : reads op = true → .acquire ∈ steps op

/-! ### The two languages -/

/-- The detector calls of `OnAtomicsLoad`. -/
def onAtomicsLoad : List Micro := [.acquire]

/-- The detector calls of `OnAtomicsStore`. -/
def onAtomicsStore : List Micro := [.release]

/-- The detector calls of `OnAtomicsRMW`. -/
def onAtomicsRMW : List Micro := [.acquire, .release]

/-- The builtins of `Atomics` that call a hook, on elements of at most 32 bits. -/
inductive JsAtomic
  | load
  | store (value : ℕ)
  | exchange (value : ℕ)
  | compareExchange (expected replacement : ℕ)

/-- The operations that Liftoff compiles; an exchange is a binop. -/
inductive WasmAtomic
  | load
  | store (value : ℕ)
  | binop (f : ℕ → ℕ)
  | compareExchange (expected replacement : ℕ)

namespace Instrumentation

/-- The builtins call the runtime function with the hook, then access the memory. -/
def js : Instrumentation JsAtomic where
  written
    | .load, _ => none
    | .store value, _ => some value
    | .exchange value, _ => some value
    | .compareExchange expected replacement, old =>
      if old = expected then some replacement else none
  reads
    | .store _ => false
    | _ => true
  steps
    | .load => onAtomicsLoad ++ [.access]
    | .store _ => onAtomicsStore ++ [.access]
    | .exchange _ | .compareExchange .. => onAtomicsRMW ++ [.access]
  nodup op := by cases op <;> simp [onAtomicsLoad, onAtomicsStore, onAtomicsRMW]
  release_mem {op _ _} h := by
    cases op with
    | load => cases h
    | _ => simp [onAtomicsStore, onAtomicsRMW]
  acquire_mem {op} h := by
    cases op with
    | store => cases h
    | _ => simp [onAtomicsLoad, onAtomicsRMW]

/-- The generated code accesses the memory, then calls `Runtime_WasmTraceMemory`. That function
takes a store for a read-modify-write operation. -/
def wasm : Instrumentation WasmAtomic where
  written
    | .load, _ => none
    | .store value, _ => some value
    | .binop f, old => some (f old)
    | .compareExchange expected replacement, old =>
      if old = expected then some replacement else none
  reads
    | .store _ => false
    | _ => true
  steps
    | .load => .access :: onAtomicsLoad
    | .store _ | .binop _ | .compareExchange .. => .access :: onAtomicsRMW
  nodup op := by cases op <;> simp [onAtomicsLoad, onAtomicsRMW]
  release_mem {op _ _} h := by
    cases op with
    | load => cases h
    | _ => simp [onAtomicsRMW]
  acquire_mem {op} _ := by cases op <;> simp [onAtomicsLoad, onAtomicsRMW]

end Instrumentation

/-! ### The machine -/

/-- An atomic operation of thread `tid` at the location `addr`. Operations are numbered in the order
in which they start. -/
structure Operation (α : Type) where
  id : ℕ
  tid : Tid
  op : α
  addr : ℕ

/-- A word of the memory, with the operation that wrote it. -/
structure Word (α : Type) where
  value : ℕ
  writer : Option (Operation α)

/-- The detector, the memory, and the operations that have started, with the steps left of each. -/
structure Machine (α : Type) where
  detector : Detector
  memory : ℕ → Word α
  pending : Tid → Option (Operation α × List Micro)
  /-- How many operations have started. -/
  begun : ℕ

/-- A step of a thread: it starts an atomic operation, takes the next step of the one it has
started, or makes a plain access. -/
inductive Event (α : Type)
  | start (tid : Tid) (op : α) (addr : ℕ)
  | micro (tid : Tid)
  | access (backingStore sabByteLength offset size : ℕ) (tid : Tid) (isWrite : Bool)

variable {α : Type} (I : Instrumentation α)

/-- The machine when no operation has started. -/
def Machine.initial (detector : Detector) (memory : ℕ → ℕ) : Machine α where
  detector := detector
  memory addr := { value := memory addr, writer := none }
  pending _ := none
  begun := 0

/-- The effect of one step of an operation. -/
def Micro.exec (s : Machine α) (o : Operation α) : Micro → Machine α
  | acquire => { s with detector := s.detector.acquire o.tid o.addr }
  | release => { s with detector := s.detector.release o.tid o.addr }
  | access =>
    match I.written o.op (s.memory o.addr).value with
    | some value =>
      { s with memory := Function.update s.memory o.addr { value := value, writer := some o } }
    | none => s

/-- What is left of an operation; a finished one is forgotten. -/
def leftover (o : Operation α) : List Micro → Option (Operation α × List Micro)
  | [] => none
  | todo => some (o, todo)

/-- The state after a step of a thread, if the thread can take it. -/
def Event.exec (s : Machine α) : Event α → Option (Machine α)
  | start tid op addr =>
    if (s.pending tid).isSome then none
    else
      some { s with
        pending := Function.update s.pending tid
          (some ({ id := s.begun, tid := tid, op := op, addr := addr }, I.steps op))
        begun := s.begun + 1 }
  | micro tid =>
    match s.pending tid with
    | some (o, m :: todo) =>
      let s := m.exec I s o
      some { s with pending := Function.update s.pending tid (leftover o todo) }
    | _ => none
  | access backingStore sabByteLength offset size tid isWrite =>
    some { s with
      detector := (s.detector.memoryAccess backingStore sabByteLength offset size tid isWrite).2 }

/-- An interleaving of the steps of all threads, from a state of the detector and the memory on. -/
abbrev AtomicRun (detector : Detector) (memory : ℕ → ℕ) :=
  Execution (Event.exec I) (Machine.initial detector memory)

section Exec

variable {I} {s s' : Machine α}

@[simp] theorem Micro.exec_pending (m : Micro) (o : Operation α) :
    (m.exec I s o).pending = s.pending := by
  cases m with
  | access => dsimp only [exec]; split <;> rfl
  | _ => rfl

@[simp] theorem Micro.exec_begun (m : Micro) (o : Operation α) :
    (m.exec I s o).begun = s.begun := by
  cases m with
  | access => dsimp only [exec]; split <;> rfl
  | _ => rfl

theorem exec_micro {t : Tid} (h : (Event.micro t).exec I s = some s') :
    ∃ o m todo, s.pending t = some (o, m :: todo) ∧
      s' = { m.exec I s o with pending := Function.update s.pending t (leftover o todo) } := by
  dsimp only [Event.exec] at h
  split at h
  · next o m todo hp =>
    refine ⟨o, m, todo, hp, ?_⟩
    rw [← Option.some.inj h, Micro.exec_pending]
  · cases h

theorem exec_start {t : Tid} {op : α} {addr : ℕ} (h : (Event.start t op addr).exec I s = some s') :
    s.pending t = none ∧ s' = { s with
      pending := Function.update s.pending t
        (some ({ id := s.begun, tid := t, op := op, addr := addr }, I.steps op))
      begun := s.begun + 1 } := by
  dsimp only [Event.exec] at h
  split_ifs at h with hp
  exact ⟨by simpa using hp, (Option.some.inj h).symm⟩

/-- What a step does to the operation of a thread. -/
theorem exec_pending {ev : Event α} (h : ev.exec I s = some s') (t : Tid) :
    (∃ op addr, ev = .start t op addr ∧ s.pending t = none ∧ s'.pending t =
      some ({ id := s.begun, tid := t, op := op, addr := addr }, I.steps op)) ∨
    (∃ o m todo, ev = .micro t ∧ s.pending t = some (o, m :: todo) ∧
      s'.pending t = leftover o todo) ∨
    s'.pending t = s.pending t := by
  cases ev with
  | start u op addr =>
    obtain ⟨hp, rfl⟩ := exec_start h
    by_cases hu : t = u
    · subst hu
      exact .inl ⟨op, addr, rfl, hp, Function.update_self ..⟩
    · exact .inr (.inr (Function.update_of_ne hu ..))
  | micro u =>
    obtain ⟨o, m, todo, hp, rfl⟩ := exec_micro h
    by_cases hu : t = u
    · subst hu
      exact .inr (.inl ⟨o, m, todo, rfl, hp, Function.update_self ..⟩)
    · exact .inr (.inr (Function.update_of_ne hu ..))
  | access bs len off size u w =>
    obtain rfl := Option.some.inj h
    exact .inr (.inr rfl)

theorem exec_begun_le {ev : Event α} (h : ev.exec I s = some s') : s.begun ≤ s'.begun := by
  cases ev with
  | start u op addr =>
    obtain ⟨-, rfl⟩ := exec_start h
    exact Nat.le_succ _
  | micro u =>
    obtain ⟨o, m, todo, -, rfl⟩ := exec_micro h
    exact (Micro.exec_begun m o).ge
  | access bs len off size u w =>
    obtain rfl := Option.some.inj h
    exact le_rfl

theorem leftover_eq_some_iff {o o' : Operation α} {todo todo' : List Micro} :
    leftover o todo = some (o', todo') ↔ o = o' ∧ todo = todo' ∧ todo ≠ [] := by
  cases todo <;> simp [leftover]

end Exec

namespace AtomicRun

variable {I} {d : Detector} {mem : ℕ → ℕ}

/-- The operation `o` starts at position `a`. -/
def StartsAt (e : AtomicRun I d mem) (o : Operation α) (a : ℕ) : Prop :=
  e.ops[a]? = some (.start o.tid o.op o.addr) ∧ (e.state a).begun = o.id

/-- At position `k` the operation `o` takes its step `m`. -/
def Performs (e : AtomicRun I d mem) (o : Operation α) (m : Micro) (k : ℕ) : Prop :=
  e.ops[k]? = some (.micro o.tid) ∧ ∃ todo, (e.state k).pending o.tid = some (o, m :: todo)

/-- At position `c` the operation `o` takes its last step. -/
def Completes (e : AtomicRun I d mem) (o : Operation α) (c : ℕ) : Prop :=
  e.ops[c]? = some (.micro o.tid) ∧ ∃ m, (e.state c).pending o.tid = some (o, [m])

/-- At position `k` the operation `o` reads the word that the operation `w` has written. -/
def ReadsFrom (e : AtomicRun I d mem) (o w : Operation α) (k : ℕ) : Prop :=
  e.Performs o .access k ∧ I.reads o.op = true ∧ ((e.state k).memory o.addr).writer = some w

variable {e : AtomicRun I d mem} {o : Operation α}

theorem begun_mono {k l : ℕ} (hkl : k ≤ l) (hl : l ≤ e.ops.length) :
    (e.state k).begun ≤ (e.state l).begun :=
  e.le_of_step (fun s ↦ s.begun) hkl hl fun _ _ ho ↦ exec_begun_le (e.step ho)

namespace StartsAt

variable {a : ℕ}

theorem lt_length (h : e.StartsAt o a) : a < e.ops.length := (List.getElem?_eq_some_iff.mp h.1).1

theorem state_succ (h : e.StartsAt o a) : e.state (a + 1) = { e.state a with
    pending := Function.update (e.state a).pending o.tid (some (o, I.steps o.op))
    begun := (e.state a).begun + 1 } := by
  obtain ⟨-, hs⟩ := exec_start (e.step h.1)
  rw [h.2] at hs
  rw [hs, h.2]

/-- An operation starts once. -/
theorem unique {a' : ℕ} (h : e.StartsAt o a) (h' : e.StartsAt o a') : a = a' := by
  have hlt {a a' : ℕ} (h : e.StartsAt o a) (h' : e.StartsAt o a') : ¬a < a' := by
    intro haa'
    have hle := e.begun_mono haa' h'.lt_length.le
    rw [h.state_succ, h.2, h'.2] at hle
    exact absurd hle (Nat.not_succ_le_self _)
  exact le_antisymm (not_lt.mp (hlt h' h)) (not_lt.mp (hlt h h'))

end StartsAt

/-- A thread works on its operation without a break from the start on, and has taken the steps
that are not left. -/
theorem pending_spec {k : ℕ} (hk : k ≤ e.ops.length) {t : Tid} {todo : List Micro}
    (h : (e.state k).pending t = some (o, todo)) :
    o.tid = t ∧ ∃ a < k, e.StartsAt o a ∧ ∀ l, a < l → l ≤ k →
      ∃ pre, (e.state l).pending t = some (o, pre ++ todo) ∧
        ∀ m ∈ pre, ∃ i, l ≤ i ∧ i < k ∧ e.Performs o m i := by
  induction k generalizing todo with
  | zero =>
    rw [e.state_zero] at h
    cases h
  | succ k ih =>
    have hk' := Nat.le_of_succ_le hk
    have ho := List.getElem?_eq_getElem hk
    rcases exec_pending (e.step ho) t with
      ⟨op, addr, hev, -, hp⟩ | ⟨o', m, todo', hev, hp, hp'⟩ | hp
    · -- The operation has just started.
      obtain ⟨rfl, rfl⟩ := Prod.mk.inj (Option.some.inj (hp.symm.trans h))
      refine ⟨rfl, k, Nat.lt_succ_self k, ⟨hev ▸ ho, rfl⟩, fun l hl hl' ↦ ⟨[], ?_, nofun⟩⟩
      obtain rfl : l = k + 1 := le_antisymm hl' hl
      exact h
    · -- The thread has taken the step `m`.
      obtain ⟨rfl, rfl, -⟩ := leftover_eq_some_iff.mp (hp'.symm.trans h)
      obtain ⟨rfl, a, ha, hstart, hbefore⟩ := ih hk' hp
      have hperforms : e.Performs o' m k := ⟨hev ▸ ho, todo', hp⟩
      refine ⟨rfl, a, Nat.lt_succ_of_lt ha, hstart, fun l hl hl' ↦ ?_⟩
      rcases Nat.lt_succ_iff_lt_or_eq.mp (Nat.lt_succ_of_le hl') with hlt | rfl
      · obtain ⟨pre, hpre, hdone⟩ := hbefore l hl (Nat.le_of_lt_succ hlt)
        refine ⟨pre ++ [m], by simpa using hpre, fun m' hm' ↦ ?_⟩
        rcases List.mem_append.mp hm' with hm' | hm'
        · obtain ⟨i, hli, hik, hi⟩ := hdone m' hm'
          exact ⟨i, hli, Nat.lt_succ_of_lt hik, hi⟩
        · obtain rfl := List.mem_singleton.mp hm'
          exact ⟨k, Nat.le_of_lt_succ hlt, Nat.lt_succ_self k, hperforms⟩
      · exact ⟨[], h, nofun⟩
    · obtain ⟨rfl, a, ha, hstart, hbefore⟩ := ih hk' (hp ▸ h)
      refine ⟨rfl, a, Nat.lt_succ_of_lt ha, hstart, fun l hl hl' ↦ ?_⟩
      rcases Nat.lt_succ_iff_lt_or_eq.mp (Nat.lt_succ_of_le hl') with hlt | rfl
      · obtain ⟨pre, hpre, hdone⟩ := hbefore l hl (Nat.le_of_lt_succ hlt)
        refine ⟨pre, hpre, fun m' hm' ↦ ?_⟩
        obtain ⟨i, hli, hik, hi⟩ := hdone m' hm'
        exact ⟨i, hli, Nat.lt_succ_of_lt hik, hi⟩
      · exact ⟨[], h, nofun⟩

/-! ### The steps of one operation -/

theorem Performs.lt_length {m : Micro} {k : ℕ} (h : e.Performs o m k) : k < e.ops.length :=
  (List.getElem?_eq_some_iff.mp h.1).1

theorem Completes.lt_length {c : ℕ} (h : e.Completes o c) : c < e.ops.length :=
  (List.getElem?_eq_some_iff.mp h.1).1

/-- Every step comes after the start. -/
theorem StartsAt.lt {a k : ℕ} {m : Micro} (ha : e.StartsAt o a) (h : e.Performs o m k) : a < k := by
  obtain ⟨todo, hp⟩ := h.2
  obtain ⟨-, a', ha', hstart, -⟩ := e.pending_spec h.lt_length.le hp
  rwa [ha.unique hstart]

theorem Performs.state_succ {m : Micro} {k : ℕ} (h : e.Performs o m k) :
    ∃ todo, (e.state k).pending o.tid = some (o, m :: todo) ∧ e.state (k + 1) =
      { m.exec I (e.state k) o with
        pending := Function.update (e.state k).pending o.tid (leftover o todo) } := by
  obtain ⟨o', m', todo, hp, hs⟩ := exec_micro (e.step h.1)
  obtain ⟨todo', hp'⟩ := h.2
  obtain ⟨rfl, hlist⟩ := Prod.mk.inj (Option.some.inj (hp.symm.trans hp'))
  obtain ⟨rfl, rfl⟩ := List.cons.inj hlist
  exact ⟨todo, hp, hs⟩

theorem Completes.pending_succ {c : ℕ} (h : e.Completes o c) :
    (e.state (c + 1)).pending o.tid = none := by
  obtain ⟨m, hp⟩ := h.2
  obtain ⟨todo, hp', hs⟩ := Performs.state_succ (m := m) ⟨h.1, [], hp⟩
  obtain ⟨-, hlist⟩ := Prod.mk.inj (Option.some.inj (hp.symm.trans hp'))
  obtain ⟨-, rfl⟩ := List.cons.inj hlist
  rw [hs]
  exact Function.update_self ..

/-- No step comes after the last one. -/
theorem Performs.le {m : Micro} {k c : ℕ} (h : e.Performs o m k) (hc : e.Completes o c) :
    k ≤ c := by
  by_contra hlt
  obtain ⟨todo, hp⟩ := h.2
  obtain ⟨m', hp'⟩ := hc.2
  obtain ⟨-, a, -, hstart, hbefore⟩ := e.pending_spec h.lt_length.le hp
  obtain ⟨-, a', ha', hstart', -⟩ := e.pending_spec hc.lt_length.le hp'
  obtain rfl := hstart.unique hstart'
  obtain ⟨pre, hpre, -⟩ := hbefore (c + 1) (Nat.lt_succ_of_lt ha') (not_le.mp hlt)
  rw [hc.pending_succ] at hpre
  cases hpre

/-- A completed operation has taken all of its steps. -/
theorem Completes.performs {c : ℕ} (hc : e.Completes o c) {m : Micro} (hm : m ∈ I.steps o.op) :
    ∃ i, e.Performs o m i := by
  obtain ⟨m', hp⟩ := hc.2
  obtain ⟨-, a, ha, hstart, hbefore⟩ := e.pending_spec hc.lt_length.le hp
  obtain ⟨pre, hpre, hdone⟩ := hbefore (a + 1) (Nat.lt_succ_self a) ha
  rw [hstart.state_succ] at hpre
  have hsteps : I.steps o.op = pre ++ [m'] := by
    simpa using hpre
  rw [hsteps] at hm
  rcases List.mem_append.mp hm with hm | hm
  · obtain ⟨i, -, -, hi⟩ := hdone m hm
    exact ⟨i, hi⟩
  · obtain rfl := List.mem_singleton.mp hm
    exact ⟨c, hc.1, [], hp⟩

/-- Each step is taken once. -/
theorem Performs.notMem {m : Micro} {k : ℕ} {todo : List Micro} (h : e.Performs o m k)
    (hp : (e.state k).pending o.tid = some (o, m :: todo)) : m ∉ todo := by
  obtain ⟨-, a, ha, hstart, hbefore⟩ := e.pending_spec h.lt_length.le hp
  obtain ⟨pre, hpre, -⟩ := hbefore (a + 1) (Nat.lt_succ_self a) ha
  rw [hstart.state_succ] at hpre
  have hsteps : I.steps o.op = pre ++ m :: todo := by
    simpa using hpre
  have hnodup := I.nodup o.op
  rw [hsteps] at hnodup
  exact (List.nodup_cons.mp (List.nodup_append.mp hnodup).2.1).1

/-- A word remembers an operation at its location that has written to it. -/
theorem writer_spec {k : ℕ} (hk : k ≤ e.ops.length) {addr : ℕ}
    (h : ((e.state k).memory addr).writer = some o) :
    o.addr = addr ∧ (∃ old v, I.written o.op old = some v) ∧ ∃ w < k, e.Performs o .access w := by
  induction k with
  | zero =>
    rw [e.state_zero] at h
    cases h
  | succ k ih =>
    have ho := List.getElem?_eq_getElem hk
    have hold (hmem : (e.state (k + 1)).memory addr = (e.state k).memory addr) :
        o.addr = addr ∧ (∃ old v, I.written o.op old = some v) ∧
          ∃ w < k + 1, e.Performs o .access w := by
      obtain ⟨haddr, hwritten, w, hwk, hw⟩ := ih (Nat.le_of_succ_le hk) (hmem ▸ h)
      exact ⟨haddr, hwritten, w, Nat.lt_succ_of_lt hwk, hw⟩
    cases hev : e.ops[k] with
    | start t op a =>
      obtain ⟨-, hs⟩ := exec_start (e.step (hev ▸ ho))
      exact hold (by rw [hs])
    | access bs len off size t w =>
      have hs := e.state_succ (hev ▸ ho) rfl
      exact hold (by rw [hs])
    | micro t =>
      obtain ⟨o', m, todo, hp, hs⟩ := exec_micro (e.step (hev ▸ ho))
      obtain ⟨rfl, -⟩ := e.pending_spec (Nat.le_of_succ_le hk) hp
      cases m with
      | acquire | release => exact hold (by rw [hs]; rfl)
      | access =>
        cases hval : I.written o'.op ((e.state k).memory o'.addr).value with
        | none => exact hold (by simp only [hs, Micro.exec, hval])
        | some v =>
          by_cases haddr : addr = o'.addr
          · have hword : (e.state (k + 1)).memory addr = { value := v, writer := some o' } := by
              simp only [hs, Micro.exec, hval, haddr, Function.update_self]
            rw [hword] at h
            obtain rfl := Option.some.inj h
            exact ⟨haddr.symm, ⟨_, v, hval⟩, k, Nat.lt_succ_self k, hev ▸ ho, todo, hp⟩
          · exact hold (by simp only [hs, Micro.exec, hval, Function.update_of_ne haddr])

end AtomicRun

end WebTSan
