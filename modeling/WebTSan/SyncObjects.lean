import WebTSan.RwLock

/-!
# Mutexes of several memories

A program identifies a mutex by a memory and an address in it. The JS globals pass only the address
on, and the detector keys the clock of the mutex by it, in the map that also holds the clocks of the
atomic locations of all memories, keyed by host addresses. A `SyncProgram` is a run together with
the objects that its calls are about. If no two objects of the program have the same key, the
detector knows exactly the synchronization of the program: a release of an object is seen by the
later acquires of this object, unless the object is created or destroyed in between, and by no other
acquire. Otherwise an object takes the clocks of others over, or erases them.

## Main definitions

* `WebTSan.SyncObject`, `WebTSan.SyncObject.key`.
* `WebTSan.SyncCall`, `WebTSan.SyncProgram`.
* `WebTSan.SyncProgram.Synchronizes`: the synchronization between the calls of a program.
* `WebTSan.SyncProgram.Locked`: a byte that is protected by one mutex.

## Main results

* `WebTSan.SyncProgram.syncEdge_iff`: what the detector makes of the synchronization.
* `WebTSan.SyncProgram.mutexes_apart`: mutexes of different memories do not interfere if keys are
  distinct.
* `WebTSan.SyncProgram.exists_interference`.
-/

namespace WebTSan

/-- What a program synchronizes on: a mutex, or an atomic location. -/
inductive SyncObject
  | mutex (memory addr : ℕ)
  | atomic (hostAddr : ℕ)
deriving DecidableEq

/-- The key in `sync_clocks_`. `ArgToAddr` gets the wasm address only. -/
def SyncObject.key : SyncObject → ℕ
  | .mutex _ addr => addr
  | .atomic hostAddr => hostAddr

/-- The mutex operations that the JS globals offer. -/
inductive MutexOp
  | create
  | destroy
  | preLock (tid : Tid)
  | postLock (tid : Tid)
  | unlock (tid : Tid)
  | readLock (tid : Tid)
  | readUnlock (tid : Tid)
deriving DecidableEq

/-- The call of the detector that a mutex operation makes. -/
def MutexOp.toOp (addr : ℕ) : MutexOp → Op
  | .create => .mutexCreate addr
  | .destroy => .mutexDestroy addr
  | .preLock tid => .mutexPreLock tid addr
  | .postLock tid => .mutexPostLock tid addr
  | .unlock tid => .mutexUnlock tid addr
  | .readLock tid => .mutexReadLock tid addr
  | .readUnlock tid => .mutexReadUnlock tid addr

/-- The address in `sync_clocks_` that a call is about. -/
def Op.syncAddr : Op → Option ℕ
  | .acquire _ a | .release _ a | .mutexCreate a | .mutexDestroy a | .mutexPreLock _ a
  | .mutexPostLock _ a | .mutexUnlock _ a | .mutexReadLock _ a | .mutexReadUnlock _ a => some a
  | _ => none

/-- A call of a program: a mutex operation, a step of a hook for an atomic operation, or a call
without an address. -/
inductive SyncCall
  | mutex (op : MutexOp) (memory addr : ℕ)
  | acquire (tid : Tid) (hostAddr : ℕ)
  | release (tid : Tid) (hostAddr : ℕ)
  | other (o : Op) (h : o.syncAddr = none)
deriving DecidableEq

namespace SyncCall

/-- The call of the detector. -/
def toOp : SyncCall → Op
  | .mutex op _ addr => op.toOp addr
  | .acquire tid hostAddr => .acquire tid hostAddr
  | .release tid hostAddr => .release tid hostAddr
  | .other o _ => o

/-- The object that a call is about. -/
def object : SyncCall → Option SyncObject
  | .mutex _ memory addr => some (.mutex memory addr)
  | .acquire _ hostAddr | .release _ hostAddr => some (.atomic hostAddr)
  | .other .. => none

/-- The thread that releases an object, with the object. -/
def releases : SyncCall → Option (Tid × SyncObject)
  | .mutex (.unlock tid) memory addr => some (tid, .mutex memory addr)
  | .release tid hostAddr => some (tid, .atomic hostAddr)
  | _ => none

/-- The thread that acquires an object, with the object. -/
def acquires : SyncCall → Option (Tid × SyncObject)
  | .mutex (.postLock tid) memory addr | .mutex (.readLock tid) memory addr =>
    some (tid, .mutex memory addr)
  | .acquire tid hostAddr => some (tid, .atomic hostAddr)
  | _ => none

/-- The object that is created or destroyed. -/
def erases : SyncCall → Option SyncObject
  | .mutex .create memory addr | .mutex .destroy memory addr => some (.mutex memory addr)
  | _ => none

variable {c : SyncCall}

theorem toOp_releases :
    c.toOp.releases = c.releases.map fun tx ↦ (tx.1, tx.2.key) := by
  cases c with
  | mutex op => cases op <;> rfl
  | acquire | release => rfl
  | other o h => cases o <;> first | rfl | cases h

theorem toOp_acquires :
    c.toOp.acquires = c.acquires.map fun tx ↦ (tx.1, tx.2.key) := by
  cases c with
  | mutex op => cases op <;> rfl
  | acquire | release => rfl
  | other o h => cases o <;> first | rfl | cases h

theorem toOp_erases : c.toOp.erases = c.erases.map SyncObject.key := by
  cases c with
  | mutex op => cases op <;> rfl
  | acquire | release => rfl
  | other o h => cases o <;> first | rfl | cases h

theorem object_of_releases {t : Tid} {x : SyncObject} (h : c.releases = some (t, x)) :
    c.object = some x := by
  cases c with
  | mutex op =>
    cases op with
    | unlock =>
      obtain ⟨-, rfl⟩ := Prod.mk.inj (Option.some.inj h)
      rfl
    | _ => cases h
  | release =>
    obtain ⟨-, rfl⟩ := Prod.mk.inj (Option.some.inj h)
    rfl
  | acquire | other => cases h

theorem object_of_acquires {t : Tid} {x : SyncObject} (h : c.acquires = some (t, x)) :
    c.object = some x := by
  cases c with
  | mutex op =>
    cases op with
    | postLock | readLock =>
      obtain ⟨-, rfl⟩ := Prod.mk.inj (Option.some.inj h)
      rfl
    | _ => cases h
  | acquire =>
    obtain ⟨-, rfl⟩ := Prod.mk.inj (Option.some.inj h)
    rfl
  | release | other => cases h

theorem object_of_erases {x : SyncObject} (h : c.erases = some x) : c.object = some x := by
  cases c with
  | mutex op =>
    cases op with
    | create | destroy => exact h
    | _ => cases h
  | _ => cases h

end SyncCall

/-- A program that synchronizes on objects, and the run of the detector that it makes. -/
structure SyncProgram where
  calls : List SyncCall
  run : Run
  ops_eq : run.ops = calls.map SyncCall.toOp

namespace SyncProgram

/-- The program that makes the given calls. -/
def ofCalls (calls : List SyncCall)
    (h : (execAll Op.exec Detector.initial (calls.map SyncCall.toOp)).isSome = true) :
    SyncProgram where
  calls := calls
  run := .ofOps (calls.map SyncCall.toOp) h
  ops_eq := rfl

variable (p : SyncProgram)

/-- Some call of the program is about the object. -/
def Uses (x : SyncObject) : Prop := ∃ c ∈ p.calls, c.object = some x

/-- The objects of the program have distinct keys. -/
def Apart : Prop := ∀ ⦃x y⦄, p.Uses x → p.Uses y → x.key = y.key → x = y

/-- In the program, thread `t` releases an object at position `i`, and thread `u` acquires it at
position `j`, before it is created or destroyed. -/
def Synchronizes (i : ℕ) (t : Tid) (j : ℕ) (u : Tid) (x : SyncObject) : Prop :=
  i < j ∧ (∃ c, p.calls[i]? = some c ∧ c.releases = some (t, x)) ∧
    (∃ c, p.calls[j]? = some c ∧ c.acquires = some (u, x)) ∧
    ∀ ⦃m c⦄, i < m → m < j → p.calls[m]? = some c → c.erases ≠ some x

/-- For the detector, what `t` releases at position `i` reaches `u` at position `j`. -/
def SyncEdge (i : ℕ) (t : Tid) (j : ℕ) (u : Tid) (a : ℕ) : Prop :=
  i < j ∧ p.run.ReleasesAt i t a ∧ p.run.AcquiresAt j u a ∧ p.run.KeepsSync a i j

variable {p}

theorem getElem?_ops (k : ℕ) : p.run.ops[k]? = p.calls[k]?.map SyncCall.toOp := by
  rw [p.ops_eq, List.getElem?_map]

theorem uses_of_object {k : ℕ} {c : SyncCall} (hc : p.calls[k]? = some c) {x : SyncObject}
    (hx : c.object = some x) : p.Uses x :=
  ⟨c, List.mem_of_getElem? hc, hx⟩

theorem releasesAt_iff {i a : ℕ} {t : Tid} : p.run.ReleasesAt i t a ↔
    ∃ c x, p.calls[i]? = some c ∧ c.releases = some (t, x) ∧ x.key = a := by
  simp only [Run.ReleasesAt, getElem?_ops, Option.map_eq_some_iff]
  constructor
  · rintro ⟨_, ⟨c, hc, rfl⟩, hr⟩
    rw [SyncCall.toOp_releases] at hr
    obtain ⟨⟨_, x⟩, hx, heq⟩ := Option.map_eq_some_iff.mp hr
    obtain ⟨rfl, rfl⟩ := Prod.mk.inj heq
    exact ⟨c, x, hc, hx, rfl⟩
  · rintro ⟨c, x, hc, hx, rfl⟩
    refine ⟨_, ⟨c, hc, rfl⟩, ?_⟩
    rw [SyncCall.toOp_releases, hx]
    rfl

theorem acquiresAt_iff {j a : ℕ} {u : Tid} : p.run.AcquiresAt j u a ↔
    ∃ c x, p.calls[j]? = some c ∧ c.acquires = some (u, x) ∧ x.key = a := by
  simp only [Run.AcquiresAt, getElem?_ops, Option.map_eq_some_iff]
  constructor
  · rintro ⟨_, ⟨c, hc, rfl⟩, hr⟩
    rw [SyncCall.toOp_acquires] at hr
    obtain ⟨⟨_, x⟩, hx, heq⟩ := Option.map_eq_some_iff.mp hr
    obtain ⟨rfl, rfl⟩ := Prod.mk.inj heq
    exact ⟨c, x, hc, hx, rfl⟩
  · rintro ⟨c, x, hc, hx, rfl⟩
    refine ⟨_, ⟨c, hc, rfl⟩, ?_⟩
    rw [SyncCall.toOp_acquires, hx]
    rfl

/-- With distinct keys, an address keeps its clock exactly if its object is not created or
destroyed. -/
theorem keepsSync_iff (ha : p.Apart) {x : SyncObject} (hx : p.Uses x) {i j : ℕ} :
    p.run.KeepsSync x.key i j ↔
      ∀ ⦃m c⦄, i < m → m < j → p.calls[m]? = some c → c.erases ≠ some x := by
  constructor
  · intro h m c hm hmj hc her
    refine h (o := c.toOp) hm hmj (by rw [getElem?_ops, hc]; rfl) ?_
    rw [SyncCall.toOp_erases, her]
    rfl
  · intro h m o hm hmj ho her
    rw [getElem?_ops] at ho
    obtain ⟨c, hc, rfl⟩ := Option.map_eq_some_iff.mp ho
    rw [SyncCall.toOp_erases] at her
    obtain ⟨y, hy, hkey⟩ := Option.map_eq_some_iff.mp her
    obtain rfl := ha (uses_of_object hc (SyncCall.object_of_erases hy)) hx hkey
    exact h hm hmj hc hy

/-- With distinct keys, the detector sees the synchronization of the program and nothing else. -/
theorem syncEdge_iff (ha : p.Apart) {i j : ℕ} {t u : Tid} :
    (∃ a, p.SyncEdge i t j u a) ↔ ∃ x, p.Synchronizes i t j u x := by
  constructor
  · rintro ⟨a, hij, hr, hacq, hkeep⟩
    obtain ⟨c, x, hc, hx, rfl⟩ := releasesAt_iff.mp hr
    obtain ⟨c', y, hc', hy, hkey⟩ := acquiresAt_iff.mp hacq
    have hux := uses_of_object hc (SyncCall.object_of_releases hx)
    obtain rfl := ha (uses_of_object hc' (SyncCall.object_of_acquires hy)) hux hkey
    exact ⟨y, hij, ⟨c, hc, hx⟩, ⟨c', hc', hy⟩, (keepsSync_iff ha hux).mp hkeep⟩
  · rintro ⟨x, hij, ⟨c, hc, hx⟩, ⟨c', hc', hy⟩, hkeep⟩
    have hux := uses_of_object hc (SyncCall.object_of_releases hx)
    exact ⟨x.key, hij, releasesAt_iff.mpr ⟨c, x, hc, hx, rfl⟩,
      acquiresAt_iff.mpr ⟨c', x, hc', hy, rfl⟩, (keepsSync_iff ha hux).mpr hkeep⟩

/-- With distinct keys, a call leaves the clocks of all other objects alone. -/
theorem syncClocks_of_ne (ha : p.Apart) {k : ℕ} {c : SyncCall} (hc : p.calls[k]? = some c)
    {y : SyncObject} (hy : p.Uses y) (hne : c.object ≠ some y) :
    (p.run.state (k + 1)).syncClocks y.key = (p.run.state k).syncClocks y.key := by
  have ho : p.run.ops[k]? = some c.toOp := by rw [getElem?_ops, hc]; rfl
  have hother {x : SyncObject} (hx : c.object = some x) : x.key ≠ y.key := by
    intro hkey
    obtain rfl := ha (uses_of_object hc hx) hy hkey
    exact hne hx
  rw [Op.exec_syncClocks (p.run.enabled (Run.lt_length_of_getElem? ho).le) (p.run.step ho),
    SyncCall.toOp_erases, SyncCall.toOp_releases]
  have her : c.erases.map SyncObject.key ≠ some y.key := by
    intro her
    obtain ⟨x, hx, hkey⟩ := Option.map_eq_some_iff.mp her
    exact hother (SyncCall.object_of_erases hx) hkey
  rw [if_neg her]
  cases hr : c.releases with
  | none => rfl
  | some tx =>
    have hkey := hother (SyncCall.object_of_releases (hr.trans rfl))
    simp [hkey]

/-! ### Bytes protected by a mutex -/

/-- At position `i`, thread `t` holds the mutex, which it has locked at position `l`. -/
structure HoldsMutex (p : SyncProgram) (l i : ℕ) (t : Tid) (memory addr : ℕ) : Prop where
  lock : p.calls[l]? = some (.mutex (.postLock t) memory addr)
  lt : l < i
  same : p.run.SameOccupant t l i
  open_ {m : ℕ} (hl : l < m) (hi : m < i) :
    p.calls[m]? ≠ some (.mutex (.unlock t) memory addr)

/-- The byte is only accessed by threads that hold the mutex. A thread has unlocked the mutex before
another thread locks it. The mutex is not used as a reader-writer lock, and not created or destroyed
once it is used. -/
structure Locked (p : SyncProgram) (bs byte memory addr : ℕ) : Prop where
  access {i : ℕ} {t : Tid} {w : Bool} (h : p.run.Accesses i bs byte t w) :
    ∃ l, p.HoldsMutex l i t memory addr
  exclusive {l j : ℕ} {t u : Tid} (hl : p.calls[l]? = some (.mutex (.postLock t) memory addr))
    (hlj : l < j) (htu : t ≠ u) (hj : p.calls[j]? = some (.mutex (.postLock u) memory addr)) :
    ∃ m, l < m ∧ m < j ∧ p.calls[m]? = some (.mutex (.unlock t) memory addr) ∧
      p.run.SameOccupant t l m
  not_readLock (j : ℕ) (u : Tid) : p.calls[j]? ≠ some (.mutex (.readLock u) memory addr)
  keeps {l m : ℕ} {c : SyncCall} {t : Tid}
    (hl : p.calls[l]? = some (.mutex (.postLock t) memory addr)) (hlm : l < m)
    (hm : p.calls[m]? = some c) : c.erases ≠ some (.mutex memory addr)

theorem ops_of_call {k : ℕ} {op : MutexOp} {memory addr : ℕ}
    (h : p.calls[k]? = some (.mutex op memory addr)) : p.run.ops[k]? = some (op.toOp addr) := by
  rw [getElem?_ops, h]
  rfl

/-- With distinct keys, the operations on an address are those on its mutex. -/
theorem call_of_ops (ha : p.Apart) (op : MutexOp) {memory addr k : ℕ}
    (hx : p.Uses (.mutex memory addr)) (h : p.run.ops[k]? = some (op.toOp addr)) :
    p.calls[k]? = some (.mutex op memory addr) := by
  rw [getElem?_ops] at h
  obtain ⟨c, hc, hop⟩ := Option.map_eq_some_iff.mp h
  have hcall : ∃ m, c = .mutex op m addr := by
    cases c with
    | mutex op' m a' =>
      refine ⟨m, ?_⟩
      cases op' <;> cases op <;> simp_all [SyncCall.toOp, MutexOp.toOp]
    | acquire | release => cases op <;> cases hop
    | other o ho =>
      obtain rfl : o = op.toOp addr := hop
      cases op <;> cases ho
  obtain ⟨m, rfl⟩ := hcall
  have heq : SyncObject.mutex m addr = .mutex memory addr := ha (uses_of_object hc rfl) hx rfl
  rw [hc, (SyncObject.mutex.inj heq).1]

theorem HoldsMutex.holdsWrite (ha : p.Apart) {l i : ℕ} {t : Tid} {memory addr : ℕ}
    (h : p.HoldsMutex l i t memory addr) : p.run.HoldsWrite l i t addr where
  lock := ops_of_call h.lock
  lt := h.lt
  same := h.same
  open_ hl hi ho :=
    h.open_ hl hi (call_of_ops ha (.unlock t) (uses_of_object h.lock rfl) ho)

/-- With distinct keys, a mutex is a reader-writer lock of the detector. -/
theorem Locked.rwLocked (ha : p.Apart) {bs byte memory addr : ℕ}
    (hx : p.Uses (.mutex memory addr)) (h : p.Locked bs byte memory addr) :
    p.run.RwLocked bs byte addr where
  access hi := by
    obtain ⟨l, hl⟩ := h.access hi
    exact .inl ⟨l, hl.holdsWrite ha⟩
  writer {l j t u} hl hlj htu hj := by
    have hl' := call_of_ops ha (.postLock t) hx hl
    rcases hj with hj | hj
    · have hj' := call_of_ops ha (.postLock u) hx hj
      obtain ⟨m, hlm, hmj, hm, hsame⟩ := h.exclusive hl' hlj htu hj'
      exact ⟨m, hlm, hmj, ops_of_call hm, hsame⟩
    · exact absurd (call_of_ops ha (.readLock u) hx hj) (h.not_readLock j u)
  reader {l j t u} hl _ _ _ :=
    absurd (call_of_ops ha (.readLock t) hx hl) (h.not_readLock l t)
  keeps {l m o t} hl hlm hm her := by
    have hl' : p.calls[l]? = some (.mutex (.postLock t) memory addr) := by
      rcases hl with hl | hl
      · exact call_of_ops ha (.postLock t) hx hl
      · exact absurd (call_of_ops ha (.readLock t) hx hl) (h.not_readLock l t)
    rw [getElem?_ops] at hm
    obtain ⟨c, hc, rfl⟩ := Option.map_eq_some_iff.mp hm
    rw [SyncCall.toOp_erases] at her
    obtain ⟨y, hy, hkey⟩ := Option.map_eq_some_iff.mp her
    obtain rfl := ha (uses_of_object hc (SyncCall.object_of_erases hy)) hx hkey
    exact h.keeps hl' hlm hc hy

/-- With distinct keys, no race is found on a byte that is protected by a mutex. -/
theorem Locked.not_found (ha : p.Apart) (hw : p.run.NoWrap) {bs byte memory addr : ℕ}
    (h : p.Locked bs byte memory addr) {k len off size : ℕ} {u : Tid} {w : Bool}
    {report : RaceReport} (ho : p.run.ops[k]? = some (.memoryAccess bs len off size u w))
    (hf : Op.found (p.run.state k) (.memoryAccess bs len off size u w) = some report) :
    report.sabOffset ≠ byte := by
  rintro rfl
  obtain ⟨i, hrec, hepoch, -, hb, hb', -, -, htu, -, hlt⟩ := Run.exists_recorded_of_found ho hf
  rw [hepoch] at hlt
  obtain ⟨l, hl⟩ := h.access hrec.access
  have hrw := h.rwLocked ha (uses_of_object hl.lock rfl)
  obtain ⟨_, _, _, hi, -⟩ := hrec.access
  have hne : p.run.ops[i]? ≠ some (.mutexUnlock report.tid1 addr) := by
    rw [hi]
    nofun
  exact Run.not_happensBefore_of_lt hw hlt
    (hrw.happensBefore (hl.holdsWrite ha) hne ⟨len, off, size, ho, hb, hb'⟩ hrec.lt htu)

/-- Mutexes of different memories do not interfere, with each other or with atomic locations, if the
objects of the program have distinct keys. The detector then orders two calls through an address
exactly if the program synchronizes them on an object; an operation on a mutex leaves the clocks of
all other objects alone; and no race is found on bytes that are protected by a mutex. -/
theorem mutexes_apart (p : SyncProgram) (ha : p.Apart) :
    (∀ {i j : ℕ} {t u : Tid}, (∃ a, p.SyncEdge i t j u a) ↔ ∃ x, p.Synchronizes i t j u x) ∧
    (∀ {k : ℕ} {op : MutexOp} {memory addr : ℕ},
      p.calls[k]? = some (.mutex op memory addr) →
      ∀ {y : SyncObject}, p.Uses y → y ≠ .mutex memory addr →
        (p.run.state (k + 1)).syncClocks y.key = (p.run.state k).syncClocks y.key) ∧
    (p.run.NoWrap → ∀ {bs byte memory addr : ℕ}, p.Locked bs byte memory addr →
      ∀ {k len off size : ℕ} {u : Tid} {w : Bool} {report : RaceReport},
        p.run.ops[k]? = some (.memoryAccess bs len off size u w) →
        Op.found (p.run.state k) (.memoryAccess bs len off size u w) = some report →
        report.sabOffset ≠ byte) := by
  refine ⟨syncEdge_iff ha, fun hc y hy hne ↦ ?_, fun hw _ _ _ _ h ↦ h.not_found ha hw⟩
  exact syncClocks_of_ne ha hc hy fun heq ↦ hne (Option.some.inj heq).symm

/-- Two threads write a byte under the mutex at address 600 of memory 0. Between the two sections, a
mutex of memory 1 is created. -/
def guarded (addr : ℕ) : SyncProgram :=
  .ofCalls [.other (.threadCreate uint32Max) rfl, .other (.threadCreate uint32Max) rfl,
    .mutex (.postLock 0) 0 600, .other (.memoryAccess 1000 64 8 1 0 true) rfl,
    .mutex (.unlock 0) 0 600, .mutex .create 1 addr, .mutex (.postLock 1) 0 600,
    .other (.memoryAccess 1000 64 8 1 1 true) rfl, .mutex (.unlock 1) 0 600]
    (execAll_isSome rfl (by decide) (by simp [SyncCall.toOp, MutexOp.toOp]))

theorem guarded_calls_lt {addr k : ℕ} {c : SyncCall} (h : (guarded addr).calls[k]? = some c) :
    k < 9 := (List.getElem?_eq_some_iff.mp h).1

theorem guarded_sameOccupant (addr : ℕ) {t : Tid} {l i : ℕ} (hl : 2 ≤ l) :
    (guarded addr).run.SameOccupant t l i := by
  rintro m hm - ⟨p, ho, -⟩
  have hm2 : 2 ≤ m := hl.trans hm
  have hm9 : m < 9 := Run.lt_length_of_getElem? ho
  interval_cases m <;> cases ho

theorem guarded_locked (addr : ℕ) : (guarded addr).Locked 1000 8 0 600 where
  access {i t w} h := by
    obtain ⟨_, _, _, hi, -⟩ := h
    have hlt : i < 9 := Run.lt_length_of_getElem? hi
    interval_cases i <;> cases Option.some.inj hi
    · exact ⟨2, rfl, by decide, guarded_sameOccupant addr le_rfl, fun hl hi ↦ by omega⟩
    · exact ⟨6, rfl, by decide, guarded_sameOccupant addr (by decide), fun hl hi ↦ by omega⟩
  exclusive {l j t u} hl hlj htu hj := by
    have hl9 := guarded_calls_lt hl
    have hj9 := guarded_calls_lt hj
    have hj6 : j = 2 ∨ j = 6 := by interval_cases j <;> cases Option.some.inj hj <;> decide
    interval_cases l <;> cases Option.some.inj hl
    · exact ⟨4, by decide, by omega, rfl, guarded_sameOccupant addr le_rfl⟩
    · omega
  not_readLock j u h := by
    have hj9 := guarded_calls_lt h
    interval_cases j <;> cases Option.some.inj h
  keeps {l m c t} hl hlm hm := by
    have hm9 := guarded_calls_lt hm
    interval_cases m <;> cases Option.some.inj hm <;> nofun

theorem guarded_apart : (guarded 700).Apart := by
  have hobject {x : SyncObject} (hx : (guarded 700).Uses x) :
      x = .mutex 0 600 ∨ x = .mutex 1 700 := by
    obtain ⟨c, hc, hx⟩ := hx
    obtain ⟨k, hk⟩ := List.mem_iff_getElem?.mp hc
    have hk9 := guarded_calls_lt hk
    interval_cases k <;> cases Option.some.inj hk <;> cases hx <;> simp
  intro x y hx hy hkey
  rcases hobject hx with rfl | rfl <;> rcases hobject hy with rfl | rfl <;>
    first | rfl | cases hkey

theorem guarded_mutexes_apart :
    (∃ a, (guarded 700).SyncEdge 4 0 6 1 a) ∧
      ((guarded 700).run.state 6).syncClocks 600 = ((guarded 700).run.state 5).syncClocks 600 ∧
      ∀ report, Op.found ((guarded 700).run.state 7) (.memoryAccess 1000 64 8 1 1 true) =
        some report → report.sabOffset ≠ 8 := by
  obtain ⟨hedge, hframe, hlocked⟩ := (guarded 700).mutexes_apart guarded_apart
  have hnoWrap := (guarded 700).run.noWrap_of_length (by decide)
  refine ⟨hedge.mpr ⟨.mutex 0 600, by decide, ⟨_, rfl, rfl⟩, ⟨_, rfl, rfl⟩, ?_⟩, ?_, ?_⟩
  · intro m c hm hm6 hc
    obtain rfl : m = 5 := by omega
    cases Option.some.inj hc
    nofun
  · exact hframe (k := 5) rfl (y := .mutex 0 600) ⟨_, .tail _ (.tail _ (.head _)), rfl⟩ (by nofun)
  · exact fun report hf ↦ hlocked hnoWrap (guarded_locked 700) (k := 7) rfl hf

/-- Thread 0 unlocks a mutex of memory 0. Thread 1 locks the mutex at this address in memory 1. -/
def twoMemories : SyncProgram :=
  .ofCalls [.other (.threadCreate uint32Max) rfl, .other (.threadCreate uint32Max) rfl,
    .mutex (.unlock 0) 0 600, .mutex (.postLock 1) 1 600] (by decide)

/-- Creating a mutex in one memory makes the detector forget the last unlock of the mutex at this
address in another memory, and writes that are ordered by the mutex are reported. Locking a mutex of
one memory orders the thread after unlocks in another memory. -/
theorem exists_interference :
    (∃ (p : SyncProgram) (bs byte memory addr i j k : ℕ) (t u : Tid), p.run.NoWrap ∧
      p.Locked bs byte memory addr ∧ p.Synchronizes i t j u (.mutex memory addr) ∧
      (¬∃ a, p.SyncEdge i t j u a) ∧ p.run.Accesses k bs byte u true ∧ p.run.FindsRace k) ∧
    ∃ (p : SyncProgram) (i j a : ℕ) (t u : Tid), p.SyncEdge i t j u a ∧
      ¬∃ x, p.Synchronizes i t j u x := by
  refine ⟨⟨guarded 600, 1000, 8, 0, 600, 4, 6, 7, 0, 1, Run.noWrap_of_length _ (by decide),
    guarded_locked 600, ⟨by decide, ⟨_, rfl, rfl⟩, ⟨_, rfl, rfl⟩, ?_⟩, ?_,
    ⟨64, 8, 1, rfl, le_rfl, by decide⟩, ⟨_, rfl, by decide⟩⟩, ?_⟩
  · intro m c hm hm6 hc
    obtain rfl : m = 5 := by omega
    cases Option.some.inj hc
    nofun
  · rintro ⟨a, -, hr, -, hkeep⟩
    obtain ⟨o, ho, hr⟩ := hr
    cases Option.some.inj ho
    cases hr
    exact hkeep (m := 5) (by decide) (by decide) rfl rfl
  · refine ⟨twoMemories, 2, 3, 600, 0, 1, ⟨by decide, ⟨_, rfl, rfl⟩, ⟨_, rfl, rfl⟩,
      fun m _ hm hm3 ↦ by omega⟩, ?_⟩
    rintro ⟨x, -, ⟨c, hc, hr⟩, ⟨c', hc', ha⟩, -⟩
    cases Option.some.inj hc
    cases Option.some.inj hc'
    cases hr
    cases ha

end SyncProgram

end WebTSan
