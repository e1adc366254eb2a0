import WebTSan.Access
import WebTSan.Clocks

/-!
# The happens-before order of a run

A point `(k, t)` of a run is the thread in slot `t` after the first `k` calls. `Run.Edge` lists the
ways in which the calls order points: program order within one occupant of a slot, thread creation,
termination and joining, absorbing a slot, synchronization addresses and messages. The
happens-before order is the transitive closure. An access at position `k` by thread `t` is made at
the point `(k, t)`.

The order is defined from the calls alone, without looking at clocks. The main theorem connects the
two: between points of threads, happens-before is the flow of clocks of `WebTSan.Clocks`.

## Main definitions

* `WebTSan.Run.Edge`, `WebTSan.Run.HappensBefore`.
* `WebTSan.Detector.publishes`: the calls that hand the clock of a thread to another place.

## Main results

* `WebTSan.Run.happensBefore_iff_flow`.
* `WebTSan.Run.HappensBefore.clock_le`: clocks grow along happens-before.
* `WebTSan.Run.exists_publication`: a component known to another thread was published by its owner,
  at a point that happens before.
-/

namespace WebTSan

open Relation

namespace Op

/-- The thread and the address of `Release` and `MutexUnlock`. -/
def releases : Op → Option (Tid × ℕ)
  | .release t a | .mutexUnlock t a => some (t, a)
  | _ => none

/-- The thread and the address of `Acquire`, `MutexPostLock` and `MutexReadLock`. -/
def acquires : Op → Option (Tid × ℕ)
  | .acquire t a | .mutexPostLock t a | .mutexReadLock t a => some (t, a)
  | _ => none

/-- The address of `MutexCreate` and `MutexDestroy`. -/
def erases : Op → Option ℕ
  | .mutexCreate a | .mutexDestroy a => some a
  | _ => none

/-- What a call does to the entry of an address in the map of sync clocks. -/
theorem exec_syncClocks {s s' : Detector} {o : Op} (he : s.enabled = true)
    (h : o.exec s = some s') (a : ℕ) :
    s'.syncClocks a =
      if o.erases = some a then none
      else match o.releases with
        | some (t, b) =>
          if b = a then some (((s.syncClocks a).getD VClock.empty).join (s.threadClocks t))
          else s.syncClocks a
        | none => s.syncClocks a := by
  cases o with
  | threadCreate p =>
    obtain ⟨⟨t, s''⟩, hc, rfl⟩ := Option.map_eq_some_iff.mp h
    obtain ⟨-, rfl⟩ := Detector.threadCreate_eq_some_iff.mp hc
    rfl
  | release t b | mutexUnlock t b =>
    obtain rfl := Option.some.inj h
    by_cases hb : b = a
    · subst hb
      simp [Detector.release, Detector.mutexUnlock, he, Detector.publishSync, erases, releases]
    · simp [Detector.release, Detector.mutexUnlock, he, Detector.publishSync, erases, releases, hb,
        Ne.symm hb]
  | mutexCreate b | mutexDestroy b =>
    obtain rfl := Option.some.inj h
    by_cases hb : b = a
    · subst hb
      simp [Detector.mutexCreate, Detector.mutexDestroy, he, Detector.eraseSync, erases]
    · simp [Detector.mutexCreate, Detector.mutexDestroy, he, Detector.eraseSync, erases, releases,
        hb, Ne.symm hb]
  | clearShadow bs off size =>
    obtain ⟨shadows, rfl⟩ := Detector.clearShadow_eq h
    rfl
  | memoryAccess bs len off size t w =>
    obtain rfl := Option.some.inj h
    obtain ⟨_, _, _, _, _, hs, -⟩ := s.memoryAccess_eq he bs len off size t w
    rw [hs]
    rfl
  | happensAfter r id =>
    obtain rfl := Option.some.inj h
    obtain ⟨clocks, edges, hs⟩ := s.happensAfter_eq r id
    rw [hs]
    rfl
  | acquire t b | mutexPostLock t b | mutexReadLock t b =>
    obtain rfl := Option.some.inj h
    obtain ⟨clocks, hs⟩ := s.joinSync_eq t b
    simp [Detector.acquire, Detector.mutexPostLock, Detector.mutexReadLock, he, hs, erases,
      releases]
  | threadAbsorb d t =>
    obtain rfl := Option.some.inj h
    obtain ⟨clocks, hs⟩ := s.threadAbsorb_eq d t
    rw [hs]
    rfl
  | _ =>
    obtain rfl := Option.some.inj h
    simp [erases, releases, Detector.threadFinish, Detector.threadDestroy, Detector.threadJoin,
      Detector.threadDetach, Detector.mutexPreLock, Detector.mutexReadUnlock,
      Detector.happensBefore, Detector.removeShadow, he]

end Op

namespace Detector

variable (s : Detector)

/-- A call retires a thread: its clock goes to the orphan clock. -/
def Retires (t : Tid) (o : Op) : Prop :=
  o = .threadFinish t ∨ o = .threadDestroy t ∧ s.threadAlive t = true

/-- The call hands the clock of `t` to another place. -/
def publishes (t : Tid) : Op → Bool
  | .threadCreate p => s.liveParent s.nextSlot p = some t
  | .threadFinish u => u = t
  | .threadDestroy u => u = t && s.threadAlive t
  | .threadJoin _ c => c = t
  | .threadAbsorb _ c => c = t
  | .release u _ | .mutexUnlock u _ => u = t
  | .happensBefore u => u = t
  | _ => false

/-! ### Reading the table of sources -/

theorem mem_sources_thread {o : Op} {p : Place} {u : Tid} :
    p ∈ s.sources o (.thread u) ↔
      (p = .thread u ∧ ∀ q, o = .threadCreate q → u ≠ s.nextSlot) ∨
      (∃ q, o = .threadCreate q ∧ u = s.nextSlot ∧
        (p = .orphan ∨ ∃ parent, s.liveParent u q = some parent ∧ p = .thread parent)) ∨
      (∃ t, o = .threadFinish t ∧ u ≠ t ∧ s.threadAlive u = true ∧ p = .thread t) ∨
      (∃ c, (o = .threadJoin u c ∨ o = .threadAbsorb u c) ∧ p = .thread c) ∨
      (∃ a, o.acquires = some (u, a) ∧ p = .sync a) ∨
      ∃ id, o = .happensAfter u id ∧ id ≠ 0 ∧ p = .edge id := by
  cases o with
  | threadCreate q =>
    by_cases hu : u = s.nextSlot
    · subst hu
      cases hp : s.liveParent s.nextSlot q with
      | none => simp [sources, Op.acquires, hp]
      | some parent => simp [sources, Op.acquires, hp, or_comm]
    · simp [sources, Op.acquires, hu]
  | threadFinish t =>
    by_cases hu : u = t
    · subst hu
      simp [sources, Op.acquires]
    · by_cases ha : s.threadAlive u = true <;>
        simp [sources, Op.acquires, hu, ha]
  | threadJoin j c | threadAbsorb j c =>
    by_cases hu : u = j
    · subst hu
      simp [sources, Op.acquires]
    · simp [sources, Op.acquires, hu, Ne.symm hu]
  | acquire t a | mutexPostLock t a | mutexReadLock t a =>
    by_cases hu : u = t
    · subst hu
      simp [sources, Op.acquires]
    · simp [sources, Op.acquires, hu, Ne.symm hu]
  | happensAfter t id =>
    by_cases hu : u = t <;> by_cases hid : id = 0 <;>
      simp [sources, Op.acquires, hu, hid, Ne.symm]
  | _ => simp [sources, Op.acquires]

theorem mem_sources_sync {o : Op} {p : Place} {a : ℕ} :
    p ∈ s.sources o (.sync a) ↔
      (p = .sync a ∧ o.erases ≠ some a) ∨ ∃ t, o.releases = some (t, a) ∧ p = .thread t := by
  cases o with
  | release t b | mutexUnlock t b =>
    by_cases hb : a = b
    · subst hb
      simp [sources, Op.erases, Op.releases]
    · simp [sources, Op.erases, Op.releases, hb, Ne.symm hb]
  | mutexCreate b | mutexDestroy b =>
    by_cases hb : a = b
    · subst hb
      simp [sources, Op.erases, Op.releases]
    · simp [sources, Op.erases, Op.releases, hb, Ne.symm hb]
  | _ => simp [sources, Op.erases, Op.releases]

/-- The clock of an address grows, until it is erased. -/
theorem le_clockOf_sync {s s' : Detector} {o : Op} (he : s.enabled = true)
    (h : o.exec s = some s') {a : ℕ} (ha : o.erases ≠ some a) :
    s.clockOf (.sync a) ≤ s'.clockOf (.sync a) := by
  intro t
  rw [exec_clockOf he h, nextClock_of_ne _ (by nofun)]
  exact Finset.le_sup (f := fun q ↦ s.clockOf q t) (s.mem_sources_sync.mpr (.inl ⟨rfl, ha⟩))

theorem mem_sources_edge {o : Op} {p : Place} {id : ℕ} :
    p ∈ s.sources o (.edge id) ↔
      (p = .edge id ∧ (∀ u, ¬(o = .happensAfter u id ∧ id ≠ 0)) ∧
        ∀ t, ¬(o = .happensBefore t ∧ s.nextEdgeId = id)) ∨
      ∃ t, (o = .happensBefore t ∧ s.nextEdgeId = id) ∧ p = .thread t := by
  cases o with
  | happensBefore t =>
    by_cases hid : id = s.nextEdgeId
    · subst hid
      simp [sources]
    · simp [sources, hid, Ne.symm hid]
  | happensAfter t e =>
    by_cases hid : id = e
    · subst hid
      by_cases h0 : id = 0 <;> simp [sources, h0]
    · simp [sources, hid, Ne.symm hid]
  | _ => simp [sources]

theorem mem_sources_orphan {o : Op} {p : Place} :
    p ∈ s.sources o .orphan ↔ p = .orphan ∨ ∃ t, s.Retires t o ∧ p = .thread t := by
  cases o with
  | threadDestroy t =>
    by_cases ha : s.threadAlive t = true
    · simp [sources, Retires, ha]
    · simp only [sources, ha, Retires]
      simp
      grind
  | _ => simp [sources, Retires]

/-- Only publications move the clock of a thread out of its slot. -/
theorem publishes_of_mem_sources {o : Op} {p : Place} {t : Tid} (hp : p ≠ .thread t)
    (hmem : .thread t ∈ s.sources o p) : s.publishes t o = true := by
  cases p with
  | thread u =>
    rcases s.mem_sources_thread.mp hmem with ⟨h, -⟩ | ⟨q, rfl, rfl, h | ⟨parent, hq, h⟩⟩ |
      ⟨_, rfl, -, -, h⟩ | ⟨_, rfl | rfl, h⟩ | ⟨_, -, h⟩ | ⟨_, -, -, h⟩
    · exact absurd h.symm hp
    · cases h
    · obtain rfl := Place.thread.inj h
      simpa [publishes] using hq
    · obtain rfl := Place.thread.inj h
      simp [publishes]
    · obtain rfl := Place.thread.inj h
      simp [publishes]
    · obtain rfl := Place.thread.inj h
      simp [publishes]
    · cases h
    · cases h
  | sync a =>
    rcases s.mem_sources_sync.mp hmem with ⟨h, -⟩ | ⟨_, ho, h⟩
    · cases h
    · obtain rfl := Place.thread.inj h
      cases o <;> simp_all [publishes, Op.releases]
  | edge id =>
    rcases s.mem_sources_edge.mp hmem with ⟨h, -⟩ | ⟨_, ⟨rfl, -⟩, h⟩
    · cases h
    · obtain rfl := Place.thread.inj h
      simp [publishes]
  | orphan =>
    rcases s.mem_sources_orphan.mp hmem with h | ⟨_, rfl | ⟨rfl, ha⟩, h⟩
    · cases h
    · obtain rfl := Place.thread.inj h
      simp [publishes]
    · obtain rfl := Place.thread.inj h
      simp [publishes, ha]

end Detector

namespace Run

variable (r : Run)

/-- Thread `t` retires at position `i`. -/
def Retires (i : ℕ) (t : Tid) : Prop := ∃ o, r.ops[i]? = some o ∧ (r.state i).Retires t o

/-- Thread `t` publishes its clock at address `a` at position `i`. -/
def ReleasesAt (i : ℕ) (t : Tid) (a : ℕ) : Prop :=
  ∃ o, r.ops[i]? = some o ∧ o.releases = some (t, a)

/-- Thread `u` takes over the clock at address `a` at position `j`. -/
def AcquiresAt (j : ℕ) (u : Tid) (a : ℕ) : Prop :=
  ∃ o, r.ops[j]? = some o ∧ o.acquires = some (u, a)

/-- Thread `t` sends a message at position `i` and gets the edge id `id`. -/
def Sends (i : ℕ) (t : Tid) (id : ℕ) : Prop :=
  r.ops[i]? = some (.happensBefore t) ∧ (r.state i).nextEdgeId = id

/-- Thread `u` receives the message with the edge id `id` at position `j`. -/
def Receives (j : ℕ) (u : Tid) (id : ℕ) : Prop :=
  r.ops[j]? = some (.happensAfter u id) ∧ id ≠ 0

/-- No mutex is created or destroyed at address `a` between the positions `i` and `j`. -/
def KeepsSync (a i j : ℕ) : Prop :=
  ∀ ⦃m o⦄, i < m → m < j → r.ops[m]? = some o → o.erases ≠ some a

/-- The edge `id` is neither consumed nor used again between the positions `i` and `j`. -/
def KeepsEdge (id i j : ℕ) : Prop :=
  ∀ ⦃m⦄, i < m → m < j → (∀ u, ¬r.Receives m u id) ∧ ∀ t, ¬r.Sends m t id

/-- The slot `t` has the same occupant from point `i` to point `j`. -/
def SameOccupant (t : Tid) (i j : ℕ) : Prop := ∀ ⦃m⦄, i ≤ m → m < j → ¬r.Creates m t

/-- The edges of the happens-before order, between points of threads. -/
inductive Edge : ℕ × Tid → ℕ × Tid → Prop
  /-- Program order of one occupant of a slot. -/
  | programOrder {i j : ℕ} {t : Tid} (hij : i < j) (hj : j ≤ r.ops.length)
      (hsame : r.SameOccupant t i j) : Edge (i, t) (j, t)
  /-- Creating a thread with a live parent. -/
  | create {k p : ℕ} {parent child : Tid} (ho : r.ops[k]? = some (.threadCreate p))
      (hc : r.Creates k child) (hp : (r.state k).liveParent child p = some parent) :
      Edge (k, parent) (k + 1, child)
  /-- A thread that has retired precedes every thread created later. -/
  | orphan {i j : ℕ} {t child : Tid} (hij : i < j) (hr : r.Retires i t) (hc : r.Creates j child) :
      Edge (i, t) (j + 1, child)
  /-- A thread that finishes precedes what the other live threads do from then on. -/
  | finish {k : ℕ} {t u : Tid} (ho : r.ops[k]? = some (.threadFinish t)) (hu : u ≠ t)
      (ha : (r.state k).threadAlive u = true) : Edge (k, t) (k + 1, u)
  /-- Joining a thread. -/
  | join {k : ℕ} {joiner child : Tid} (ho : r.ops[k]? = some (.threadJoin joiner child)) :
      Edge (k, child) (k + 1, joiner)
  /-- Taking over the clock of another slot. -/
  | absorb {k : ℕ} {dst src : Tid} (ho : r.ops[k]? = some (.threadAbsorb dst src)) :
      Edge (k, src) (k + 1, dst)
  /-- From a release of an address to a later acquire of it. -/
  | sync {i j a : ℕ} {t u : Tid} (hij : i < j) (hr : r.ReleasesAt i t a)
      (ha : r.AcquiresAt j u a) (hkeep : r.KeepsSync a i j) : Edge (i, t) (j + 1, u)
  /-- From sending a message to receiving it. -/
  | message {i j id : ℕ} {t u : Tid} (hij : i < j) (hs : r.Sends i t id) (hr : r.Receives j u id)
      (hkeep : r.KeepsEdge id i j) : Edge (i, t) (j + 1, u)

/-- The happens-before order of a run. -/
def HappensBefore : ℕ × Tid → ℕ × Tid → Prop := TransGen r.Edge

variable {r}

theorem creates_iff {k : ℕ} {t : Tid} :
    r.Creates k t ↔ ∃ p, r.ops[k]? = some (.threadCreate p) ∧ (r.state k).nextSlot = t := by
  constructor
  · rintro ⟨p, ho, hc⟩
    exact ⟨p, ho, (r.state k).nextSlot_eq (Detector.threadCreate_eq_some_iff.mp hc).1⟩
  · rintro ⟨p, ho, rfl⟩
    obtain ⟨⟨t, s'⟩, hc, hs'⟩ := Option.map_eq_some_iff.mp (r.step ho)
    obtain rfl : s' = r.state (k + 1) := hs'
    have ht := (r.state k).nextSlot_eq (Detector.threadCreate_eq_some_iff.mp hc).1
    exact ⟨p, ho, ht ▸ hc⟩

theorem lt_length_of_getElem? {k : ℕ} {o : Op} (h : r.ops[k]? = some o) : k < r.ops.length :=
  (List.getElem?_eq_some_iff.mp h).1

theorem Creates.lt_length {k : ℕ} {t : Tid} (h : r.Creates k t) : k < r.ops.length := by
  obtain ⟨p, ho, -⟩ := h
  exact lt_length_of_getElem? ho

/-- The slot of a thread keeps its clock as long as it has the same occupant. -/
theorem mem_sources_self {k : ℕ} (hk : k < r.ops.length) {t : Tid} (h : ¬r.Creates k t) :
    Place.thread t ∈ r.history.sources k (.thread t) := by
  have ho := List.getElem?_eq_getElem hk
  rw [r.history_sources ho, Detector.mem_sources_thread]
  refine .inl ⟨rfl, fun q hq ht ↦ h (creates_iff.mpr ⟨q, ?_, ht.symm⟩)⟩
  rw [ho, hq]

/-! ### The clock of an address -/

theorem KeepsSync.succ {a i k : ℕ} (h : r.KeepsSync a i k) {o : Op} (ho : r.ops[k]? = some o)
    (hk : o.erases ≠ some a) : r.KeepsSync a i (k + 1) := by
  intro m o' hm hmk ho'
  rcases Nat.lt_succ_iff_lt_or_eq.mp hmk with hmk | rfl
  · exact h hm hmk ho'
  · rwa [← Option.some.inj (ho.symm.trans ho')]

/-- The clock of an address is the join of the clocks that were released there and have not been
erased since. -/
theorem le_syncClock_iff {k : ℕ} (hk : k ≤ r.ops.length) {a x : ℕ} (hx : 0 < x) (v : Tid) :
    x ≤ (r.state k).clockOf (.sync a) v ↔
      ∃ i < k, ∃ t, r.ReleasesAt i t a ∧ r.KeepsSync a i k ∧ x ≤ (r.state i).threadClocks t v := by
  induction k with
  | zero =>
    rw [r.state_zero]
    constructor
    · exact fun h ↦ absurd h (not_le_of_gt hx)
    · rintro ⟨i, hi, -⟩
      exact absurd hi (Nat.not_lt_zero i)
  | succ k ih =>
    have ho := List.getElem?_eq_getElem hk
    have hstep := Detector.exec_clockOf (r.enabled (Nat.le_of_succ_le hk)) (r.step ho) (.sync a)
    rw [hstep, Detector.nextClock_of_ne _ (by nofun), Detector.joined, Finset.le_sup_iff hx]
    constructor
    · rintro ⟨p, hp, hle⟩
      rcases (Detector.mem_sources_sync _).mp hp with ⟨rfl, her⟩ | ⟨t, hr, rfl⟩
      · obtain ⟨i, hi, t, hr, hkeep, hle⟩ := (ih (Nat.le_of_succ_le hk)).mp hle
        exact ⟨i, Nat.lt_succ_of_lt hi, t, hr, hkeep.succ ho her, hle⟩
      · exact ⟨k, Nat.lt_succ_self k, t, ⟨_, ho, hr⟩, fun m _ hm hmk ↦ by omega, hle⟩
    · rintro ⟨i, hi, t, hr, hkeep, hle⟩
      rcases Nat.lt_succ_iff_lt_or_eq.mp hi with hi | rfl
      · refine ⟨.sync a, ?_, (ih (Nat.le_of_succ_le hk)).mpr ⟨i, hi, t, hr, ?_, hle⟩⟩
        · exact (Detector.mem_sources_sync _).mpr (.inl ⟨rfl, hkeep hi (Nat.lt_succ_self k) ho⟩)
        · exact fun m o hm hmk ↦ hkeep hm (Nat.lt_succ_of_lt hmk)
      · obtain ⟨o, ho', hr⟩ := hr
        obtain rfl := Option.some.inj (ho.symm.trans ho')
        exact ⟨.thread t, (Detector.mem_sources_sync _).mpr (.inr ⟨t, hr, rfl⟩), hle⟩

/-- A clock that is released stays in the clock of the address until it is erased. -/
theorem ReleasesAt.clock_le {i k a : ℕ} {t : Tid} (h : r.ReleasesAt i t a) (hik : i < k)
    (hk : k ≤ r.ops.length) (hkeep : r.KeepsSync a i k) :
    (r.state i).threadClocks t ≤ (r.state k).clockOf (.sync a) := by
  intro v
  rcases Nat.eq_zero_or_pos ((r.state i).threadClocks t v) with hx | hx
  · rw [hx]
    exact Nat.zero_le _
  · exact (le_syncClock_iff hk hx v).mpr ⟨i, hik, t, h, hkeep, le_rfl⟩

/-- An acquire takes over the clock of the address. -/
theorem AcquiresAt.clock_le {k a : ℕ} {u : Tid} (h : r.AcquiresAt k u a) :
    (r.state k).clockOf (.sync a) ≤ (r.state (k + 1)).threadClocks u := by
  obtain ⟨o, ho, ha⟩ := h
  have hk := (List.getElem?_eq_some_iff.mp ho).1.le
  have hstep := Detector.exec_clockOf (r.enabled hk) (r.step ho) (.thread u)
  rw [Detector.clockOf_thread] at hstep
  rw [hstep]
  cases o with
  | acquire t b | mutexPostLock t b | mutexReadLock t b =>
    obtain ⟨rfl, rfl⟩ := Prod.mk.inj (Option.some.inj ha)
    simp [Detector.nextClock, Detector.ticks, Detector.sources]
  | _ => cases ha

/-! ### Edges are flows -/

theorem SameOccupant.flow {t : Tid} {i j : ℕ} (h : r.SameOccupant t i j) (hij : i ≤ j)
    (hj : j ≤ r.ops.length) : r.history.Flow i (.thread t) j (.thread t) :=
  .stay hij hj fun _ hm hmj ↦ mem_sources_self (hmj.trans_le hj) (h hm hmj)

theorem Edge.flow {p q : ℕ × Tid} (h : r.Edge p q) :
    r.history.Flow p.1 (.thread p.2) q.1 (.thread q.2) := by
  have hsingle {k : ℕ} {o : Op} {x y : Place} (ho : r.ops[k]? = some o)
      (hx : x ∈ (r.state k).sources o y) : r.history.Flow k x (k + 1) y :=
    .single (lt_length_of_getElem? ho) (r.history_sources ho y ▸ hx)
  have hstay {i j : ℕ} {x : Place} (hij : i < j) (hj : j < r.ops.length)
      (hx : ∀ m o, i < m → m < j → r.ops[m]? = some o → x ∈ (r.state m).sources o x) :
      r.history.Flow (i + 1) x j x := by
    refine .stay hij hj.le fun m hm hmj ↦ ?_
    have ho := List.getElem?_eq_getElem (hmj.trans hj)
    exact r.history_sources ho x ▸ hx m _ hm hmj ho
  cases h with
  | programOrder hij hj hsame => exact hsame.flow hij.le hj
  | create ho hc hp =>
    obtain ⟨q, ho', hslot⟩ := creates_iff.mp hc
    refine hsingle ho (Detector.mem_sources_thread _ |>.mpr (.inr (.inl ?_)))
    exact ⟨_, rfl, hslot.symm, .inr ⟨_, hp, rfl⟩⟩
  | orphan hij hr hc =>
    obtain ⟨o, ho, hr⟩ := hr
    obtain ⟨q, ho', hslot⟩ := creates_iff.mp hc
    have h₁ := hsingle ho (Detector.mem_sources_orphan _ |>.mpr (.inr ⟨_, hr, rfl⟩))
    have h₂ := hsingle ho' (Detector.mem_sources_thread _ |>.mpr
      (.inr (.inl ⟨_, rfl, hslot.symm, .inl rfl⟩)))
    have hmid := hstay hij hc.lt_length fun m o _ _ _ ↦
      (Detector.mem_sources_orphan (r.state m)).mpr (.inl rfl)
    exact (h₁.trans hmid).trans h₂
  | finish ho hu ha =>
    exact hsingle ho (Detector.mem_sources_thread _ |>.mpr
      (.inr (.inr (.inl ⟨_, rfl, hu, ha, rfl⟩))))
  | join ho =>
    exact hsingle ho (Detector.mem_sources_thread _ |>.mpr
      (.inr (.inr (.inr (.inl ⟨_, .inl rfl, rfl⟩)))))
  | absorb ho =>
    exact hsingle ho (Detector.mem_sources_thread _ |>.mpr
      (.inr (.inr (.inr (.inl ⟨_, .inr rfl, rfl⟩)))))
  | sync hij hr ha hkeep =>
    obtain ⟨o, ho, hr⟩ := hr
    obtain ⟨o', ho', ha⟩ := ha
    have h₁ := hsingle ho (Detector.mem_sources_sync _ |>.mpr (.inr ⟨_, hr, rfl⟩))
    have h₂ := hsingle ho' (Detector.mem_sources_thread _ |>.mpr
      (.inr (.inr (.inr (.inr (.inl ⟨_, ha, rfl⟩))))))
    have hmid := hstay hij (lt_length_of_getElem? ho') fun m o hm hmj hom ↦
      (Detector.mem_sources_sync (r.state m)).mpr (.inl ⟨rfl, hkeep hm hmj hom⟩)
    exact (h₁.trans hmid).trans h₂
  | @message i j id t u hij hs hr hkeep =>
    have h₁ := hsingle hs.1 (Detector.mem_sources_edge _ |>.mpr (.inr ⟨_, ⟨rfl, hs.2⟩, rfl⟩))
    have h₂ := hsingle hr.1 (Detector.mem_sources_thread _ |>.mpr
      (.inr (.inr (.inr (.inr (.inr ⟨_, rfl, hr.2, rfl⟩))))))
    have hmid : r.history.Flow (i + 1) (.edge id) j (.edge id) := by
      refine hstay hij (lt_length_of_getElem? hr.1) fun m o hm hmj hom ↦ ?_
      refine (Detector.mem_sources_edge (r.state m)).mpr (.inl ⟨rfl, fun u hu ↦ ?_, fun t ht ↦ ?_⟩)
      · exact (hkeep hm hmj).1 u ⟨hu.1 ▸ hom, hu.2⟩
      · exact (hkeep hm hmj).2 t ⟨ht.1 ▸ hom, ht.2⟩
    exact (h₁.trans hmid).trans h₂

theorem Edge.lt {p q : ℕ × Tid} (h : r.Edge p q) : p.1 < q.1 := by
  cases h with
  | programOrder hij => exact hij
  | create | finish | join | absorb => exact Nat.lt_succ_self _
  | orphan hij | sync hij | message hij => exact Nat.lt_succ_of_lt hij

theorem HappensBefore.flow {p q : ℕ × Tid} (h : r.HappensBefore p q) :
    r.history.Flow p.1 (.thread p.2) q.1 (.thread q.2) := by
  induction h with
  | single h => exact h.flow
  | tail _ h ih => exact ih.trans h.flow

theorem HappensBefore.lt {p q : ℕ × Tid} (h : r.HappensBefore p q) : p.1 < q.1 := by
  induction h with
  | single h => exact h.lt
  | tail _ h ih => exact ih.trans h.lt

theorem SameOccupant.mono {t : Tid} {i j i' j' : ℕ} (h : r.SameOccupant t i j) (hi : i ≤ i')
    (hj : j' ≤ j) : r.SameOccupant t i' j' :=
  fun _ hm hmj ↦ h (hi.trans hm) (hmj.trans_le hj)

theorem HappensBefore.programOrder {x : ℕ × Tid} {i j : ℕ} {u : Tid}
    (h : r.HappensBefore x (i, u)) (hsame : r.SameOccupant u i j) (hij : i ≤ j)
    (hj : j ≤ r.ops.length) : r.HappensBefore x (j, u) := by
  rcases hij.eq_or_lt with rfl | hij
  · exact h
  · exact h.tail (.programOrder hij hj hsame)

/-- Clocks grow along happens-before: what a thread knows, every later point knows. -/
theorem HappensBefore.clock_le (hw : r.NoWrap) {i k : ℕ} {t u : Tid}
    (h : r.HappensBefore (i, t) (k, u)) (v : Tid) :
    (r.state i).threadClocks t v ≤ (r.state k).threadClocks u v :=
  h.flow.clock_le hw.steady v

/-! ### Flows are edges -/

/-- Where the clock of a thread has gone, in terms of happens-before: into a thread, or into
another place by a point that is not before it. -/
def Reached (r : Run) (p : ℕ × Tid) (k : ℕ) : Place → Prop
  | .thread u => ReflTransGen r.Edge p (k, u)
  | .sync a => ∃ j t, j < k ∧ r.ReleasesAt j t a ∧ r.KeepsSync a j k ∧ ReflTransGen r.Edge p (j, t)
  | .edge id => ∃ j t, j < k ∧ r.Sends j t id ∧ r.KeepsEdge id j k ∧ ReflTransGen r.Edge p (j, t)
  | .orphan => ∃ j t, j < k ∧ r.Retires j t ∧ ReflTransGen r.Edge p (j, t)

theorem KeepsEdge.succ {id i k : ℕ} (h : r.KeepsEdge id i k) (hr : ∀ u, ¬r.Receives k u id)
    (hs : ∀ t, ¬r.Sends k t id) : r.KeepsEdge id i (k + 1) := by
  intro m hm hmk
  rcases Nat.lt_succ_iff_lt_or_eq.mp hmk with hmk | rfl
  · exact h hm hmk
  · exact ⟨hr, hs⟩

/-- Joining places moves the clock on as the edges say. -/
theorem Reached.step {p : ℕ × Tid} {k : ℕ} {x y : Place} (h : r.Reached p k x)
    (hk : k < r.ops.length) (hx : x ∈ r.history.sources k y) : r.Reached p (k + 1) y := by
  have ho := List.getElem?_eq_getElem hk
  rw [r.history_sources ho] at hx
  generalize r.ops[k] = o at ho hx
  cases y with
  | thread u =>
    rcases (Detector.mem_sources_thread _).mp hx with ⟨rfl, hsame⟩ |
      ⟨q, rfl, hu, rfl | ⟨_, hp, rfl⟩⟩ | ⟨t, rfl, hu, ha, rfl⟩ |
      ⟨c, rfl | rfl, rfl⟩ | ⟨a, ha, rfl⟩ | ⟨id, rfl, hid, rfl⟩
    · refine ReflTransGen.tail h (.programOrder (Nat.lt_succ_self k) hk ?_)
      intro m hm hmk hc
      obtain rfl : m = k := by omega
      obtain ⟨q, ho', hslot⟩ := creates_iff.mp hc
      exact hsame q (Option.some.inj (ho.symm.trans ho')) hslot.symm
    · obtain ⟨j, t, hj, hr, hreach⟩ := h
      exact hreach.tail (.orphan hj hr (creates_iff.mpr ⟨q, ho, hu.symm⟩))
    · exact ReflTransGen.tail h (.create ho (creates_iff.mpr ⟨q, ho, hu.symm⟩) hp)
    · exact ReflTransGen.tail h (.finish ho hu ha)
    · exact ReflTransGen.tail h (.join ho)
    · exact ReflTransGen.tail h (.absorb ho)
    · obtain ⟨j, t, hj, hr, hkeep, hreach⟩ := h
      exact hreach.tail (.sync hj hr ⟨o, ho, ha⟩ hkeep)
    · obtain ⟨j, t, hj, hs, hkeep, hreach⟩ := h
      exact hreach.tail (.message hj hs ⟨ho, hid⟩ hkeep)
  | sync a =>
    rcases (Detector.mem_sources_sync _).mp hx with ⟨rfl, hne⟩ | ⟨t, hr, rfl⟩
    · obtain ⟨j, t, hj, hr, hkeep, hreach⟩ := h
      exact ⟨j, t, Nat.lt_succ_of_lt hj, hr, hkeep.succ ho hne, hreach⟩
    · exact ⟨k, t, Nat.lt_succ_self k, ⟨o, ho, hr⟩, fun m _ hm hmk ↦ by omega, h⟩
  | edge id =>
    rcases (Detector.mem_sources_edge _).mp hx with ⟨rfl, hr, hs⟩ | ⟨t, ⟨rfl, hid⟩, rfl⟩
    · obtain ⟨j, t, hj, hsend, hkeep, hreach⟩ := h
      refine ⟨j, t, Nat.lt_succ_of_lt hj, hsend, hkeep.succ ?_ ?_, hreach⟩
      · exact fun u hu ↦ hr u ⟨Option.some.inj (ho.symm.trans hu.1), hu.2⟩
      · exact fun t ht ↦ hs t ⟨Option.some.inj (ho.symm.trans ht.1), ht.2⟩
    · exact ⟨k, t, Nat.lt_succ_self k, ⟨ho, hid⟩, fun m hm hmk ↦ by omega, h⟩
  | orphan =>
    rcases (Detector.mem_sources_orphan _).mp hx with rfl | ⟨t, hr, rfl⟩
    · obtain ⟨j, t, hj, hr, hreach⟩ := h
      exact ⟨j, t, Nat.lt_succ_of_lt hj, hr, hreach⟩
    · exact ⟨k, t, Nat.lt_succ_self k, ⟨o, ho, hr⟩, h⟩

theorem Reached.flow {p : ℕ × Tid} {i k : ℕ} {x y : Place} (h : r.Reached p i x)
    (hflow : r.history.Flow i x k y) : r.Reached p k y := by
  induction hflow with
  | refl => exact h
  | tail _ hj hq ih => exact (ih h).step hj hq

/-- Between points of threads, happens-before is the flow of clocks. -/
theorem happensBefore_iff_flow {i k : ℕ} {t u : Tid} : r.HappensBefore (i, t) (k, u) ↔
    i < k ∧ r.history.Flow i (.thread t) k (.thread u) := by
  constructor
  · exact fun h ↦ ⟨h.lt, h.flow⟩
  · rintro ⟨hik, h⟩
    have hstart : r.Reached (i, t) i (.thread t) := ReflTransGen.refl
    have hreach : ReflTransGen r.Edge (i, t) (k, u) := hstart.flow h
    rcases reflTransGen_iff_eq_or_transGen.mp hreach with heq | h
    · obtain ⟨rfl, -⟩ := Prod.mk.inj heq
      exact absurd hik (lt_irrefl _)
    · exact h

/-- Thread `t` publishes its clock in the call at position `q`. -/
def Publishes (r : Run) (q : ℕ) (t : Tid) : Prop :=
  ∃ o, r.ops[q]? = some o ∧ (r.state q).publishes t o = true

/-- A step that takes the clock of `t` to another place, from where it flows to a thread, is a
publication that happens before. -/
theorem publishes_of_flow {q k : ℕ} {t u : Tid} {x : Place} (hq : q < r.ops.length)
    (hx : x ≠ .thread t) (hsrc : .thread t ∈ r.history.sources q x)
    (hflow : r.history.Flow (q + 1) x k (.thread u)) :
    r.Publishes q t ∧ r.HappensBefore (q, t) (k, u) := by
  have ho := List.getElem?_eq_getElem hq
  have hsrc' := hsrc
  rw [r.history_sources ho] at hsrc'
  refine ⟨⟨_, ho, Detector.publishes_of_mem_sources _ hx hsrc'⟩, happensBefore_iff_flow.mpr ?_⟩
  exact ⟨hflow.le, (ClockFlow.History.Flow.single hq hsrc).trans hflow⟩

theorem history_clock_zero (r : Run) (t : Tid) :
    ∀ p, p ≠ r.history.home t → r.history.clock 0 p t = ⊥ := by
  intro p _
  rw [history_clock, r.state_zero]
  cases p <;> rfl

/-- What another thread knows about the component of `t` was published by `t`, at a point that
happens before. -/
theorem exists_publication (r : Run) {k v : ℕ} (hk : k ≤ r.ops.length) {t u : Tid} (hu : u ≠ t)
    (hv : 0 < v) (hle : v ≤ (r.state k).threadClocks u t) :
    ∃ q < k, r.Publishes q t ∧ v ≤ (r.state q).threadClocks t t ∧
      r.HappensBefore (q, t) (k, u) := by
  have hne : Place.thread u ≠ .thread t := fun h ↦ hu (Place.thread.inj h)
  obtain ⟨q, hq, x, hx, hsrc, hle', hflow⟩ :=
    ClockFlow.History.exists_publication (r.history_clock_zero t) hv hk hne hle
  obtain ⟨hp, hb⟩ := publishes_of_flow (hq.trans_le hk) hx hsrc hflow
  exact ⟨q, hq, hp, hle', hb⟩

end Run

end WebTSan
