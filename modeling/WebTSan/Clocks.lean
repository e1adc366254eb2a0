import WebTSan.ClockFlow
import WebTSan.Run

/-!
# The detector as a machine of joining clocks

The clocks of the detector live in four kinds of places: thread slots, sync addresses, message edges
and the orphan clock. `Detector.sources` tables, for every call and every place, the places whose
clocks are joined into it. `Detector.exec_clockOf` says that this table and the tick of at most one
thread are all that a call does to clocks: the detector refines the clock machine of
`WebTSan.ClockFlow`, and `Run.history` is the instance. Everything proved later about the order of
clocks comes from this one description of a step.

## Main definitions

* `WebTSan.Place`, `WebTSan.Detector.clockOf`.
* `WebTSan.Detector.sources`, `WebTSan.Detector.ticks`.
* `WebTSan.Run.history`, `WebTSan.Run.NoWrap`.

## Main results

* `WebTSan.Detector.exec_clockOf`: the clocks after a call.
* `WebTSan.Run.NoWrap.steady`: ticks do not decrease counters unless one reaches `2 ^ 64`.
* `WebTSan.Run.noWrap_of_length`: no counter reaches `2 ^ 64` in fewer than `2 ^ 64` calls.
-/

namespace WebTSan

/-- A place of the detector that holds a clock. -/
inductive Place
  | thread (tid : Tid)
  | sync (addr : ℕ)
  | edge (id : ℕ)
  | orphan
deriving DecidableEq

namespace Detector

variable (s : Detector)

/-- The clock held at a place; a missing entry of a map is a zero clock. -/
def clockOf : Place → VClock
  | .thread tid => s.threadClocks tid
  | .sync addr => (s.syncClocks addr).getD VClock.empty
  | .edge id => (s.hbEdges id).getD VClock.empty
  | .orphan => s.orphanClock

/-- The slot that `ThreadCreate` would occupy. -/
def nextSlot : Tid := if h : s.findSlot < kMaxThreads then ⟨s.findSlot, h⟩ else 0

/-- The places whose clocks a call joins into a place. -/
def sources (o : Op) : Place → Finset Place
  | .thread u =>
    match o with
    | .threadCreate p =>
      if u = s.nextSlot then
        match s.liveParent u p with
        | some parent => {.thread parent, .orphan}
        | none => {.orphan}
      else {.thread u}
    | .threadFinish t =>
      if u = t ∨ s.threadAlive u = false then {.thread u} else {.thread u, .thread t}
    | .threadJoin j c => if u = j then {.thread u, .thread c} else {.thread u}
    | .threadAbsorb d c => if u = d then {.thread u, .thread c} else {.thread u}
    | .acquire t a | .mutexPostLock t a | .mutexReadLock t a =>
      if u = t then {.thread u, .sync a} else {.thread u}
    | .happensAfter t id => if u = t ∧ id ≠ 0 then {.thread u, .edge id} else {.thread u}
    | _ => {.thread u}
  | .sync a =>
    match o with
    | .release t b | .mutexUnlock t b => if a = b then {.sync a, .thread t} else {.sync a}
    | .mutexCreate b | .mutexDestroy b => if a = b then ∅ else {.sync a}
    | _ => {.sync a}
  | .edge id =>
    match o with
    | .happensBefore t => if id = s.nextEdgeId then {.thread t} else {.edge id}
    | .happensAfter _ e => if id = e ∧ e ≠ 0 then ∅ else {.edge id}
    | _ => {.edge id}
  | .orphan =>
    match o with
    | .threadFinish t => {.orphan, .thread t}
    | .threadDestroy t => if s.threadAlive t = true then {.orphan, .thread t} else {.orphan}
    | _ => {.orphan}

/-- The thread whose own counter a call increments, with the counter before the increment. -/
def ticks : Op → Option (Tid × ℕ)
  | .threadCreate p => some (s.nextSlot, s.birthClock s.nextSlot p s.nextSlot)
  | .release t _ | .mutexUnlock t _ => some (t, s.threadClocks t t)
  | _ => none

/-- The join of the clocks of a set of places. -/
def joined (places : Finset Place) : VClock := fun t ↦ places.sup fun q ↦ s.clockOf q t

/-- The clock of a place after its sources are joined, ticked if the call ticks there. -/
def nextClock (o : Op) (p : Place) : VClock :=
  match s.ticks o with
  | some (t, _) =>
    if p = .thread t then (s.joined (s.sources o p)).increment t else s.joined (s.sources o p)
  | none => s.joined (s.sources o p)

@[simp] theorem joined_empty : s.joined ∅ = ⊥ := rfl

@[simp] theorem joined_singleton (p : Place) : s.joined {p} = s.clockOf p := by
  funext t
  exact Finset.sup_singleton

@[simp] theorem joined_insert (p : Place) (places : Finset Place) :
    s.joined (insert p places) = s.clockOf p ⊔ s.joined places := by
  funext t
  exact Finset.sup_insert

@[simp] theorem clockOf_thread (t : Tid) : s.clockOf (.thread t) = s.threadClocks t := rfl

@[simp] theorem clockOf_orphan : s.clockOf .orphan = s.orphanClock := rfl

theorem clockOf_joinSync (t : Tid) (a : ℕ) (p : Place) :
    (s.joinSync t a).clockOf p =
      if p = .thread t then s.clockOf p ⊔ s.clockOf (.sync a) else s.clockOf p := by
  unfold joinSync
  cases h : s.syncClocks a with
  | none => split_ifs with hp <;> simp [clockOf, h, VClock.empty_eq_bot]
  | some clk =>
    cases p with
    | thread u =>
      by_cases hu : u = t
      · subst hu
        simp [clockOf, h, VClock.join_eq_sup]
      · simp [clockOf, hu]
    | _ => simp [clockOf]

theorem clockOf_publishSync (t : Tid) (a : ℕ) (p : Place) :
    (s.publishSync t a).clockOf p =
      if p = .thread t then (s.clockOf p).increment t
      else if p = .sync a then s.clockOf p ⊔ s.clockOf (.thread t) else s.clockOf p := by
  cases p with
  | thread u =>
    by_cases hu : u = t
    · subst hu
      simp [publishSync, clockOf]
    · simp [publishSync, clockOf, hu]
  | sync b =>
    by_cases hb : b = a
    · subst hb
      simp [publishSync, clockOf, VClock.join_eq_sup]
    · simp [publishSync, clockOf, hb]
  | _ => simp [publishSync, clockOf]

/-- `Acquire` joins the clock of the address to the one of the thread. -/
theorem clockOf_acquire {s : Detector} (he : s.enabled = true) (t : Tid) (a : ℕ) (p : Place) :
    (s.acquire t a).clockOf p =
      if p = .thread t then s.clockOf p ⊔ s.clockOf (.sync a) else s.clockOf p := by
  rw [acquire, if_neg (by simp [he]), clockOf_joinSync]

/-- `Release` ticks, and joins the clock of the thread to the one of the address. -/
theorem clockOf_release {s : Detector} (he : s.enabled = true) (t : Tid) (a : ℕ) (p : Place) :
    (s.release t a).clockOf p =
      if p = .thread t then (s.clockOf p).increment t
      else if p = .sync a then s.clockOf p ⊔ s.clockOf (.thread t) else s.clockOf p := by
  rw [release, if_neg (by simp [he]), clockOf_publishSync]

theorem le_acquire {s : Detector} (he : s.enabled = true) (t : Tid) (a : ℕ) :
    s.clockOf (.sync a) ≤ (s.acquire t a).threadClocks t := by
  rw [← clockOf_thread, clockOf_acquire he, if_pos rfl]
  exact le_sup_right

theorem le_release {s : Detector} (he : s.enabled = true) (t : Tid) (a : ℕ) :
    s.threadClocks t ≤ (s.release t a).clockOf (.sync a) := by
  rw [clockOf_release he, if_neg (by simp), if_pos rfl]
  exact le_sup_right

theorem clockOf_eraseSync (a : ℕ) (p : Place) :
    (s.eraseSync a).clockOf p = if p = .sync a then ⊥ else s.clockOf p := by
  cases p with
  | sync b =>
    by_cases hb : b = a
    · subst hb
      simp [eraseSync, clockOf, VClock.empty_eq_bot]
    · simp [eraseSync, clockOf, hb]
  | _ => simp [eraseSync, clockOf]

theorem clockOf_occupy (tid : Tid) (parentTid : ℕ) (p : Place) :
    (s.occupy tid parentTid).clockOf p =
      if p = .thread tid then (s.birthClock tid parentTid).increment tid else s.clockOf p := by
  cases p with
  | thread u =>
    by_cases hu : u = tid
    · subst hu
      simp [occupy]
    · simp [occupy, hu]
  | _ => simp [occupy, clockOf]

theorem clockOf_happensAfter (he : s.enabled = true) (t : Tid) (id : ℕ) (p : Place) :
    (s.happensAfter t id).clockOf p =
      if id = 0 then s.clockOf p
      else if p = .thread t then s.clockOf p ⊔ s.clockOf (.edge id)
      else if p = .edge id then ⊥ else s.clockOf p := by
  unfold happensAfter
  by_cases hid : id = 0
  · simp [hid]
  · simp only [he, hid, Bool.not_true, Bool.false_eq_true, or_self, ↓reduceIte]
    cases h : s.hbEdges id with
    | none =>
      split_ifs with h₁ h₂
      · simp [clockOf, h, VClock.empty_eq_bot]
      · subst h₂
        simp [clockOf, h, VClock.empty_eq_bot]
      · rfl
    | some clk =>
      cases p with
      | thread u =>
        by_cases hu : u = t
        · subst hu
          simp [clockOf, h, VClock.join_eq_sup]
        · simp [clockOf, hu]
      | edge id' =>
        by_cases hid' : id' = id
        · subst hid'
          simp [clockOf, VClock.empty_eq_bot]
        · simp [clockOf, hid']
      | _ => simp [clockOf]

theorem joined_threadCreate (u : Tid) (parentTid : ℕ) :
    s.joined (match s.liveParent u parentTid with
      | some parent => {.thread parent, .orphan}
      | none => {.orphan}) = s.birthClock u parentTid := by
  unfold birthClock
  cases s.liveParent u parentTid with
  | some parent => simp [VClock.join_eq_sup]
  | none => simp [VClock.join_eq_sup, VClock.empty_eq_bot]

theorem nextSlot_eq {tid : Tid} (h : s.findSlot = tid) : s.nextSlot = tid := by
  have hlt : s.findSlot < kMaxThreads := h ▸ tid.isLt
  rw [nextSlot, dif_pos hlt]
  exact Fin.ext h

/-- All that a call does to clocks: every place joins its sources, and at most one thread ticks. -/
theorem exec_clockOf {s s' : Detector} {o : Op} (he : s.enabled = true)
    (h : o.exec s = some s') (p : Place) : s'.clockOf p = s.nextClock o p := by
  cases o with
  | threadCreate parent =>
    obtain ⟨⟨tid, s''⟩, hc, rfl⟩ := Option.map_eq_some_iff.mp h
    obtain ⟨hslot, rfl⟩ := threadCreate_eq_some_iff.mp hc
    rw [clockOf_occupy]
    simp only [nextClock, ticks, s.nextSlot_eq hslot]
    cases p with
    | thread u =>
      by_cases hu : u = tid
      · subst hu
        simp [sources, s.nextSlot_eq hslot, joined_threadCreate]
      · simp [sources, s.nextSlot_eq hslot, hu]
    | _ => simp [sources]
  | threadFinish t =>
    obtain rfl := Option.some.inj h
    cases p with
    | thread u =>
      by_cases hu : u = t ∨ s.threadAlive u = false
      · simp [threadFinish, he, nextClock, ticks, sources, hu]
      · simp [threadFinish, he, nextClock, ticks, sources, hu, VClock.join_eq_sup]
    | orphan => simp [threadFinish, he, nextClock, ticks, sources, VClock.join_eq_sup]
    | _ => simp [threadFinish, he, nextClock, ticks, sources, clockOf]
  | threadDestroy t =>
    obtain rfl := Option.some.inj h
    cases p with
    | orphan =>
      by_cases ha : s.threadAlive t = true
      · simp [threadDestroy, he, nextClock, ticks, sources, ha, VClock.join_eq_sup]
      · simp [threadDestroy, he, nextClock, ticks, sources, ha]
    | _ => simp [threadDestroy, he, nextClock, ticks, sources, clockOf]
  | threadJoin j c =>
    obtain rfl := Option.some.inj h
    cases p with
    | thread u =>
      by_cases hu : u = j
      · subst hu
        simp [threadJoin, he, nextClock, ticks, sources, VClock.join_eq_sup]
      · simp [threadJoin, he, nextClock, ticks, sources, hu]
    | _ => simp [threadJoin, he, nextClock, ticks, sources, clockOf]
  | threadAbsorb d c =>
    obtain rfl := Option.some.inj h
    cases p with
    | thread u =>
      by_cases hu : u = d
      · subst hu
        by_cases hc : u = c
        · subst hc
          simp [threadAbsorb, he, nextClock, ticks, sources]
        · simp [threadAbsorb, he, nextClock, ticks, sources, hc, VClock.join_eq_sup]
      · by_cases hc : d = c
        · subst hc
          simp [threadAbsorb, he, nextClock, ticks, sources, hu]
        · simp [threadAbsorb, he, nextClock, ticks, sources, hu, hc]
    | _ => by_cases hc : d = c <;> simp [threadAbsorb, he, nextClock, ticks, sources, clockOf, hc]
  | acquire t a | mutexPostLock t a | mutexReadLock t a =>
    obtain rfl := Option.some.inj h
    simp only [acquire, mutexPostLock, mutexReadLock, he, Bool.not_true, Bool.false_eq_true,
      ↓reduceIte, clockOf_joinSync]
    cases p with
    | thread u => by_cases hu : u = t <;> simp [nextClock, ticks, sources, hu]
    | _ => simp [nextClock, ticks, sources]
  | release t a | mutexUnlock t a =>
    obtain rfl := Option.some.inj h
    simp only [release, mutexUnlock, he, Bool.not_true, Bool.false_eq_true, ↓reduceIte,
      clockOf_publishSync]
    cases p with
    | thread u => by_cases hu : u = t <;> simp [nextClock, ticks, sources, hu]
    | sync b => by_cases hb : b = a <;> simp [nextClock, ticks, sources, hb]
    | _ => simp [nextClock, ticks, sources]
  | mutexCreate a | mutexDestroy a =>
    obtain rfl := Option.some.inj h
    simp only [mutexCreate, mutexDestroy, he, Bool.not_true, Bool.false_eq_true, ↓reduceIte,
      clockOf_eraseSync]
    cases p with
    | sync b => by_cases hb : b = a <;> simp [nextClock, ticks, sources, hb]
    | _ => simp [nextClock, ticks, sources]
  | happensBefore t =>
    obtain rfl := Option.some.inj h
    cases p with
    | edge id =>
      by_cases hid : id = s.nextEdgeId
      · subst hid
        simp [happensBefore, he, nextClock, ticks, sources, clockOf]
      · simp [happensBefore, he, nextClock, ticks, sources, clockOf, hid]
    | _ => simp [happensBefore, he, nextClock, ticks, sources, clockOf]
  | happensAfter t id =>
    obtain rfl := Option.some.inj h
    rw [clockOf_happensAfter s he]
    cases p with
    | thread u =>
      by_cases hid : id = 0 <;> by_cases hu : u = t <;>
        simp [nextClock, ticks, sources, hu, hid]
    | edge id' =>
      by_cases hid : id = 0 <;> by_cases hid' : id' = id <;>
        simp [nextClock, ticks, sources, hid, hid']
    | _ => simp [nextClock, ticks, sources]
  | clearShadow bs off size =>
    obtain ⟨shadows, rfl⟩ := clearShadow_eq h
    cases p <;> simp [nextClock, ticks, sources, clockOf]
  | memoryAccess bs len off size t w =>
    obtain rfl := Option.some.inj h
    obtain ⟨_, _, _, _, _, hs, -⟩ := s.memoryAccess_eq he bs len off size t w
    rw [hs]
    cases p <;> simp [nextClock, ticks, sources, clockOf]
  | threadDetach | mutexPreLock | mutexReadUnlock | removeShadow =>
    obtain rfl := Option.some.inj h
    cases p <;> simp [nextClock, ticks, sources, clockOf, threadDetach, mutexPreLock,
      mutexReadUnlock, removeShadow, he]

/-- Away from the slot of `t`, the component of `t` is only joined. -/
theorem nextClock_of_ne {o : Op} {p : Place} {t : Tid} (hp : p ≠ .thread t) :
    s.nextClock o p t = s.joined (s.sources o p) t := by
  unfold nextClock
  cases s.ticks o with
  | none => rfl
  | some tv =>
    dsimp only
    split_ifs with h
    · have ht : t ≠ tv.1 := fun ht ↦ hp (ht ▸ h)
      exact VClock.increment_of_ne _ ht
    · rfl

theorem nextClock_le (o : Op) (p : Place) (t : Tid) :
    s.nextClock o p t ≤ s.joined (s.sources o p) t + 1 := by
  unfold nextClock
  cases s.ticks o with
  | none => exact Nat.le_succ _
  | some tv =>
    dsimp only
    split_ifs
    · by_cases ht : t = tv.1
      · subst ht
        rw [VClock.increment_self]
        exact bump_le _
      · rw [VClock.increment_of_ne _ ht]
        exact Nat.le_succ _
    · exact Nat.le_succ _

/-- The counter that is incremented is the joined one. -/
theorem joined_of_ticks {o : Op} {t : Tid} {v : ℕ} (h : s.ticks o = some (t, v)) :
    s.joined (s.sources o (.thread t)) t = v := by
  cases o with
  | threadCreate p =>
    obtain ⟨rfl, rfl⟩ := Prod.mk.inj (Option.some.inj h)
    simp [sources, joined_threadCreate]
  | release u a | mutexUnlock u a =>
    obtain ⟨rfl, rfl⟩ := Prod.mk.inj (Option.some.inj h)
    simp [sources]
  | _ => cases h

end Detector

namespace Run

variable (r : Run)

/-- The clocks of a run, as a history of the clock machine. -/
def history : ClockFlow.History Place Tid ℕ where
  steps := r.ops.length
  home := .thread
  sources k p := match r.ops[k]? with
    | some o => (r.state k).sources o p
    | none => {p}
  clock k := (r.state k).clockOf
  clock_succ {k p t} hk hp := by
    have ho := List.getElem?_eq_getElem hk
    rw [Detector.exec_clockOf (r.enabled hk.le) (r.step ho) p, Detector.nextClock_of_ne _ hp, ho]
    rfl

@[simp] theorem history_home (t : Tid) : r.history.home t = .thread t := rfl

@[simp] theorem history_clock (k : ℕ) (p : Place) : r.history.clock k p = (r.state k).clockOf p :=
  rfl

theorem history_sources {k : ℕ} {o : Op} (h : r.ops[k]? = some o) (p : Place) :
    r.history.sources k p = (r.state k).sources o p := by
  simp only [history, h]

/-- No clock component reaches `2 ^ 64`. -/
def NoWrap : Prop :=
  ∀ ⦃k : ℕ⦄ ⦃o : Op⦄ ⦃t : Tid⦄ ⦃v : ℕ⦄, r.ops[k]? = some o → (r.state k).ticks o = some (t, v) →
    v + 1 < 2 ^ 64

variable {r}

/-- The own counter of a thread after a call, when no counter wraps around. -/
theorem NoWrap.threadClocks_succ (hw : r.NoWrap) {k : ℕ} {o : Op} (ho : r.ops[k]? = some o)
    (t : Tid) :
    (r.state (k + 1)).threadClocks t t =
      (r.state k).joined ((r.state k).sources o (.thread t)) t +
        if ((r.state k).ticks o).map Prod.fst = some t then 1 else 0 := by
  have hk : k < r.ops.length := (List.getElem?_eq_some_iff.mp ho).1
  have h := Detector.exec_clockOf (r.enabled hk.le) (r.step ho) (.thread t)
  rw [Detector.clockOf_thread] at h
  rw [h, Detector.nextClock]
  cases hticks : (r.state k).ticks o with
  | none => simp
  | some tv =>
    obtain ⟨u, v⟩ := tv
    by_cases hu : t = u
    · subst hu
      have hv := (r.state k).joined_of_ticks hticks
      simp [hv, bump_of_lt (hw ho hticks)]
    · simp [hu, Ne.symm hu]

/-- Without wrap-around, ticks do not decrease counters. -/
theorem NoWrap.steady (hw : r.NoWrap) : r.history.Steady := by
  intro k hk t
  have ho := List.getElem?_eq_getElem hk
  rw [history_home, r.history_sources ho, history_clock, Detector.clockOf_thread,
    hw.threadClocks_succ ho t]
  exact Nat.le_add_right _ _

/-- Every counter is at most the number of calls so far. -/
theorem clockOf_le (r : Run) {k : ℕ} (hk : k ≤ r.ops.length) (p : Place) (t : Tid) :
    (r.state k).clockOf p t ≤ k := by
  induction k generalizing p with
  | zero =>
    rw [r.state_zero]
    cases p <;> exact le_rfl
  | succ k ih =>
    have ho := List.getElem?_eq_getElem hk
    have hjoined : (r.state k).joined ((r.state k).sources r.ops[k] p) t ≤ k :=
      Finset.sup_le fun q _ ↦ ih (Nat.le_of_succ_le hk) q
    rw [Detector.exec_clockOf (r.enabled (Nat.le_of_succ_le hk)) (r.step ho) p]
    exact (Detector.nextClock_le ..).trans (Nat.succ_le_succ hjoined)

/-- In fewer than `2 ^ 64` calls no counter reaches `2 ^ 64`. -/
theorem noWrap_of_length (r : Run) (h : r.ops.length < 2 ^ 64) : r.NoWrap := by
  intro k o t v ho hticks
  have hk : k < r.ops.length := (List.getElem?_eq_some_iff.mp ho).1
  have hv : v ≤ k := by
    rw [← (r.state k).joined_of_ticks hticks]
    exact Finset.sup_le fun q _ ↦ r.clockOf_le hk.le q t
  omega

end Run

end WebTSan
