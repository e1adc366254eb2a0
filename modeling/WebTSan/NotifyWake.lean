import WebTSan.WaitLists

/-!
# A notification happens before the wake-up that it causes

`Atomics.notify` publishes the clock of its thread before it takes the mutex of the wait lists, and
a waiter takes the clock of the location over after it has seen that its flag was cleared. In
between, the waiter may be woken spuriously, be interrupted or wait in the queue of its isolate, and
other threads may wait, notify or call the detector. Still, every wait that ends with `ok` was ended
by some `Wake`, and its thread then knows the clock that the waking thread had at its call.

## Main definitions

* `WebTSan.FutexRun`.
* `WebTSan.FutexRun.CallsWake`: a call of `Wake`, with its critical section.
* `WebTSan.FutexRun.EndsWait`, `WebTSan.FutexRun.CompletesOk`.

## Main results

* `WebTSan.FutexRun.exists_wake`: a wait that completes with `ok` was ended by a `Wake`.
* `WebTSan.FutexRun.notify_happensBefore_ok`: the clock at the completion.
-/

namespace WebTSan

/-- A run of the threads that use the wait lists. -/
abbrev FutexRun := Execution FutexState.exec FutexState.initial

namespace FutexRun

variable (r : FutexRun)

/-- Isolate `a` calls `Wake` for a location at position `i`, and is in its critical section at
position `j`. -/
def CallsWake (i j : ℕ) (a : Isolate) (loc : ℕ) : Prop :=
  i < j ∧ r.ops[j]? = some (.wake a) ∧ ∃ count, r.ops[i]? = some (.notify a loc count) ∧
    ∀ m, i < m → m ≤ j → (r.state m).pc a = .waking loc count

/-- The step at position `j` ends the waiting of a node, which has not begun to wait again at point
`k`. -/
def EndsWait (j : ℕ) (n : NodeId) (k : ℕ) : Prop :=
  j < k ∧ ((r.state j).node n).waiting = true ∧
    ∀ m, j < m → m ≤ k → ((r.state m).node n).waiting = false

/-- The thread of isolate `a` completes the wait of a node with `ok` at position `k`. -/
def CompletesOk (k : ℕ) (a : Isolate) (n : NodeId) : Prop :=
  ∃ o, r.ops[k]? = some o ∧ (r.state k).completes o = some (a, n, .ok)

/-- No mutex is created or destroyed at a location between the positions `i` and `k`. -/
def KeepsSync (loc i k : ℕ) : Prop :=
  ∀ m d, i < m → m < k → r.ops[m]? = some (.call d) → d.erases ≠ some loc

variable {r} {i j k loc : ℕ} {a b : Isolate} {n : NodeId}

theorem wellFormed (hk : k ≤ r.ops.length) : (r.state k).WellFormed :=
  r.invariant_of_step (P := FutexState.WellFormed) .initial (fun ho h ↦ h.exec (r.step ho)) hk

theorem enabled (hk : k ≤ r.ops.length) : (r.state k).detector.enabled = true := by
  refine r.invariant_of_step (P := fun s ↦ s.detector.enabled = true) rfl (fun {m _} ho he ↦ ?_) hk
  have hwf : (r.state m).WellFormed := wellFormed (List.getElem?_eq_some_iff.mp ho).1.le
  rcases FutexState.exec_detector hwf he (r.step ho) with hd | ⟨d, hd, -⟩
  · rw [hd, he]
  · rw [Op.exec_enabled hd, he]

/-- The clock of a location grows, as long as no mutex is created or destroyed there. -/
theorem KeepsSync.clock_le (h : r.KeepsSync loc i k) (hij : i < j) (hjk : j ≤ k)
    (hk : k ≤ r.ops.length) :
    (r.state j).detector.clockOf (.sync loc) ≤ (r.state k).detector.clockOf (.sync loc) := by
  refine r.le_of_step (fun s ↦ s.detector.clockOf (.sync loc)) hjk hk fun {m _} hjm hmk ho ↦ ?_
  have hlt := (hmk.trans_le hk).le
  rcases FutexState.exec_detector (wellFormed hlt) (enabled hlt) (r.step ho) with
    hd | ⟨d, hd, herases⟩
  · rw [hd]
  · refine Detector.le_clockOf_sync (enabled hlt) hd ?_
    rcases herases with hnone | hcall
    · rw [hnone]
      nofun
    · exact h m d (hij.trans_le hjm) hmk (hcall ▸ ho)

/-! ### The `Wake` that ends a wait -/

theorem CompletesOk.le_length (h : r.CompletesOk k a n) : k ≤ r.ops.length := by
  obtain ⟨o, ho, -⟩ := h
  exact (List.getElem?_eq_some_iff.mp ho).1.le

/-- A thread that completes a wait with `ok` completes one that was still awaited. -/
theorem CompletesOk.awaits (h : r.CompletesOk k a n) :
    ((r.state k).node n).waiting = false ∧ (r.state k).Awaits n := by
  have hwf := wellFormed h.le_length
  obtain ⟨o, ho, hc⟩ := h
  rcases FutexState.completes_ok hwf (r.step ho) hc with ⟨-, rfl, loc, hpc⟩ | ⟨-, nodes, hpc⟩
  · refine ⟨hwf.resting ?_, .inl ⟨a, loc, rfl, ?_⟩⟩ <;> rw [hpc] <;> rfl
  · have hnot : (r.state k).Notified n := .inr ⟨a, n :: nodes, hpc, List.mem_cons_self⟩
    exact ⟨(hwf.notified hnot).1, .inr hnot⟩

/-- A thread in `Wake` has called it. -/
theorem exists_notify (hj : j ≤ r.ops.length) {count : ℕ}
    (ha : (r.state j).pc a = .waking loc count) :
    ∃ i < j, r.ops[i]? = some (.notify a loc count) ∧
      ∀ m, i < m → m ≤ j → (r.state m).pc a = .waking loc count := by
  obtain ⟨i, o, ho, hij, hbefore, hkept⟩ :=
    r.exists_gain (P := fun s ↦ s.pc a = .waking loc count) nofun hj ha
  have hi := (List.getElem?_eq_some_iff.mp ho).1.le
  have hafter := hkept (i + 1) (Nat.lt_succ_self i) hij
  refine ⟨i, hij, ?_, hkept⟩
  rcases FutexState.exec_pc (wellFormed hi) (r.step ho) with hpc | ⟨b, pc, hpc, hb⟩
  · exact absurd (hpc ▸ hafter) hbefore
  · rw [hpc] at hafter
    by_cases hba : a = b
    · subst hba
      rw [Function.update_self] at hafter
      rcases hb with ⟨loc', count', rfl, rfl⟩ | hb
      · cases hafter
        exact ho
      · exact absurd hafter (hb loc count)
    · rw [Function.update_of_ne hba] at hafter
      exact absurd hafter hbefore

/-- A node whose waiting has ended keeps its location. -/
theorem EndsWait.waitLocation_eq (h : r.EndsWait j n k) (hk : k ≤ r.ops.length) :
    ((r.state k).node n).waitLocation = ((r.state j).node n).waitLocation := by
  obtain ⟨hlt, -, hw⟩ := h
  refine r.invariant_from
    (P := fun s ↦ (s.node n).waitLocation = ((r.state j).node n).waitLocation) hlt.le hk rfl
    fun {m _} hjm hm ho ih ↦ ?_
  have hstep := FutexState.exec_waitLocation (wellFormed (hm.le.trans hk)) (r.step ho)
    (hw _ (Nat.lt_succ_of_le hjm) hm)
  exact hstep.trans ih

theorem not_awaits_initial : ¬FutexState.initial.Awaits n := by
  rintro (⟨a, loc, -, ha⟩ | ⟨a, hn⟩ | ⟨a, nodes, ha, -⟩)
  · cases ha
  · cases hn
  · cases ha

/-- A wait that completes with `ok` was ended by a `Wake` for its location. -/
theorem CompletesOk.exists_wake (h : r.CompletesOk k a n) : ∃ i j b,
    r.CallsWake i j b ((r.state k).node n).waitLocation ∧ r.EndsWait j n k := by
  have hk := h.le_length
  obtain ⟨j, o, ho, hjk, hbefore, hkept⟩ := r.exists_gain
    (P := fun s ↦ (s.node n).waiting = false ∧ s.Awaits n) (fun hn ↦ not_awaits_initial hn.2) hk
    h.awaits
  have hj := (List.getElem?_eq_some_iff.mp ho).1.le
  obtain ⟨hw, hawaits⟩ := hkept (j + 1) (Nat.lt_succ_self j) hjk
  rcases FutexState.exec_awaits (wellFormed hj) (r.step ho) hw hawaits with
    hbefore' | ⟨b, count, rfl, hb, hwait⟩
  · exact absurd hbefore' hbefore
  · have hends : r.EndsWait j n k := ⟨hjk, hwait, fun m hm hmk ↦ (hkept m hm hmk).1⟩
    obtain ⟨i, hij, hi, hin⟩ := exists_notify hj hb
    rw [hends.waitLocation_eq hk]
    exact ⟨i, j, b, ⟨hij, ho, count, hi, hin⟩, hends⟩

/-! ### Clocks -/

/-- The clock that a thread has when it calls `Wake` goes into the clock of the location. -/
theorem CallsWake.clock_le {t : Tid} (h : r.CallsWake i j a loc)
    (ht : (r.state i).currentTid a = some t) :
    (r.state i).detector.threadClocks t ≤ (r.state (i + 1)).detector.clockOf (.sync loc) := by
  obtain ⟨-, -, count, hi, -⟩ := h
  have he := enabled (List.getElem?_eq_some_iff.mp hi).1.le
  have hstep := r.step hi
  simp only [FutexState.exec] at hstep
  split_ifs at hstep
  rw [← Option.some.inj hstep]
  simp only [FutexState.setPc, FutexState.onAtomicsNotify, ht, he, if_true]
  exact Detector.le_release he t loc

/-- A `Wake` ends the waiting of nodes at its location only. -/
theorem CallsWake.waitLocation_eq (h : r.CallsWake i j b loc) (hends : r.EndsWait j n k) :
    ((r.state j).node n).waitLocation = loc := by
  obtain ⟨hij, ho, count, -, hin⟩ := h
  have hwf := wellFormed (List.getElem?_eq_some_iff.mp ho).1.le
  have hs := FutexState.step_of_exec (r.step ho)
  have hw := hends.2.2 (j + 1) (Nat.lt_succ_self j) hends.1
  generalize r.state (j + 1) = s' at hs hw
  cases hs with
  | @wake _ loc' count' hpc =>
    cases (hin j hij le_rfl).symm.trans hpc
    exact (hwf.listed ((hwf.wake loc count).2.cleared hends.2.1 hw)).1

/-- A thread that completes a wait with `ok` takes over the clock of its location. -/
theorem CompletesOk.clock_le {u : Tid} (h : r.CompletesOk k a n)
    (hu : (r.state k).currentTid a = some u) :
    (r.state k).detector.clockOf (.sync ((r.state k).node n).waitLocation) ≤
      (r.state (k + 1)).detector.threadClocks u := by
  have hwf := wellFormed h.le_length
  have he := enabled h.le_length
  obtain ⟨o, ho, hc⟩ := h
  have hstep := r.step ho
  have hacquire (loc : ℕ) : (r.state k).detector.clockOf (.sync loc) ≤
      ((r.state k).onAtomicsWaitComplete loc ((r.state k).currentTid a)).threadClocks u := by
    simp only [hu, FutexState.onAtomicsWaitComplete, he, if_true]
    exact Detector.le_acquire he u loc
  rcases FutexState.completes_ok hwf hstep hc with ⟨rfl, rfl, loc, hpc⟩ | ⟨rfl, nodes, hpc⟩
  · simp only [FutexState.exec, hpc] at hstep
    rw [← Option.some.inj hstep, hwf.location (by rw [hpc]; rfl)]
    exact hacquire loc
  · have hnot : (r.state k).Notified n := .inr ⟨a, n :: nodes, hpc, List.mem_cons_self⟩
    simp only [FutexState.exec, hpc, if_neg (hwf.notified hnot).2.1] at hstep
    rw [← Option.some.inj hstep]
    exact hacquire _

/-- `Atomics.notify` happens before the wake-up that it causes. A wait that completes with `ok` was
ended by some `Wake`; and the clock of the completing thread then dominates the clock that the
thread of this `Wake` had when it called it, provided that no mutex is created or destroyed at the
location in between. -/
theorem notify_happensBefore_ok (h : r.CompletesOk k a n) :
    (∃ i j b loc, r.CallsWake i j b loc ∧ r.EndsWait j n k) ∧
      ∀ {i j b loc t u}, r.CallsWake i j b loc → r.EndsWait j n k →
        (r.state i).currentTid b = some t → (r.state k).currentTid a = some u →
        r.KeepsSync loc i k →
        (r.state i).detector.threadClocks t ≤ (r.state (k + 1)).detector.threadClocks u := by
  refine ⟨?_, fun {i j b loc t u} hcall hends ht hu hkeep ↦ ?_⟩
  · obtain ⟨i, j, b, hcall, hends⟩ := h.exists_wake
    exact ⟨i, j, b, _, hcall, hends⟩
  · have hk := h.le_length
    have hloc : ((r.state k).node n).waitLocation = loc :=
      (hends.waitLocation_eq hk).trans (hcall.waitLocation_eq hends)
    calc (r.state i).detector.threadClocks t
        ≤ (r.state (i + 1)).detector.clockOf (.sync loc) := hcall.clock_le ht
      _ ≤ (r.state k).detector.clockOf (.sync loc) :=
        hkeep.clock_le (Nat.lt_succ_self i) (Nat.succ_le_of_lt (hcall.1.trans hends.1)) hk
      _ ≤ (r.state (k + 1)).detector.threadClocks u := hloc ▸ h.clock_le hu

/-- Isolate 1 waits asynchronously and synchronously for isolate 0, which wakes both waits. The
condition variable returns once too early, and once more with an interrupt. -/
def notified : FutexRun :=
  .ofOps [.call (.threadCreate uint32Max), .call (.threadCreate uint32Max), .setTid 0 (some 0),
    .setTid 1 (some 1), .waitAsync 1 64 none true, .waitSync 1 64 false true, .iterate 1 false,
    .resume 1, .iterate 1 false, .notify 0 64 2, .notifyWake 1, .wake 0, .resume 1,
    .iterate 1 false, .interruptsHandled 1 false, .iterate 1 false, .waitComplete 1,
    .takePromises 1, .resolveNext 1] (by decide)

theorem notified_clocks :
    (notified.state 9).detector.threadClocks 0 ≤ (notified.state 17).detector.threadClocks 1 ∧
      (notified.state 9).detector.threadClocks 0 ≤ (notified.state 19).detector.threadClocks 1 := by
  have hcall : notified.CallsWake 9 11 0 64 := by
    refine ⟨by decide, rfl, 2, rfl, fun m hm hmk ↦ ?_⟩
    interval_cases m <;> rfl
  have hkeep (k : ℕ) (hk : k ≤ 19) : notified.KeepsSync 64 9 k := by
    intro m d hm hmk ho
    have hlt : m < 19 := hmk.trans_le hk
    clear hmk
    interval_cases m <;> cases ho
  constructor
  · have hends : notified.EndsWait 11 (.sync 1) 16 := by
      refine ⟨by decide, rfl, fun m hm hmk ↦ ?_⟩
      interval_cases m <;> rfl
    exact (notify_happensBefore_ok (k := 16) (a := 1) (n := .sync 1) ⟨_, rfl, by decide⟩).2 hcall
      hends rfl rfl (hkeep 16 (by decide))
  · have hends : notified.EndsWait 11 (.async 0) 18 := by
      refine ⟨by decide, rfl, fun m hm hmk ↦ ?_⟩
      interval_cases m <;> rfl
    exact (notify_happensBefore_ok (k := 18) (a := 1) (n := .async 0) ⟨_, rfl, by decide⟩).2 hcall
      hends rfl rfl (hkeep 18 (by decide))

end FutexRun

end WebTSan
