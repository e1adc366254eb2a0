import WebTSan.Detection

/-!
# No false positives

A race that the detector finds is a pair of conflicting accesses of different threads that the
happens-before order leaves unordered. This holds for all calls, slot reuse included, as long as
no counter of a clock wraps around. A thread that publishes often enough to wrap its counter is
reported against threads it is ordered before (`Run.exists_falsePositive_of_wrap`).

## Main results

* `WebTSan.Run.found_unordered`.
* `WebTSan.Run.exists_falsePositive_of_wrap`.
-/

namespace WebTSan

namespace Run

/-- No false positive: a race is found only with an access to the same byte of the same buffer that
is still recorded, made by a different thread, with one of the two a write, and not ordered before
the current access. -/
theorem found_unordered (r : Run) (hw : r.NoWrap) {k bs len off size : ℕ} {u : Tid} {w : Bool}
    {report : RaceReport} (ho : r.ops[k]? = some (.memoryAccess bs len off size u w))
    (hf : Op.found (r.state k) (.memoryAccess bs len off size u w) = some report) :
    report.sabBackingStore = bs ∧ off ≤ report.sabOffset ∧ report.sabOffset < off + size ∧
      report.tid2 = u ∧ report.isWrite2 = w ∧ report.tid1 ≠ u ∧
      (report.isWrite1 = true ∨ w = true) ∧
      ∃ i, r.Recorded i k bs report.sabOffset report.tid1 report.isWrite1 ∧
        report.epoch1 = (r.state i).threadClocks report.tid1 report.tid1 ∧
        ¬r.HappensBefore (i, report.tid1) (k, u) := by
  obtain ⟨i, hrec, hepoch, hbs, hb, hb', htid, hwrite, htu, hww, hlt⟩ :=
    exists_recorded_of_found ho hf
  rw [hepoch] at hlt
  exact ⟨hbs, hb, hb', htid, hwrite, htu, hww, i, hrec, hepoch, not_happensBefore_of_lt hw hlt⟩

/-- Two threads write the same word without synchronization. -/
def unsynchronizedWrites : Run :=
  .ofOps [.threadCreate uint32Max, .threadCreate uint32Max, .memoryAccess 1000 64 8 4 0 true,
    .memoryAccess 1000 64 8 4 1 true] (by decide)

theorem unsynchronizedWrites_found_unordered :
    ∃ i, unsynchronizedWrites.Recorded i 3 1000 8 0 true ∧
      ¬unsynchronizedWrites.HappensBefore (i, 0) (3, 1) := by
  have hf : Op.found (unsynchronizedWrites.state 3) (.memoryAccess 1000 64 8 4 1 true) =
      some ⟨8, 1000, 64, 0, true, 1, 1, true, 1⟩ := by decide
  obtain ⟨-, -, -, -, -, -, -, i, hrec, -, hb⟩ := unsynchronizedWrites.found_unordered
    (unsynchronizedWrites.noWrap_of_length (by decide)) rfl hf
  exact ⟨i, hrec, hb⟩

/-! ### Counters that wrap around -/

/-- Thread 0 takes a lock, publishes `n` times elsewhere and writes a byte. It publishes once more
and releases the lock. Thread 1 takes the lock and writes the same byte. -/
def handoverOps (n : ℕ) : List Op :=
  [.threadCreate uint32Max, .threadCreate uint32Max, .mutexPostLock 0 600] ++
    List.replicate n (.release 0 500) ++
    [.memoryAccess 1000 64 8 1 0 true, .release 0 500, .mutexUnlock 0 600, .mutexPostLock 1 600,
      .memoryAccess 1000 64 8 1 1 true]

theorem mem_handoverOps {n : ℕ} {o : Op} (h : o ∈ handoverOps n) :
    o = .threadCreate uint32Max ∨ (∃ t a, o = .release t a) ∨ (∃ t a, o = .mutexPostLock t a) ∨
      (∃ t a, o = .mutexUnlock t a) ∨ ∃ t, o = .memoryAccess 1000 64 8 1 t true := by
  simp only [handoverOps, List.mem_append, List.mem_cons, List.mem_replicate,
    List.not_mem_nil, or_false] at h
  rcases h with ((rfl | rfl | rfl) | ⟨-, rfl⟩) | rfl | rfl | rfl | rfl | rfl <;> simp

/-- The run of `handoverOps`. -/
def handover (n : ℕ) : Run :=
  .ofOps (handoverOps n) (execAll_isSome rfl (by decide) fun o ho bs off size h ↦ by
    rcases mem_handoverOps ho with rfl | ⟨_, _, rfl⟩ | ⟨_, _, rfl⟩ | ⟨_, _, rfl⟩ | ⟨_, rfl⟩ <;>
      cases h)

theorem handover_ops_of_lt {n j : ℕ} (hj : j < n) :
    (handover n).ops[j + 3]? = some (.release 0 500) := by
  simp [handover, Execution.ofOps, handoverOps, hj, List.getElem?_append]

theorem handover_ops_add (n j : ℕ) : (handover n).ops[n + 3 + j]? =
    [.memoryAccess 1000 64 8 1 0 true, .release 0 500, .mutexUnlock 0 600, .mutexPostLock 1 600,
      .memoryAccess 1000 64 8 1 1 true][j]? := by
  change (([.threadCreate uint32Max, .threadCreate uint32Max, .mutexPostLock 0 600] ++
    List.replicate n (Op.release 0 500)) ++ _)[n + 3 + j]? = _
  rw [List.getElem?_append_right (by simp)]
  simp

theorem handover_length (n : ℕ) : (handover n).ops.length = n + 8 := by
  simp [handover, Execution.ofOps, handoverOps]

/-- The calls after the first three are publications of thread 0 or among the last five. -/
theorem handover_ops_cases {n i : ℕ} {o : Op} (ho : (handover n).ops[i]? = some o) :
    i < 3 ∨ o = .release 0 500 ∨ ∃ j < 5, i = n + 3 + j ∧
      [.memoryAccess 1000 64 8 1 0 true, .release 0 500, .mutexUnlock 0 600, .mutexPostLock 1 600,
        .memoryAccess 1000 64 8 1 1 true][j]? = some o := by
  have hi := lt_length_of_getElem? ho
  rw [handover_length] at hi
  by_cases h₃ : i < 3
  · exact .inl h₃
  · obtain ⟨m, rfl⟩ := Nat.exists_eq_add_of_le' (not_lt.mp h₃)
    by_cases hm : m < n
    · exact .inr (.inl (Option.some.inj (ho.symm.trans (handover_ops_of_lt hm))))
    · have hj : m + 3 = n + 3 + (m - n) := by omega
      exact .inr (.inr ⟨m - n, by omega, hj, by rw [← handover_ops_add, ← hj, ho]⟩)

theorem handover_create {n i p : ℕ} (ho : (handover n).ops[i]? = some (.threadCreate p)) :
    i < 2 := by
  rcases handover_ops_cases ho with hi | h | ⟨j, hj, rfl, h⟩
  · interval_cases i
    · decide
    · decide
    · cases ho
  · cases h
  · interval_cases j <;> cases h

/-- The two accesses of the run. -/
theorem handover_access {n i bs len off size : ℕ} {t : Tid} {w : Bool}
    (ho : (handover n).ops[i]? = some (.memoryAccess bs len off size t w)) :
    i = n + 3 ∧ t = 0 ∨ i = n + 7 ∧ t = 1 := by
  rcases handover_ops_cases ho with hi | h | ⟨j, hj, rfl, h⟩
  · interval_cases i <;> cases ho
  · cases h
  · interval_cases j
    · obtain ⟨-, -, -, -, rfl, -⟩ := Op.memoryAccess.inj (Option.some.inj h)
      exact .inl ⟨rfl, rfl⟩
    · cases h
    · cases h
    · cases h
    · obtain ⟨-, -, -, -, rfl, -⟩ := Op.memoryAccess.inj (Option.some.inj h)
      exact .inr ⟨rfl, rfl⟩

theorem handover_lock {n l a : ℕ} {t : Tid}
    (ho : (handover n).ops[l]? = some (.mutexPostLock t a)) :
    l = 2 ∧ t = 0 ∨ l = n + 6 ∧ t = 1 := by
  rcases handover_ops_cases ho with hl | h | ⟨j, hj, rfl, h⟩
  · interval_cases l
    · cases ho
    · cases ho
    · obtain ⟨rfl, -⟩ := Op.mutexPostLock.inj (Option.some.inj ho)
      exact .inl ⟨rfl, rfl⟩
  · cases h
  · interval_cases j
    · cases h
    · cases h
    · cases h
    · obtain ⟨rfl, -⟩ := Op.mutexPostLock.inj (Option.some.inj h)
      exact .inr ⟨rfl, rfl⟩
    · cases h

theorem handover_sameOccupant {n i j : ℕ} {t : Tid} (hi : 2 ≤ i) :
    (handover n).SameOccupant t i j := by
  rintro m hm - ⟨p, ho, -⟩
  have hlt := handover_create ho
  omega

/-- The write of thread 0 happens before the one of thread 1. -/
theorem handover_happensBefore (n : ℕ) : (handover n).HappensBefore (n + 3, 0) (n + 7, 1) := by
  have hlen := handover_length n
  have h₁ : (handover n).Edge (n + 3, 0) (n + 5, 0) :=
    .programOrder (by omega) (by omega) (handover_sameOccupant (by omega))
  have h₂ : (handover n).Edge (n + 5, 0) (n + 7, 1) :=
    .sync (Nat.lt_succ_self _) ⟨_, handover_ops_add n 2, rfl⟩ ⟨_, handover_ops_add n 3, rfl⟩
      fun m _ hm hmj ↦ by omega
  exact .tail (.single h₁) h₂

/-- The clocks and the shadow while thread 0 publishes for the first `n` times. -/
theorem handover_state {n j : ℕ} (hj : j ≤ n) (hn : n + 1 < 2 ^ 64) :
    ((handover n).state (j + 3)).threadClocks 0 0 = j + 1 ∧
      ((handover n).state (j + 3)).threadClocks 1 0 = 0 ∧
      ((handover n).state (j + 3)).syncClocks 600 = none ∧
      ((handover n).state (j + 3)).shadowBuffers 1000 = none := by
  induction j with
  | zero => exact ⟨rfl, rfl, rfl, rfl⟩
  | succ j ih =>
    obtain ⟨h₀, h₁, hsync, hshadow⟩ := ih (Nat.le_of_succ_le hj)
    have ho := handover_ops_of_lt hj
    have he : ((handover n).state (j + 3)).enabled = true :=
      (handover n).enabled (lt_length_of_getElem? ho).le
    have hs : (handover n).state (j + 1 + 3) = ((handover n).state (j + 3)).release 0 500 :=
      (handover n).state_succ ho rfl
    have hbump : bump (j + 1) = j + 1 + 1 := bump_of_lt (by omega)
    have hne : (1 : Tid) ≠ 0 := by decide
    rw [hs]
    simp [Detector.release, he, Detector.publishSync, h₀, h₁, hsync, hshadow, hbump, hne]

theorem handover_enabled {n j : ℕ} (hj : j < 5) :
    ((handover n).state (n + 3 + j)).enabled = true := by
  refine (handover n).enabled ?_
  rw [handover_length]
  omega

/-- The access of thread 0 is recorded, with its counter after the first `n` publications. -/
theorem handover_state_access {n : ℕ} (hn : n + 1 < 2 ^ 64) :
    ((handover n).state (n + 4)).threadClocks = ((handover n).state (n + 3)).threadClocks ∧
      ((handover n).state (n + 4)).syncClocks 600 = none ∧
      ((handover n).state (n + 4)).cellAt 1000 8 (ShadowBuffer.evictSlot 0) =
        (handover n).recordOf (n + 3) 0 true := by
  obtain ⟨-, -, hsync, hshadow⟩ := handover_state (le_refl n) hn
  have he : ((handover n).state (n + 3)).enabled = true := handover_enabled (by decide : 0 < 5)
  have hs : (handover n).state (n + 4) = (((handover n).state (n + 3)).memoryAccess 1000 64 8 1 0
      true).2 := (handover n).state_succ (handover_ops_add n 0) rfl
  have hlen : 8 < (((handover n).state (n + 3)).shadowOf 1000 64).byteLength := by
    rw [Detector.shadowOf, hshadow]
    exact (by decide : 8 < 64)
  obtain ⟨_, _, _, _, _, hmem, -⟩ :=
    ((handover n).state (n + 3)).memoryAccess_eq he 1000 64 8 1 0 true
  rw [hs]
  refine ⟨?_, ?_, Detector.memoryAccess_cellAt_offset he hlen⟩
  · rw [hmem]
  · rw [hmem]
    exact hsync

/-- When the counter of thread 0 wraps around, the last call finds a race. -/
theorem handover_found {n : ℕ} (hn : n + 2 = 2 ^ 64) :
    (Op.found ((handover n).state (n + 7)) (.memoryAccess 1000 64 8 1 1 true)).isSome = true := by
  obtain ⟨h₀, h₁, -, -⟩ := handover_state (le_refl n) (by omega)
  obtain ⟨hclocks, hsync, hcell⟩ := @handover_state_access n (by omega)
  have he (j : ℕ) (hj : j < 5) := @handover_enabled n j hj
  have hs₅ : (handover n).state (n + 5) = ((handover n).state (n + 4)).publishSync 0 500 := by
    rw [(handover n).state_succ (handover_ops_add n 1) rfl, Detector.release, if_neg]
    simp [he 1 (by omega)]
  have hs₆ : (handover n).state (n + 6) = ((handover n).state (n + 5)).publishSync 0 600 := by
    rw [(handover n).state_succ (handover_ops_add n 2) rfl, Detector.mutexUnlock, if_neg]
    simp [he 2 (by omega)]
  have hs₇ : (handover n).state (n + 7) = ((handover n).state (n + 6)).joinSync 1 600 := by
    rw [(handover n).state_succ (handover_ops_add n 3) rfl, Detector.mutexPostLock, if_neg]
    simp [he 3 (by omega)]
  have hbump : bump (n + 1) = 0 := by rw [bump, hn, Nat.mod_self]
  have hne : (1 : Tid) ≠ 0 := by decide
  -- What thread 1 acquires is the counter after the wrap-around.
  have hlt : ((handover n).state (n + 7)).threadClocks 1 0 <
      ((handover n).state (n + 3)).threadClocks 0 0 := by
    rw [← Detector.clockOf_thread, hs₇, Detector.clockOf_joinSync, hs₆]
    simp only [Detector.clockOf_publishSync, hs₅]
    simp [Detector.clockOf, hclocks, hsync, h₀, h₁, hbump, hne]
  have hcell₇ : ((handover n).state (n + 7)).cellAt 1000 8 (ShadowBuffer.evictSlot 0) =
      ((handover n).state (n + 4)).cellAt 1000 8 (ShadowBuffer.evictSlot 0) := by
    refine Detector.cellAt_of_eq ?_ _ _
    rw [hs₇, Detector.joinSync, hs₆, hs₅]
    split <;> rfl
  exact found_of_cellAt (handover_ops_add n 4) (le_refl 8) (by omega) (hcell₇.trans hcell) hne.symm
    (.inl rfl) hlt

/-- Without a bound on the counters the order of accesses is not respected: thread 0 publishes so
often that its counter wraps around, and is then reported against an access of thread 1 that it is
ordered before. No slot is freed in the run, and only two of the slots are used. -/
theorem exists_falsePositive_of_wrap : ∃ (r : Run) (k : ℕ) (report : RaceReport),
    (∀ o ∈ r.ops, o = .threadCreate uint32Max ∨ (∃ t a, o = .release t a) ∨
      (∃ t a, o = .mutexPostLock t a) ∨ (∃ t a, o = .mutexUnlock t a) ∨
      ∃ t, o = .memoryAccess 1000 64 8 1 t true) ∧
    (∀ i p, r.ops[i]? = some (.threadCreate p) → (r.state i).threadAlive 63 = false) ∧
    r.ops[k]? = some (.memoryAccess 1000 64 8 1 1 true) ∧
    Op.found (r.state k) (.memoryAccess 1000 64 8 1 1 true) = some report ∧
    ∀ i, r.Recorded i k 1000 report.sabOffset report.tid1 report.isWrite1 →
      r.HappensBefore (i, report.tid1) (k, 1) := by
  obtain ⟨n, hn⟩ : ∃ n, n + 2 = 2 ^ 64 := ⟨2 ^ 64 - 2, Nat.sub_add_cancel (by decide)⟩
  obtain ⟨report, hf⟩ := Option.isSome_iff_exists.mp (handover_found hn)
  refine ⟨handover n, n + 7, report, fun o ho ↦ mem_handoverOps ho, ?_, handover_ops_add n 4, hf,
    ?_⟩
  · intro i p ho
    have hi := handover_create ho
    interval_cases i <;> rfl
  · intro i hrec
    -- Of the two accesses, only the one of thread 0 is earlier.
    obtain ⟨len, off, size, ho, -⟩ := hrec.access
    have hlt := hrec.lt
    rcases handover_access ho with ⟨rfl, htid⟩ | ⟨rfl, -⟩
    · rw [htid]
      exact handover_happensBefore n
    · omega

end Run

end WebTSan
