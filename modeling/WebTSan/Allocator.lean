import WebTSan.Run

/-!
# Handing out slots

A `Session` is any sequence of calls of the singleton, from its construction on, with switching the
detector on and off and `Reset` among them. `ThreadCreate` searches all slots for a free one. When
there is none the search falls through to `next_tid_`, which is inside of the array, so that the
`CHECK` behind the search passes and the slot of a live thread is handed out again.

## Main definitions

* `WebTSan.Call`, `WebTSan.Session`.
* `WebTSan.Session.LiveThread`: a logical thread, named by the call that created it.

## Main results

* `WebTSan.Detector.exists_findSlot_of_free`, `WebTSan.Detector.findSlot_of_full`.
* `WebTSan.Session.threadCreate_free_iff`.
-/

namespace WebTSan

/-- A call of a member function of the singleton. -/
inductive Call
  | op (o : Op)
  | enable
  | disable
  | incrementSuppressedCount
  | reset

/-- The state after a call, if the call returns. -/
def Call.exec (s : Detector) : Call → Option Detector
  | .op o => o.exec s
  | .enable => some s.enable
  | .disable => some s.disable
  | .incrementSuppressedCount => some s.incrementSuppressedCount
  | .reset => some s.reset

/-- A finite sequence of calls that return, from the construction of the singleton on. -/
abbrev Session := Execution Call.exec Detector.initial.disable

namespace Detector

variable {s : Detector}

/-- Every slot is a candidate of the search. -/
theorem exists_candidate_eq (s : Detector) (t : Tid) : ∃ i < kMaxThreads, s.candidate i = t := by
  have ht := t.isLt
  refine ⟨(t + kMaxThreads - s.nextTid % kMaxThreads) % kMaxThreads, Nat.mod_lt _ (by decide),
    Fin.ext ?_⟩
  simp only [candidate, kMaxThreads] at *
  omega

/-- The search finds a free slot if there is one. -/
theorem exists_findSlot_of_free (h : ∃ t, s.threadAlive t = false) :
    ∃ t : Tid, s.findSlot = t ∧ s.threadAlive t = false := by
  obtain ⟨t, ht⟩ := h
  obtain ⟨i, hi, rfl⟩ := s.exists_candidate_eq t
  rw [findSlot]
  cases hfind : (List.range kMaxThreads).find? fun i ↦ !s.threadAlive (s.candidate i) with
  | some j =>
    have hj := List.find?_some hfind
    exact ⟨s.candidate j, rfl, by simpa using hj⟩
  | none =>
    have hnone := List.find?_eq_none.mp hfind i (List.mem_range.mpr hi)
    simp [ht] at hnone

/-- The search falls through to `next_tid_` if no slot is free. -/
theorem findSlot_of_full (h : ∀ t, s.threadAlive t = true) : s.findSlot = s.nextTid := by
  have hfind : (List.range kMaxThreads).find? (fun i ↦ !s.threadAlive (s.candidate i)) = none := by
    rw [List.find?_eq_none]
    intro i _
    simp [h]
  rw [findSlot, hfind]

end Detector

/-- The disabled detector still creates threads, and `ThreadDestroy` still frees slots. -/
theorem Op.exec_slots_of_disabled {s s' : Detector} {o : Op} (he : ¬s.enabled = true)
    (h : o.exec s = some s') :
    (∃ (p : ℕ) (t : Tid), o = .threadCreate p ∧ s.threadCreate p = some (t, s')) ∨
      (∀ p, o ≠ .threadCreate p) ∧ s'.nextTid = s.nextTid ∧
        ∀ u, s'.threadAlive u = true → s.threadAlive u = true := by
  cases o with
  | threadCreate p =>
    obtain ⟨⟨t, s''⟩, hc, rfl⟩ := Option.map_eq_some_iff.mp h
    exact .inl ⟨p, t, rfl, hc⟩
  | threadDestroy t =>
    obtain rfl := Option.some.inj h
    refine .inr ⟨by simp, by simp [Detector.threadDestroy, he], fun u hu ↦ ?_⟩
    by_cases hut : u = t
    · subst hut
      simp [Detector.threadDestroy, he] at hu
    · simpa [Detector.threadDestroy, he, hut] using hu
  | clearShadow bs off size =>
    obtain ⟨shadows, rfl⟩ := Detector.clearShadow_eq h
    exact .inr ⟨by simp, rfl, fun _ hu ↦ hu⟩
  | _ =>
    have hs : s' = s := by
      simpa [exec, he, Detector.threadFinish, Detector.threadJoin, Detector.threadDetach,
        Detector.threadAbsorb, Detector.acquire, Detector.release, Detector.mutexCreate,
        Detector.mutexDestroy, Detector.mutexPreLock, Detector.mutexPostLock, Detector.mutexUnlock,
        Detector.mutexReadLock, Detector.mutexReadUnlock, Detector.happensBefore,
        Detector.happensAfter, Detector.removeShadow, Detector.memoryAccess, eq_comm] using h
    rw [hs]
    exact .inr ⟨by simp, rfl, fun _ hu ↦ hu⟩

/-- Apart from creating threads, calls only free slots. -/
theorem Call.exec_slots {s s' : Detector} {c : Call} (hs : s.nextTid < kMaxThreads)
    (h : c.exec s = some s') :
    (∃ (p : ℕ) (t : Tid), c = .op (.threadCreate p) ∧ s.threadCreate p = some (t, s')) ∨
      (∀ p, c ≠ .op (.threadCreate p)) ∧ s'.nextTid < kMaxThreads ∧
        ∀ u, s'.threadAlive u = true → s.threadAlive u = true := by
  cases c with
  | op o =>
    by_cases he : s.enabled = true
    · rcases Op.exec_slots he h with ⟨p, t, rfl, ht, rfl⟩ | ⟨hne, hnext, halive⟩
      · exact .inl ⟨p, t, rfl, Detector.threadCreate_eq_some_iff.mpr ⟨ht, rfl⟩⟩
      · refine .inr ⟨fun p hp ↦ hne p (Call.op.inj hp), hnext ▸ hs, fun u hu ↦ ?_⟩
        rw [halive] at hu
        split_ifs at hu
        exact hu
    · exact (Op.exec_slots_of_disabled he h).imp (fun ⟨p, t, hp, hc⟩ ↦ ⟨p, t, hp ▸ rfl, hc⟩)
        fun ⟨hne, hnext, halive⟩ ↦
          ⟨fun p hp ↦ hne p (Call.op.inj hp), hnext ▸ hs, halive⟩
  | reset =>
    obtain rfl := Option.some.inj h
    exact .inr ⟨nofun, Nat.zero_lt_of_lt hs, nofun⟩
  | enable | disable | incrementSuppressedCount =>
    obtain rfl := Option.some.inj h
    exact .inr ⟨nofun, hs, fun _ hu ↦ hu⟩

namespace Session

variable {S : Session}

theorem nextTid_lt (S : Session) {k : ℕ} (hk : k ≤ S.ops.length) :
    (S.state k).nextTid < kMaxThreads := by
  refine S.invariant_of_step (P := fun s ↦ s.nextTid < kMaxThreads) (by decide)
    (fun hc hs ↦ ?_) hk
  rcases Call.exec_slots hs (S.step hc) with ⟨p, t, -, h⟩ | ⟨-, h, -⟩
  · rw [(Detector.threadCreate_eq_some_iff.mp h).2]
    exact Nat.mod_lt _ (by decide)
  · exact h

/-- The call at position `i` creates a thread in slot `t`. -/
def Creates (S : Session) (i : ℕ) (t : Tid) : Prop :=
  ∃ p, S.ops[i]? = some (.op (.threadCreate p)) ∧
    (S.state i).threadCreate p = some (t, S.state (i + 1))

/-- The logical thread created at position `i` in slot `t` is live at point `k`: its slot has been
alive since the creation. -/
structure LiveThread (S : Session) (i : ℕ) (t : Tid) (k : ℕ) : Prop where
  creates : S.Creates i t
  lt : i < k
  alive {m : ℕ} (hi : i < m) (hk : m ≤ k) : (S.state m).threadAlive t = true

theorem Creates.alive {i : ℕ} {t : Tid} (h : S.Creates i t) :
    (S.state (i + 1)).threadAlive t = true := by
  obtain ⟨p, -, h⟩ := h
  rw [(Detector.threadCreate_eq_some_iff.mp h).2]
  exact Function.update_self ..

/-- A live slot belongs to a live logical thread. -/
theorem exists_liveThread {k : ℕ} (hk : k ≤ S.ops.length) {t : Tid}
    (ht : (S.state k).threadAlive t = true) : ∃ i, S.LiveThread i t k := by
  induction k with
  | zero =>
    rw [S.state_zero] at ht
    cases ht
  | succ k ih =>
    have hk' := Nat.le_of_succ_le hk
    have hc := List.getElem?_eq_getElem hk
    by_cases hcreate : S.Creates k t
    · refine ⟨k, hcreate, Nat.lt_succ_self k, fun {m} hi hm ↦ ?_⟩
      obtain rfl : m = k + 1 := by omega
      exact ht
    · have hold : (S.state k).threadAlive t = true := by
        rcases Call.exec_slots (S.nextTid_lt hk') (S.step hc) with ⟨p, u, hp, h⟩ | ⟨-, -, h⟩
        · have hu : t ≠ u := by
            rintro rfl
            exact hcreate ⟨p, hp ▸ hc, h⟩
          rw [(Detector.threadCreate_eq_some_iff.mp h).2, Detector.occupy_threadAlive] at ht
          rwa [Function.update_of_ne hu] at ht
        · exact h t ht
      obtain ⟨i, hi⟩ := ih hk' hold
      refine ⟨i, hi.creates, Nat.lt_succ_of_lt hi.lt, fun {m} him hm ↦ ?_⟩
      rcases Nat.lt_succ_iff_lt_or_eq.mp (Nat.lt_succ_of_le hm) with hm | rfl
      · exact hi.alive him (Nat.le_of_lt_succ hm)
      · exact ht

/-- `ThreadCreate` returns a slot that was free exactly if there is a free slot; it never stops the
process. If there is a free slot, the clocks of live threads are kept. Live logical threads have
distinct slots in every state of a session exactly if every creation of the session finds a free
slot. -/
theorem threadCreate_free_iff (S : Session) :
    (∀ k ≤ S.ops.length, ∀ p,
      (S.state k).threadCreate p ≠ none ∧
      ((∀ t s', (S.state k).threadCreate p = some (t, s') → (S.state k).threadAlive t = false) ↔
        ∃ t, (S.state k).threadAlive t = false) ∧
      ((∃ t, (S.state k).threadAlive t = false) → ∀ t s',
        (S.state k).threadCreate p = some (t, s') →
        ∀ u, (S.state k).threadAlive u = true →
          s'.threadClocks u = (S.state k).threadClocks u)) ∧
    ((∀ k ≤ S.ops.length, ∀ i j t, S.LiveThread i t k → S.LiveThread j t k → i = j) ↔
      ∀ k p, S.ops[k]? = some (.op (.threadCreate p)) →
        ∃ t, (S.state k).threadAlive t = false) := by
  have hreturns {k : ℕ} (hk : k ≤ S.ops.length) (p : ℕ) :
      ∃ t : Tid, (S.state k).findSlot = t ∧
        (S.state k).threadCreate p = some (t, (S.state k).occupy t p) := by
    have hlt := (S.state k).findSlot_lt (S.nextTid_lt hk)
    exact ⟨⟨_, hlt⟩, rfl, Detector.threadCreate_eq_some_iff.mpr ⟨rfl, rfl⟩⟩
  have hslot {k : ℕ} {p : ℕ} {t : Tid} {s' : Detector}
      (hfree : ∃ t, (S.state k).threadAlive t = false)
      (h : (S.state k).threadCreate p = some (t, s')) : (S.state k).threadAlive t = false := by
    obtain ⟨u, hu, halive⟩ := Detector.exists_findSlot_of_free hfree
    have htu : t = u := Fin.ext ((Detector.threadCreate_eq_some_iff.mp h).1.symm.trans hu)
    rwa [htu]
  refine ⟨fun k hk p ↦ ?_, fun hdistinct k p hc ↦ ?_, fun hfree k hk i j t hi hj ↦ ?_⟩
  · obtain ⟨t, ht, hcreate⟩ := hreturns hk p
    refine ⟨by simp [hcreate], ⟨fun h ↦ ⟨t, h t _ hcreate⟩, fun hfree _ _ h ↦ hslot hfree h⟩, ?_⟩
    intro hfree t s' h u hu
    have hut : u ≠ t := by
      rintro rfl
      rw [hslot hfree h] at hu
      cases hu
    rw [(Detector.threadCreate_eq_some_iff.mp h).2, Detector.occupy_threadClocks,
      Function.update_of_ne hut]
  · -- With all slots alive, the new thread shares the slot of a live one.
    by_contra hfull
    have halive (t : Tid) : (S.state k).threadAlive t = true := by
      by_contra ht
      exact hfull ⟨t, Bool.not_eq_true _ ▸ ht⟩
    have hk : k < S.ops.length := (List.getElem?_eq_some_iff.mp hc).1
    obtain ⟨t, -, hcreate⟩ := hreturns hk.le p
    have hs : (S.state k).occupy t p = S.state (k + 1) := by
      have hstep := S.step hc
      simp only [Call.exec, Op.exec, hcreate, Option.map_some] at hstep
      exact Option.some.inj hstep
    have hnew : S.Creates k t := ⟨p, hc, hs ▸ hcreate⟩
    obtain ⟨i, hi⟩ := exists_liveThread hk.le (halive t)
    have hi' : S.LiveThread i t (k + 1) := by
      refine ⟨hi.creates, Nat.lt_succ_of_lt hi.lt, fun {m} him hm ↦ ?_⟩
      rcases Nat.lt_succ_iff_lt_or_eq.mp (Nat.lt_succ_of_le hm) with hm | rfl
      · exact hi.alive him (Nat.le_of_lt_succ hm)
      · exact hnew.alive
    have hk' : S.LiveThread k t (k + 1) := by
      refine ⟨hnew, Nat.lt_succ_self k, fun {m} hkm hm ↦ ?_⟩
      obtain rfl : m = k + 1 := by omega
      exact hnew.alive
    exact absurd (hdistinct (k + 1) hk i k t hi' hk') hi.lt.ne
  · -- The later one of two threads in a slot was created while the slot was alive.
    have hlt {i j : ℕ} (hi : S.LiveThread i t k) (hj : S.LiveThread j t k) : ¬i < j := by
      intro hij
      obtain ⟨p, hc, h⟩ := hj.creates
      have hdead := hslot (hfree j p hc) h
      rw [hi.alive hij hj.lt.le] at hdead
      cases hdead
    exact le_antisymm (not_lt.mp (hlt hj hi)) (not_lt.mp (hlt hi hj))

/-- The detector is switched on and creates 65 threads. -/
def createTooMany : Session :=
  .ofOps (.enable :: List.replicate 65 (.op (.threadCreate uint32Max))) (by decide +kernel)

theorem createTooMany_slot : ∃ t, (createTooMany.state 1).threadAlive t = false ∧
    ∀ s', (createTooMany.state 1).threadCreate 7 = some (t, s') →
      ∀ u, (createTooMany.state 1).threadAlive u = true →
        s'.threadClocks u = (createTooMany.state 1).threadClocks u := by
  obtain ⟨-, -, hkeep⟩ := createTooMany.threadCreate_free_iff.1 1 (by decide) 7
  exact ⟨0, by decide, hkeep ⟨0, by decide⟩ 0⟩

/-- With all slots alive `ThreadCreate` hands out the slot of a live thread and resets its clock. -/
theorem exists_threadCreate_alive : ∃ (S : Session) (k : ℕ) (t : Tid) (s' : Detector),
    S.ops[k]? = some (.op (.threadCreate uint32Max)) ∧
      (∀ u, (S.state k).threadAlive u = true) ∧
      (S.state k).threadCreate uint32Max = some (t, s') ∧ (S.state k).threadAlive t = true := by
  refine ⟨createTooMany, 65, 0, (createTooMany.state 65).occupy 0 uint32Max, rfl, ?_, ?_, ?_⟩
  · decide +kernel
  · exact Detector.threadCreate_eq_some_iff.mpr ⟨by decide +kernel, rfl⟩
  · decide +kernel

end Session

end WebTSan
