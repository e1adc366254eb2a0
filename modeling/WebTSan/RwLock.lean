import WebTSan.NoFalsePositive

/-!
# Reader-writer locks

`MutexReadUnlock` does not publish: readers do not change what the lock protects. A writer is
therefore not ordered after the readers before it. In a program that protects a byte with one
reader-writer lock, the only races found on the byte are those of a write with an earlier read under
the read lock, whose thread has not unlocked the lock as a writer in between. All other accesses to
the byte are ordered through the lock.

## Main definitions

* `WebTSan.Run.HoldsWrite`, `WebTSan.Run.HoldsRead`.
* `WebTSan.Run.RwLocked`: the byte is protected by a reader-writer lock.

## Main results

* `WebTSan.Run.RwLocked.happensBefore`: accesses under the write lock are ordered before the later
  ones.
* `WebTSan.Run.rwLocked_found`, `WebTSan.Run.exists_found_of_rwLocked`.
-/

namespace WebTSan

namespace Run

variable {r : Run}

/-- At position `i`, thread `t` is in the section that it has entered at position `l` by the call
`lock` and that it leaves by the call `unlock`. -/
structure InSection (r : Run) (lock unlock : Op) (l i : ℕ) (t : Tid) : Prop where
  lock : r.ops[l]? = some lock
  lt : l < i
  same : r.SameOccupant t l i
  open_ {m : ℕ} (hl : l < m) (hi : m < i) : r.ops[m]? ≠ some unlock

/-- Thread `t` holds the lock at `a` as a writer. -/
def HoldsWrite (r : Run) (l i : ℕ) (t : Tid) (a : ℕ) : Prop :=
  r.InSection (.mutexPostLock t a) (.mutexUnlock t a) l i t

/-- Thread `t` holds the lock at `a` as a reader. -/
def HoldsRead (r : Run) (l i : ℕ) (t : Tid) (a : ℕ) : Prop :=
  r.InSection (.mutexReadLock t a) (.mutexReadUnlock t a) l i t

/-- The byte is protected by the reader-writer lock at address `a`: writes hold the lock as writers
and reads hold it in one of the two ways. A writer has unlocked before another thread locks, and a
reader has unlocked before another thread locks as a writer. The lock is not created or destroyed
once it is used. -/
structure RwLocked (r : Run) (bs byte a : ℕ) : Prop where
  access {i : ℕ} {t : Tid} {w : Bool} (h : r.Accesses i bs byte t w) :
    (∃ l, r.HoldsWrite l i t a) ∨ w = false ∧ ∃ l, r.HoldsRead l i t a
  writer {l j : ℕ} {t u : Tid} (hl : r.ops[l]? = some (.mutexPostLock t a)) (hlj : l < j)
    (htu : t ≠ u) (hj : r.ops[j]? = some (.mutexPostLock u a) ∨
      r.ops[j]? = some (.mutexReadLock u a)) :
    ∃ m, l < m ∧ m < j ∧ r.ops[m]? = some (.mutexUnlock t a) ∧ r.SameOccupant t l m
  reader {l j : ℕ} {t u : Tid} (hl : r.ops[l]? = some (.mutexReadLock t a)) (hlj : l < j)
    (htu : t ≠ u) (hj : r.ops[j]? = some (.mutexPostLock u a)) :
    ∃ m, l < m ∧ m < j ∧ r.ops[m]? = some (.mutexReadUnlock t a) ∧ r.SameOccupant t l m
  keeps {l m : ℕ} {o : Op} {t : Tid} (hl : r.ops[l]? = some (.mutexPostLock t a) ∨
      r.ops[l]? = some (.mutexReadLock t a)) (hlm : l < m) (hm : r.ops[m]? = some o) :
    o.erases ≠ some a

/-- From an unlock of a writer to an access in a section that is entered later. -/
theorem happensBefore_of_unlock {a m l k : ℕ} {t u : Tid}
    (hm : r.ops[m]? = some (.mutexUnlock t a)) (hml : m < l) (hkeep : r.KeepsSync a m l)
    (hl : r.AcquiresAt l u a) (hlk : l < k) (hsame : r.SameOccupant u l k)
    (hk : k ≤ r.ops.length) : r.HappensBefore (m, t) (k, u) := by
  have hb : r.HappensBefore (m, t) (l + 1, u) := .single (.sync hml ⟨_, hm, rfl⟩ hl hkeep)
  exact hb.programOrder (hsame.mono (Nat.le_succ l) le_rfl) hlk hk

namespace RwLocked

variable {bs byte a : ℕ} (h : r.RwLocked bs byte a)
include h

/-- The section of an access of thread `u` starts later than a section that another thread has
entered as a writer before. -/
theorem exists_section {i k l : ℕ} {t u : Tid} {w : Bool} (hx : r.HoldsWrite l i t a)
    (hy : r.Accesses k bs byte u w) (hik : i < k) (htu : t ≠ u) : ∃ j,
      (r.ops[j]? = some (.mutexPostLock u a) ∨ r.ops[j]? = some (.mutexReadLock u a)) ∧
      l < j ∧ j < k ∧ r.SameOccupant u j k := by
  have hli := hx.lt
  rcases h.access hy with ⟨j, hj⟩ | ⟨-, j, hj⟩
  · refine ⟨j, .inl hj.lock, ?_, hj.lt, hj.same⟩
    by_contra hlj
    rcases (not_lt.mp hlj).eq_or_lt with rfl | hjl
    · exact htu (Op.mutexPostLock.inj (Option.some.inj (hx.lock.symm.trans hj.lock))).1
    · obtain ⟨m, hjm, hml, hm, -⟩ := h.writer hj.lock hjl htu.symm (.inl hx.lock)
      exact hj.open_ hjm (by omega) hm
  · refine ⟨j, .inr hj.lock, ?_, hj.lt, hj.same⟩
    by_contra hlj
    rcases (not_lt.mp hlj).eq_or_lt with rfl | hjl
    · cases hx.lock.symm.trans hj.lock
    · obtain ⟨m, hjm, hml, hm, -⟩ := h.reader hj.lock hjl htu.symm hx.lock
      exact hj.open_ hjm (by omega) hm

/-- An access under the write lock happens before every later access of another thread. -/
theorem happensBefore {i k l : ℕ} {t u : Tid} {w : Bool} (hx : r.HoldsWrite l i t a)
    (hi : r.ops[i]? ≠ some (.mutexUnlock t a)) (hy : r.Accesses k bs byte u w) (hik : i < k)
    (htu : t ≠ u) : r.HappensBefore (i, t) (k, u) := by
  obtain ⟨j, hj, hlj, hjk, hsame⟩ := h.exists_section hx hy hik htu
  obtain ⟨_, _, _, hk, -⟩ := hy
  obtain ⟨m, hlm, hmj, hm, hsame'⟩ := h.writer hx.lock hlj htu hj
  have him : i < m := by
    by_contra hmi
    rcases (not_lt.mp hmi).eq_or_lt with rfl | hmi
    · exact hi hm
    · exact hx.open_ hlm hmi hm
  have hacq : r.AcquiresAt j u a := hj.elim (fun hj ↦ ⟨_, hj, rfl⟩) fun hj ↦ ⟨_, hj, rfl⟩
  have hkeep : r.KeepsSync a m j := fun n o hn _ ho ↦ h.keeps (.inl hx.lock) (hlm.trans hn) ho
  have hb := happensBefore_of_unlock hm hmj hkeep hacq hjk hsame (lt_length_of_getElem? hk).le
  exact .head (.programOrder him (lt_length_of_getElem? hm).le (hsame'.mono hx.lt.le le_rfl)) hb

/-- A writer that accesses after a reader has entered its section after the access of the reader. -/
theorem lt_of_holdsRead {i j k l : ℕ} {t u : Tid} (hx : r.HoldsRead l i t a)
    (hy : r.HoldsWrite j k u a) (hik : i < k) (htu : t ≠ u) :
    i < j := by
  have hli := hx.lt
  by_contra hij
  rcases lt_trichotomy j l with hjl | rfl | hlj
  · obtain ⟨m, hjm, hml, hm, -⟩ := h.writer hy.lock hjl htu.symm (.inr hx.lock)
    exact hy.open_ hjm (by omega) hm
  · cases hx.lock.symm.trans hy.lock
  · obtain ⟨m, hlm, hmj, hm, -⟩ := h.reader hx.lock hlj htu hy.lock
    exact hx.open_ hlm (by omega) hm

end RwLocked

/-- In a program that protects a byte with a reader-writer lock, a race found on this byte is one of
a write under the write lock with an earlier read under the read lock, and the reading thread has
not unlocked the lock as a writer between the two. -/
theorem rwLocked_found (r : Run) (hw : r.NoWrap) {k bs byte a len off size : ℕ} {u : Tid} {w : Bool}
    {report : RaceReport} (h : r.RwLocked bs byte a)
    (ho : r.ops[k]? = some (.memoryAccess bs len off size u w))
    (hf : Op.found (r.state k) (.memoryAccess bs len off size u w) = some report)
    (hbyte : report.sabOffset = byte) :
    report.isWrite1 = false ∧ w = true ∧ ∃ i, r.Recorded i k bs byte report.tid1 false ∧
      (∃ l, r.HoldsRead l i report.tid1 a) ∧ ∃ j, r.HoldsWrite j k u a ∧ i < j ∧
        ∀ m, i < m → m < j → r.SameOccupant report.tid1 i m →
          r.ops[m]? ≠ some (.mutexUnlock report.tid1 a) := by
  obtain ⟨i, hrec, hepoch, -, hb, hb', -, -, htu, hww, hlt⟩ := exists_recorded_of_found ho hf
  rw [hepoch] at hlt
  rw [hbyte] at hrec hb hb'
  have hunordered := not_happensBefore_of_lt hw hlt
  have hy : r.Accesses k bs byte u w := ⟨len, off, size, ho, hb, hb'⟩
  obtain ⟨len', off', size', hi, -⟩ := hrec.access
  rcases h.access hrec.access with ⟨l, hx⟩ | ⟨hread, l, hx⟩
  · have hne : r.ops[i]? ≠ some (.mutexUnlock report.tid1 a) := by
      rw [hi]
      nofun
    exact absurd (h.happensBefore hx hne hy hrec.lt htu) hunordered
  · rw [hread] at hrec hww
    obtain hw' : w = true := hww.resolve_left nofun
    rcases h.access hy with ⟨j, hj⟩ | ⟨hy', -⟩
    · refine ⟨hread, hw', i, hrec, ⟨l, hx⟩, j, hj, ?_, fun m him hmj hsame hm ↦ hunordered ?_⟩
      · exact h.lt_of_holdsRead hx hj hrec.lt htu
      · have hkeep : r.KeepsSync a m j :=
          fun n o hn _ hno ↦ h.keeps (.inr hx.lock) ((hx.lt.trans him).trans hn) hno
        have hb := happensBefore_of_unlock hm hmj hkeep ⟨_, hj.lock, rfl⟩ hj.lt hj.same
          (lt_length_of_getElem? ho).le
        exact .head (.programOrder him (lt_length_of_getElem? hm).le hsame) hb
    · rw [hw'] at hy'
      cases hy'

/-- Thread 0 reads a byte under the read lock. Thread 1 then writes it under the write lock. -/
def readThenWrite : Run :=
  .ofOps [.threadCreate uint32Max, .threadCreate uint32Max, .mutexReadLock 0 600,
    .memoryAccess 1000 64 8 1 0 false, .mutexReadUnlock 0 600, .mutexPostLock 1 600,
    .memoryAccess 1000 64 8 1 1 true, .mutexUnlock 1 600] (by decide)

theorem readThenWrite_rwLocked : readThenWrite.RwLocked 1000 8 600 where
  access {i t w} hi := by
    obtain ⟨len, off, size, hi, -⟩ := hi
    have hlt : i < 8 := lt_length_of_getElem? hi
    have hsame (t : Tid) {l i : ℕ} (hl : 2 ≤ l) : readThenWrite.SameOccupant t l i := by
      rintro m hm - ⟨p, ho, -⟩
      have hm2 : 2 ≤ m := hl.trans hm
      have hm8 : m < 8 := lt_length_of_getElem? ho
      interval_cases m <;> cases ho
    interval_cases i <;> cases Option.some.inj hi
    · exact .inr ⟨rfl, 2, rfl, by decide, hsame 0 le_rfl, fun hl hi ↦ by omega⟩
    · exact .inl ⟨5, rfl, by decide, hsame 1 (by decide), fun hl hi ↦ by omega⟩
  writer {l j t u} hl hlj _ hj := by
    have hlt : l < 8 := lt_length_of_getElem? hl
    interval_cases l <;> cases Option.some.inj hl
    have hj8 : j < 8 := hj.elim lt_length_of_getElem? lt_length_of_getElem?
    interval_cases j <;> rcases hj with hj | hj <;> cases hj
  reader {l j t u} hl hlj _ hj := by
    have hlt : l < 8 := lt_length_of_getElem? hl
    interval_cases l <;> cases Option.some.inj hl
    have hj8 : j < 8 := lt_length_of_getElem? hj
    interval_cases j <;> cases Option.some.inj hj
    refine ⟨4, by decide, by decide, rfl, ?_⟩
    rintro m hm hm4 ⟨p, ho, -⟩
    interval_cases m <;> cases ho
  keeps {l m o t} _ _ hm := by
    have hlt : m < 8 := lt_length_of_getElem? hm
    interval_cases m <;> cases Option.some.inj hm <;> nofun

theorem readThenWrite_found : ∃ i, readThenWrite.Recorded i 6 1000 8 0 false ∧
    (∃ l, readThenWrite.HoldsRead l i 0 600) ∧ ∃ j, readThenWrite.HoldsWrite j 6 1 600 := by
  have hf : Op.found (readThenWrite.state 6) (.memoryAccess 1000 64 8 1 1 true) =
      some ⟨8, 1000, 64, 0, false, 1, 1, true, 1⟩ := by decide
  obtain ⟨-, -, i, hrec, hread, j, hwrite, -⟩ := readThenWrite.rwLocked_found
    (readThenWrite.noWrap_of_length (by decide)) readThenWrite_rwLocked rfl hf rfl
  exact ⟨i, hrec, hread, j, hwrite⟩

/-- The byte of the run `handover` is protected, too. -/
theorem handover_rwLocked (n : ℕ) : (handover n).RwLocked 1000 8 600 where
  access {i t w} hi := by
    obtain ⟨len, off, size, hi, -⟩ := hi
    left
    rcases handover_access hi with ⟨rfl, rfl⟩ | ⟨rfl, rfl⟩
    · refine ⟨2, rfl, by omega, handover_sameOccupant le_rfl, fun {m} hm hmi ho ↦ ?_⟩
      rcases handover_ops_cases ho with hm3 | h | ⟨j, -, rfl, -⟩
      · omega
      · cases h
      · omega
    · exact ⟨n + 6, handover_ops_add n 3, by omega, handover_sameOccupant (by omega),
        fun hm hmi ↦ by omega⟩
  writer {l j t u} hl hlj htu hj := by
    have hju : j = 2 ∧ u = 0 ∨ j = n + 6 ∧ u = 1 := by
      rcases hj with hj | hj
      · exact handover_lock hj
      · rcases mem_handoverOps (List.mem_of_getElem? hj) with h | ⟨_, _, h⟩ | ⟨_, _, h⟩ |
          ⟨_, _, h⟩ | ⟨_, h⟩ <;> cases h
    rcases handover_lock hl with ⟨rfl, rfl⟩ | ⟨rfl, rfl⟩
    · refine ⟨n + 5, by omega, by omega, handover_ops_add n 2, handover_sameOccupant le_rfl⟩
    · omega
  reader {l j t u} hl _ _ _ := by
    rcases mem_handoverOps (List.mem_of_getElem? hl) with h | ⟨_, _, h⟩ | ⟨_, _, h⟩ |
      ⟨_, _, h⟩ | ⟨_, h⟩ <;> cases h
  keeps {l m o t} _ _ hm := by
    rcases mem_handoverOps (List.mem_of_getElem? hm) with rfl | ⟨_, _, rfl⟩ | ⟨_, _, rfl⟩ |
      ⟨_, _, rfl⟩ | ⟨_, rfl⟩ <;> nofun

/-- Races are found on bytes that are protected by a reader-writer lock: a write with an earlier
read, since readers do not publish, and any two accesses once a counter wraps around. -/
theorem exists_found_of_rwLocked :
    (∃ (r : Run) (k bs byte a : ℕ) (report : RaceReport), r.RwLocked bs byte a ∧ r.NoWrap ∧
      r.ops[k]? = some (.memoryAccess bs 64 byte 1 1 true) ∧
      Op.found (r.state k) (.memoryAccess bs 64 byte 1 1 true) = some report ∧
      report.isWrite1 = false) ∧
    ∃ (r : Run) (k bs byte a : ℕ) (report : RaceReport), r.RwLocked bs byte a ∧
      r.ops[k]? = some (.memoryAccess bs 64 byte 1 1 true) ∧
      Op.found (r.state k) (.memoryAccess bs 64 byte 1 1 true) = some report ∧
      report.isWrite1 = true := by
  refine ⟨⟨readThenWrite, 6, 1000, 8, 600, ⟨8, 1000, 64, 0, false, 1, 1, true, 1⟩,
    readThenWrite_rwLocked, readThenWrite.noWrap_of_length (by decide), rfl, by decide, rfl⟩, ?_⟩
  obtain ⟨n, hn⟩ : ∃ n, n + 2 = 2 ^ 64 := ⟨2 ^ 64 - 2, Nat.sub_add_cancel (by decide)⟩
  obtain ⟨report, hf⟩ := Option.isSome_iff_exists.mp (handover_found hn)
  obtain ⟨i, hrec, -⟩ := exists_recorded_of_found (handover_ops_add n 4) hf
  refine ⟨handover n, n + 7, 1000, 8, 600, report, handover_rwLocked n, handover_ops_add n 4,
    hf, ?_⟩
  obtain ⟨_, _, _, hi, -⟩ := hrec.access
  rcases mem_handoverOps (List.mem_of_getElem? hi) with h | ⟨_, _, h⟩ | ⟨_, _, h⟩ | ⟨_, _, h⟩ |
    ⟨_, h⟩
  · cases h
  · cases h
  · cases h
  · cases h
  · exact (Op.memoryAccess.inj h).2.2.2.2.2

end Run

end WebTSan
