import WebTSan.Publication

/-!
# Read-modify-writes of one location

`OnAtomicsRMW` calls `Acquire` and then `Release`, under two locks. Between the two, other threads
may run the same hook on the same location. If two calls do not overlap, the thread that comes
second takes over the clock of the first. If they overlap, neither acquires what the other releases,
and nothing in the two calls orders their threads.

## Main definitions

* `WebTSan.Run.OnAtomicsRMW`: the two detector calls of the hook, as positions of a run.
* `WebTSan.Run.RmwPair`: two such calls on one location, and a point at which both have completed.
* `WebTSan.Run.RmwOrdered`: one of the threads knows what the other one knew at its start.

## Main results

* `WebTSan.Run.rmwPair_ordered`: which pairs of calls are ordered.
* `WebTSan.Run.exists_unordered_rmwPair`: a pair that is not, and a report that follows from it.
-/

namespace WebTSan

/-- A source of a thread's clock other than the thread itself makes the call move the clock. -/
theorem Detector.moves_of_mem_sources {s : Detector} {o : Op} {t : Tid} {x : Place}
    (hx : x ≠ .thread t) (hmem : x ∈ s.sources o (.thread t))
    (hc : ∀ p, o = .threadCreate p → s.nextSlot ≠ t) : o.moves t = true ∧ o.releases = none := by
  rcases s.mem_sources_thread.mp hmem with ⟨h, -⟩ | ⟨q, rfl, ht, -⟩ | ⟨_, rfl, ht, -, -⟩ |
    ⟨_, rfl | rfl, -⟩ | ⟨_, ho, -⟩ | ⟨_, rfl, -, -⟩
  · exact absurd h hx
  · exact absurd ht.symm (hc q rfl)
  · exact ⟨decide_eq_true ht.symm, rfl⟩
  · exact ⟨decide_eq_true rfl, rfl⟩
  · exact ⟨decide_eq_true rfl, rfl⟩
  · cases o <;> simp_all [Op.acquires, Op.moves, Op.releases]
  · exact ⟨decide_eq_true rfl, rfl⟩

namespace Run

variable {r : Run}

/-- Thread `tid` calls `OnAtomicsRMW` on the location `loc` at point `start`. Its `Acquire` is the
call at position `acq`, and its `Release` the one at position `rel`. -/
structure OnAtomicsRMW (r : Run) (tid : Tid) (loc start acq rel : ℕ) : Prop where
  start_le : start ≤ acq
  acquire : r.ops[acq]? = some (.acquire tid loc)
  lt : acq < rel
  release : r.ops[rel]? = some (.release tid loc)

/-- The calls of two threads on one location, both of which have completed at point `k`. Other
threads run as they like. -/
structure RmwPair (r : Run) (loc : ℕ) (t : Tid) (s a b : ℕ) (u : Tid) (s' a' b' k : ℕ) : Prop where
  left : r.OnAtomicsRMW t loc s a b
  right : r.OnAtomicsRMW u loc s' a' b'
  ne : t ≠ u
  left_lt : b < k
  right_lt : b' < k
  le_length : k ≤ r.ops.length
  left_occupant : r.SameOccupant t s k
  right_occupant : r.SameOccupant u s' k

/-- At point `k` one of two threads, whose calls started at the points `s` and `s'`, knows
everything that the other one knew at its start. -/
def RmwOrdered (r : Run) (s : ℕ) (t : Tid) (s' : ℕ) (u : Tid) (k : ℕ) : Prop :=
  (r.state s).threadClocks t ≤ (r.state k).threadClocks u ∨
    (r.state s').threadClocks u ≤ (r.state k).threadClocks t

/-- The current epoch of a thread is positive, and no earlier publication of the thread carries
it. -/
def FreshEpoch (r : Run) (i : ℕ) (t : Tid) : Prop :=
  0 < (r.state i).threadClocks t t ∧
    ∀ q < i, r.Publishes q t → (r.state q).threadClocks t t < (r.state i).threadClocks t t

/-- Between the points `i` and `k`, only the calls at the positions `a` and `b` move or publish the
clock of the thread. -/
def Isolated (r : Run) (t : Tid) (i k a b : ℕ) : Prop :=
  ∀ ⦃m o⦄, i ≤ m → m < k → r.ops[m]? = some o → m ≠ a → m ≠ b →
    o.moves t = false ∧ (r.state m).publishes t o = false

namespace RmwPair

variable {loc : ℕ} {t u : Tid} {s a b s' a' b' k : ℕ}

theorem symm (h : r.RmwPair loc t s a b u s' a' b' k) : r.RmwPair loc u s' a' b' t s a b k where
  left := h.right
  right := h.left
  ne := h.ne.symm
  left_lt := h.right_lt
  right_lt := h.left_lt
  le_length := h.le_length
  left_occupant := h.right_occupant
  right_occupant := h.left_occupant

/-- A call that comes after another one takes over its clock. -/
theorem happensBefore_of_lt (h : r.RmwPair loc t s a b u s' a' b' k) (hlt : b < a')
    (hkeep : r.KeepsSync loc b a') : r.HappensBefore (s, t) (k, u) := by
  have hsb : s < b := h.left.start_le.trans_lt h.left.lt
  have hak : a' + 1 ≤ k := h.right.lt.le.trans_lt h.right_lt
  have hcall : r.HappensBefore (s, t) (b, t) :=
    .single (.programOrder hsb (h.left_lt.le.trans h.le_length)
      (h.left_occupant.mono le_rfl h.left_lt.le))
  have hsync : r.Edge (b, t) (a' + 1, u) :=
    .sync hlt ⟨_, h.left.release, rfl⟩ ⟨_, h.right.acquire, rfl⟩ hkeep
  have hb : r.HappensBefore (s, t) (a' + 1, u) := hcall.tail hsync
  exact hb.programOrder
    (h.right_occupant.mono (Nat.le_succ_of_le h.right.start_le) le_rfl) hak h.le_length

/-- What a thread knows about a fresh epoch of the other one comes from a publication that the other
one has made since its call started. -/
theorem exists_publication (h : r.RmwPair loc t s a b u s' a' b' k) (hfresh : r.FreshEpoch s t)
    (hle : (r.state s).threadClocks t ≤ (r.state k).threadClocks u) :
    ∃ q, s ≤ q ∧ q < k ∧ ∃ x, x ≠ Place.thread t ∧ Place.thread t ∈ r.history.sources q x ∧
      r.history.Flow (q + 1) x k (.thread u) := by
  have hne : Place.thread u ≠ .thread t := fun hu ↦ h.ne (Place.thread.inj hu).symm
  obtain ⟨q, hqk, x, hx, hsrc, hv, hflow⟩ := ClockFlow.History.exists_publication
    (r.history_clock_zero t) hfresh.1 h.le_length hne (hle t)
  obtain ⟨hp, -⟩ := publishes_of_flow (hqk.trans_le h.le_length) hx hsrc hflow
  refine ⟨q, ?_, hqk, x, hx, hsrc, hflow⟩
  by_contra hqs
  exact absurd hv (not_le_of_gt (hfresh.2 q (not_le.mp hqs) hp))

theorem happensBefore_of_le (h : r.RmwPair loc t s a b u s' a' b' k) (hfresh : r.FreshEpoch s t)
    (hle : (r.state s).threadClocks t ≤ (r.state k).threadClocks u) :
    r.HappensBefore (s, t) (k, u) := by
  obtain ⟨q, hsq, hqk, x, hx, hsrc, hflow⟩ := h.exists_publication hfresh hle
  have hlen := hqk.trans_le h.le_length
  refine happensBefore_iff_flow.mpr ⟨hsq.trans_lt hqk, ?_⟩
  exact (((h.left_occupant.mono le_rfl hqk.le).flow hsq hlen.le).trans
    (.single hlen hsrc)).trans hflow

/-- In overlapping calls of threads that have nothing else to do with each other, the release of one
comes too late for the acquire of the other. -/
theorem not_le_of_overlap (h : r.RmwPair loc t s a b u s' a' b' k) (hlt : a' < b)
    (hfresh : r.FreshEpoch s t) (ht : r.Isolated t s k a b) (hu : r.Isolated u s' k a' b') :
    ¬(r.state s).threadClocks t ≤ (r.state k).threadClocks u := by
  intro hle
  obtain ⟨q, hsq, hqk, x, hx, hsrc, hflow⟩ := h.exists_publication hfresh hle
  have hlen := hqk.trans_le h.le_length
  obtain ⟨⟨o, ho, hpub⟩, -⟩ := publishes_of_flow hlen hx hsrc hflow
  rw [r.history_sources ho] at hsrc
  have hqb : q = b := by
    by_contra hqb
    by_cases hqa : q = a
    · subst hqa
      obtain rfl := Option.some.inj (ho.symm.trans h.left.acquire)
      cases hpub
    · have hnot := (ht hsq hqk ho hqa hqb).2
      rw [hpub] at hnot
      cases hnot
  subst hqb
  obtain rfl := Option.some.inj (ho.symm.trans h.left.release)
  have hxu : x ≠ .thread u := by
    rintro rfl
    simp [Detector.sources, h.ne] at hsrc
  obtain ⟨j, hqj, hjk, hj, y, hy, hsrc'⟩ := hflow.exists_enter hxu
  have hoj := List.getElem?_eq_getElem hj
  rw [r.history_sources hoj] at hsrc'
  obtain ⟨hmoves, hrel⟩ := Detector.moves_of_mem_sources hy hsrc' fun p hp hslot ↦
    h.right_occupant ((h.right.start_le.trans hlt.le).trans (Nat.le_of_succ_le hqj)) hjk
      (creates_iff.mpr ⟨p, hp ▸ hoj, hslot⟩)
  have hja : j ≠ a' := by omega
  have hjb : j ≠ b' := by
    rintro rfl
    rw [Option.some.inj (hoj.symm.trans h.right.release)] at hrel
    cases hrel
  have hs' : s' ≤ j := (h.right.start_le.trans hlt.le).trans (Nat.le_of_succ_le hqj)
  rw [(hu hs' hjk hoj hja hjb).1] at hmoves
  cases hmoves

end RmwPair

/-- Which read-modify-writes of one location are ordered, as long as no counter wraps around.

Calls that do not overlap are ordered, if no mutex is created or destroyed at the location in
between; and so are all calls whose threads are ordered in some other way. Conversely, if the
threads have not yet published their epochs when their calls start, ordered calls are ordered by
happens-before, and overlapping calls of threads that have nothing else to do with each other are
never ordered. -/
theorem rmwPair_ordered (hw : r.NoWrap) {loc : ℕ} {t u : Tid} {s a b s' a' b' k : ℕ}
    (h : r.RmwPair loc t s a b u s' a' b' k) :
    (b < a' ∧ r.KeepsSync loc b a' ∨ b' < a ∧ r.KeepsSync loc b' a → r.RmwOrdered s t s' u k) ∧
    (r.HappensBefore (s, t) (k, u) ∨ r.HappensBefore (s', u) (k, t) → r.RmwOrdered s t s' u k) ∧
    (r.FreshEpoch s t → r.FreshEpoch s' u → r.RmwOrdered s t s' u k →
      r.HappensBefore (s, t) (k, u) ∨ r.HappensBefore (s', u) (k, t)) ∧
    (r.FreshEpoch s t → r.FreshEpoch s' u → r.Isolated t s k a b → r.Isolated u s' k a' b' →
      a < b' → a' < b → ¬r.RmwOrdered s t s' u k) := by
  have hordered : r.HappensBefore (s, t) (k, u) ∨ r.HappensBefore (s', u) (k, t) →
      r.RmwOrdered s t s' u k := Or.imp (fun hb v ↦ hb.clock_le hw v) fun hb v ↦ hb.clock_le hw v
  refine ⟨fun hlt ↦ hordered ?_, hordered, fun ht hu ↦ ?_, fun ht hu hit hiu hab hab' ↦ ?_⟩
  · exact hlt.imp (fun hlt ↦ h.happensBefore_of_lt hlt.1 hlt.2) fun hlt ↦
      h.symm.happensBefore_of_lt hlt.1 hlt.2
  · exact Or.imp (h.happensBefore_of_le ht) (h.symm.happensBefore_of_le hu)
  · rintro (hle | hle)
    · exact h.not_le_of_overlap hab' ht hit hiu hle
    · exact h.symm.not_le_of_overlap hab hu hiu hit hle

/-- Two read-modify-writes one after the other. -/
def rmwTwice : Run :=
  .ofOps [.threadCreate uint32Max, .threadCreate uint32Max, .acquire 0 500, .release 0 500,
    .acquire 1 500, .release 1 500] (by decide)

theorem rmwTwice_pair : rmwTwice.RmwPair 500 0 2 2 3 1 4 4 5 6 where
  left := ⟨le_rfl, rfl, by decide, rfl⟩
  right := ⟨le_rfl, rfl, by decide, rfl⟩
  ne := by decide
  left_lt := by decide
  right_lt := by decide
  le_length := by decide
  left_occupant := by
    rintro m hm hmk ⟨p, ho, -⟩
    interval_cases m <;> cases ho
  right_occupant := by
    rintro m hm hmk ⟨p, ho, -⟩
    interval_cases m <;> cases ho

theorem rmwTwice_ordered : rmwTwice.RmwOrdered 2 0 4 1 6 :=
  (rmwPair_ordered (rmwTwice.noWrap_of_length (by decide)) rmwTwice_pair).1
    (.inl ⟨by decide, fun m _ hm hmk ↦ by omega⟩)

/-- Thread 0 writes a byte and updates a location, thread 1 updates the location and writes the same
byte. The acquire of each update comes before the release of the other one. -/
def rmwOverlap : Run :=
  .ofOps [.threadCreate uint32Max, .threadCreate uint32Max, .memoryAccess 1000 64 8 1 0 true,
    .acquire 0 500, .acquire 1 500, .release 0 500, .release 1 500,
    .memoryAccess 1000 64 8 1 1 true] (by decide)

theorem rmwOverlap_pair : rmwOverlap.RmwPair 500 0 3 3 5 1 4 4 6 7 where
  left := ⟨le_rfl, rfl, by decide, rfl⟩
  right := ⟨le_rfl, rfl, by decide, rfl⟩
  ne := by decide
  left_lt := by decide
  right_lt := by decide
  le_length := by decide
  left_occupant := by
    rintro m hm hmk ⟨p, ho, -⟩
    interval_cases m <;> cases ho
  right_occupant := by
    rintro m hm hmk ⟨p, ho, -⟩
    interval_cases m <;> cases ho

/-- Overlapping read-modify-writes leave their threads unordered, and accesses that the real
operations order are reported. -/
theorem exists_unordered_rmwPair : ∃ (r : Run) (loc : ℕ) (t : Tid) (s a b : ℕ) (u : Tid)
    (s' a' b' k : ℕ), r.RmwPair loc t s a b u s' a' b' k ∧ ¬r.RmwOrdered s t s' u k ∧
      r.FindsRace k := by
  refine ⟨rmwOverlap, 500, 0, 3, 3, 5, 1, 4, 4, 6, 7, rmwOverlap_pair, ?_, ?_⟩
  · rintro (hle | hle)
    · exact absurd (hle 0) (by decide)
    · exact absurd (hle 1) (by decide)
  · exact ⟨_, rfl, by decide⟩

end Run

end WebTSan
