import WebTSan.HappensBefore

/-!
# Which races are found

The comparison that `RecordAccess` makes with a cell, in terms of the happens-before order. A cell
holding an access of thread `t` with epoch `e` lets an access of another thread pass exactly if `t`
published its own component, with a value of at least `e`, at a point that happens before the
current access. An access that is ordered before the current one is therefore never reported. An
unordered one is reported unless an *older* publication of its thread already carried its epoch.

## Main definitions

* `WebTSan.Run.Unpublished`: no publication that happens before a point carries an epoch.
* `WebTSan.Run.FindsRace`, `WebTSan.Run.Conflict`, `WebTSan.Run.Exposes`.
* `WebTSan.Run.HandedOver`: a thread knows what another one knew.

## Main results

* `WebTSan.Run.exists_recorded_of_found`: what a report says about the run.
* `WebTSan.Run.findsRace_iff`: a race is found exactly with an unpublished epoch.
-/

namespace WebTSan

namespace Run

variable {r : Run}

/-- The comparison of an access with the record of an earlier one. -/
theorem races_recordOf_iff {i : ℕ} {t u : Tid} {w w' : Bool} {clk : VClock} :
    (r.recordOf i t w).races u w' clk = true ↔
      t ≠ u ∧ (w = true ∨ w' = true) ∧ clk t < (r.state i).threadClocks t t := by
  rw [ShadowCell.races_iff]
  simp [recordOf, ShadowCell.ofAccess]

/-- The epoch of the access at position `i` by thread `t` is positive and is not carried by any
publication of `t` that happens before the point of `u` at position `k`. -/
def Unpublished (r : Run) (i : ℕ) (t : Tid) (k : ℕ) (u : Tid) : Prop :=
  0 < (r.state i).threadClocks t t ∧ ∀ q, r.Publishes q t →
    (r.state i).threadClocks t t ≤ (r.state q).threadClocks t t → ¬r.HappensBefore (q, t) (k, u)

/-- An unpublished epoch is not known. -/
theorem Unpublished.lt {i k : ℕ} {t u : Tid} (h : r.Unpublished i t k u) (hk : k ≤ r.ops.length)
    (hu : u ≠ t) : (r.state k).threadClocks u t < (r.state i).threadClocks t t := by
  by_contra hle
  obtain ⟨q, -, hq, hv, hb⟩ := r.exists_publication hk hu h.1 (not_lt.mp hle)
  exact h.2 q hq hv hb

/-- An epoch that is not known is unpublished. -/
theorem unpublished_of_lt (hw : r.NoWrap) {i k : ℕ} {t u : Tid}
    (h : (r.state k).threadClocks u t < (r.state i).threadClocks t t) : r.Unpublished i t k u :=
  ⟨Nat.zero_lt_of_lt h, fun _ _ hq hb ↦
    absurd (hq.trans (hb.clock_le hw t)) (not_le_of_gt h)⟩

/-- A point of another thread comes after a point of `t` only through a publication. -/
theorem HappensBefore.exists_publishes {i k : ℕ} {t u : Tid} (h : r.HappensBefore (i, t) (k, u))
    (hu : u ≠ t) : ∃ q, i ≤ q ∧ q < k ∧ r.Publishes q t := by
  have hne : Place.thread u ≠ .thread t := fun h ↦ hu (Place.thread.inj h)
  obtain ⟨q, hiq, hqk, hlen, x, hx, hsrc⟩ := h.flow.exists_leave hne
  have ho := List.getElem?_eq_getElem hlen
  rw [r.history_sources ho] at hsrc
  exact ⟨q, hiq, hqk, _, ho, Detector.publishes_of_mem_sources _ hx hsrc⟩

/-- A thread whose access races with the record of another one does not have it in its past. -/
theorem not_happensBefore_of_lt (hw : r.NoWrap) {i k : ℕ} {t u : Tid}
    (h : (r.state k).threadClocks u t < (r.state i).threadClocks t t) :
    ¬r.HappensBefore (i, t) (k, u) :=
  fun hb ↦ absurd (hb.clock_le hw t) (not_le_of_gt h)

/-! ### The counter of a thread at its own slot -/

/-- The own counter of a thread does not decrease while its slot has the same occupant. -/
theorem SameOccupant.clock_le (hw : r.NoWrap) {t : Tid} {i j : ℕ} (h : r.SameOccupant t i j)
    (hij : i ≤ j) (hj : j ≤ r.ops.length) :
    (r.state i).threadClocks t t ≤ (r.state j).threadClocks t t :=
  (h.flow hij hj).clock_le hw.steady t

/-- A new thread starts with a positive counter. -/
theorem Creates.pos (hw : r.NoWrap) {k : ℕ} {t : Tid} (h : r.Creates k t) :
    0 < (r.state (k + 1)).threadClocks t t := by
  obtain ⟨p, ho, hslot⟩ := creates_iff.mp h
  rw [hw.threadClocks_succ ho t]
  simp [Detector.ticks, hslot]

/-- Publishing at an address ticks. -/
theorem ReleasesAt.lt (hw : r.NoWrap) {q a : ℕ} {t : Tid} (h : r.ReleasesAt q t a) :
    (r.state q).threadClocks t t < (r.state (q + 1)).threadClocks t t := by
  obtain ⟨o, ho, hr⟩ := h
  rw [hw.threadClocks_succ ho t]
  cases o with
  | release u b | mutexUnlock u b =>
    obtain ⟨rfl, rfl⟩ := Prod.mk.inj (Option.some.inj hr)
    simp [Detector.ticks, Detector.sources]
  | _ => cases hr

/-! ### Reports -/

section Access

variable {k bs len off size : ℕ} {u : Tid} {w : Bool}
  (ho : r.ops[k]? = some (.memoryAccess bs len off size u w))
include ho

/-- A report names an access to the reported byte that was recorded earlier and is still in place,
made by another thread, with one of the two a write, and with an epoch that the current thread does
not know. -/
theorem exists_recorded_of_found {report : RaceReport}
    (hf : Op.found (r.state k) (.memoryAccess bs len off size u w) = some report) :
    ∃ i, r.Recorded i k bs report.sabOffset report.tid1 report.isWrite1 ∧
      report.epoch1 = (r.state i).threadClocks report.tid1 report.tid1 ∧
      report.sabBackingStore = bs ∧ off ≤ report.sabOffset ∧ report.sabOffset < off + size ∧
      report.tid2 = u ∧ report.isWrite2 = w ∧ report.tid1 ≠ u ∧
      (report.isWrite1 = true ∨ w = true) ∧
      (r.state k).threadClocks u report.tid1 < report.epoch1 := by
  have hk := lt_length_of_getElem? ho
  have he := r.enabled hk.le
  obtain ⟨b, c, hb, hb', hraces, rfl⟩ := Detector.exists_of_memoryAccess_found he hf
  have hv := (ShadowCell.races_iff.mp hraces).1
  obtain ⟨i, t, wx, hrec, -, hcell⟩ := r.exists_recorded hk.le hv
  have hbs : ((r.state k).shadowOf bs len).backingStore = bs :=
    ((r.attached hk.le).shadowOf bs len).backingStore_eq
  rw [hcell] at hraces ⊢
  obtain ⟨htu, hww, hlt⟩ := races_recordOf_iff.mp hraces
  exact ⟨i, hrec, rfl, hbs, hb, hb', rfl, rfl, htu, hww, hlt⟩

/-- An access is found to race with the record of another access in a cell of one of its bytes,
unless its thread knows the epoch. -/
theorem found_of_cellAt {b i : ℕ} {c : Fin kShadowCellsPerByte} {t : Tid} {wx : Bool}
    (hb : off ≤ b) (hb' : b < off + size) (hcell : (r.state k).cellAt bs b c = r.recordOf i t wx)
    (htu : t ≠ u) (hww : wx = true ∨ w = true)
    (hlt : (r.state k).threadClocks u t < (r.state i).threadClocks t t) :
    (Op.found (r.state k) (.memoryAccess bs len off size u w)).isSome = true := by
  have hk := lt_length_of_getElem? ho
  have hraces : ((r.state k).cellAt bs b c).races u w ((r.state k).threadClocks u) = true := by
    rw [hcell, races_recordOf_iff]
    exact ⟨htu, hww, hlt⟩
  have hlen := r.lt_byteLength_of_valid hk.le (ShadowCell.races_iff.mp hraces).1 len
  exact (Detector.memoryAccess_found_isSome_iff (r.enabled hk.le)).mpr ⟨b, c, hb, hb', hlen, hraces⟩

end Access

/-- The call at position `k` finds a race. -/
def FindsRace (r : Run) (k : ℕ) : Prop :=
  ∃ o, r.ops[k]? = some o ∧ (o.found (r.state k)).isSome = true

/-- The accesses at the positions `i` and `k` are conflicting accesses of two threads to one byte,
and the first one is still recorded at the second one. -/
structure Conflict (r : Run) (i k bs byte : ℕ) (t u : Tid) (w w' : Bool) : Prop where
  recorded : r.Recorded i k bs byte t w
  access : r.Accesses k bs byte u w'
  ne : t ≠ u
  write : w = true ∨ w' = true

/-- The access at position `k` conflicts with the recorded one at position `i`, whose epoch is
unpublished. -/
def Exposes (r : Run) (i k : ℕ) : Prop :=
  ∃ bs byte t u w w', r.Conflict i k bs byte t u w w' ∧ r.Unpublished i t k u

/-- A conflict is found unless the thread of the second access knows the epoch of the first. -/
theorem Conflict.findsRace_of_lt {i k bs byte : ℕ} {t u : Tid} {w w' : Bool}
    (h : r.Conflict i k bs byte t u w w')
    (hlt : (r.state k).threadClocks u t < (r.state i).threadClocks t t) : r.FindsRace k := by
  obtain ⟨len, off, size, ho, hb, hb'⟩ := h.access
  have hcell := h.recorded.inPlace h.recorded.lt le_rfl
  exact ⟨_, ho, found_of_cellAt ho hb hb' hcell h.ne h.write hlt⟩

theorem findsRace_of_exposes {i k : ℕ} (h : r.Exposes i k) : r.FindsRace k := by
  obtain ⟨bs, byte, t, u, w, w', hconf, hunpub⟩ := h
  obtain ⟨_, _, _, ho, -⟩ := hconf.access
  exact hconf.findsRace_of_lt (hunpub.lt (lt_length_of_getElem? ho).le hconf.ne.symm)

/-- Which races are found: exactly those with a recorded access whose epoch is unpublished. -/
theorem findsRace_iff (hw : r.NoWrap) {k : ℕ} : r.FindsRace k ↔ ∃ i, r.Exposes i k := by
  constructor
  · rintro ⟨o, ho, hf⟩
    obtain ⟨report, hf⟩ := Option.isSome_iff_exists.mp hf
    cases o with
    | memoryAccess bs len off size u w =>
      obtain ⟨i, hrec, hepoch, -, hb, hb', -, -, htu, hww, hlt⟩ := exists_recorded_of_found ho hf
      rw [hepoch] at hlt
      exact ⟨i, bs, _, _, u, _, w, ⟨hrec, ⟨len, off, size, ho, hb, hb'⟩, htu, hww⟩,
        unpublished_of_lt hw hlt⟩
    | _ => cases hf
  · rintro ⟨i, h⟩
    exact findsRace_of_exposes h

/-! ### Knowledge that is handed over -/

/-- Thread `u` knows at position `b` what thread `t` knew at position `a`, and no access that `u`
makes from then on is reported to race with one that `t` made before. -/
structure HandedOver (r : Run) (t u : Tid) (a b : ℕ) : Prop where
  clock_le : (r.state a).threadClocks t ≤ (r.state b).threadClocks u
  noRace {x y bs len off size : ℕ} {w : Bool} {report : RaceReport} (hx : x < a)
    (hsame : r.SameOccupant t x a) (hy : b ≤ y) (hsame' : r.SameOccupant u b y)
    (ho : r.ops[y]? = some (.memoryAccess bs len off size u w))
    (hf : Op.found (r.state y) (.memoryAccess bs len off size u w) = some report)
    (ht : report.tid1 = t) : (r.state x).threadClocks t t < report.epoch1

/-- The clocks decide what is handed over. -/
theorem HandedOver.of_clock_le (hw : r.NoWrap) {t u : Tid} {a b : ℕ} (ha : a ≤ r.ops.length)
    (h : (r.state a).threadClocks t ≤ (r.state b).threadClocks u) : r.HandedOver t u a b where
  clock_le := h
  noRace {x y _ _ _ _ _ report} hx hsame hy hsame' ho hf ht := by
    have hlen := lt_length_of_getElem? ho
    obtain ⟨_, -, -, -, -, -, -, -, -, -, hlt⟩ := exists_recorded_of_found ho hf
    calc (r.state x).threadClocks t t
        ≤ (r.state a).threadClocks t t := hsame.clock_le hw hx.le ha
      _ ≤ (r.state b).threadClocks u t := h t
      _ ≤ (r.state y).threadClocks u t := (hsame'.flow hy hlen.le).clock_le hw.steady t
      _ < report.epoch1 := ht ▸ hlt

end Run

end WebTSan
