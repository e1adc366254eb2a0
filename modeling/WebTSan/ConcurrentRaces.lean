import WebTSan.ConcurrentCalls
import WebTSan.NoMissedRace

/-!
# Races that overlapping accesses find

When the calls of `MemoryAccess` overlap, an access is compared with the accesses that were recorded
before it at the same byte, in whatever order the threads come there, and by the clock that it
copied before its first byte. The verdict at a byte therefore depends on the copies of the clocks
only: two accesses that conflict at a byte are found to race, by the one that comes to the byte
second, exactly if the epoch of the first is not published to the second when the second copies its
clock.

## Main definitions

* `WebTSan.ConcurrentState.RecordsByte`, `WebTSan.ConcurrentState.ClearsByte`.
* `WebTSan.ConcurrentRun.RecordsAt`: an access records a byte.
* `WebTSan.ConcurrentRun.InPlace`: an access is the newest one in its cell of a byte.

## Main results

* `WebTSan.ConcurrentRun.exists_recorded`: every valid cell was stored by an access.
* `WebTSan.ConcurrentRun.finds_iff`: when exactly an access finds a race at a byte.
* `WebTSan.ConcurrentRun.report_unordered`: what a report says, in every interleaving.
* `WebTSan.ConcurrentRun.syncFragment_finds_iff`: locks and atomics, in every interleaving.
-/

namespace WebTSan

variable {ι : Type*}

namespace ConcurrentState

/-- The next step of `ClearShadow` clears the byte. -/
def ClearsByte (s : ConcurrentState ι) (bs byte : ℕ) : Prop :=
  ∃ endByte pageEnd, s.clearing = some ⟨bs, byte, endByte, some pageEnd⟩ ∧ byte < pageEnd

/-- The next step of a thread records the byte, with a copy of its clock. -/
def RecordsByte (s : ConcurrentState ι) (t : ι) (c : AccessCall) (clk : VClock) (byte : ℕ) : Prop :=
  ∃ shadow i sb, s.stage t = some (c, .loop shadow clk i) ∧ i < c.size ∧ c.offset + i = byte ∧
    s.deref c.backingStore shadow = some sb ∧ byte < sb.byteLength

/-- A step changes a cell of a byte. -/
def Touches (s : ConcurrentState ι) (o : ConcurrentOp ι) (bs byte : ℕ)
    (slot : Fin kShadowCellsPerByte) : Prop :=
  o = .removeShadow bs ∨ o = .clearNext ∧ s.ClearsByte bs byte ∨
    ∃ t c clk, o = .next t ∧ s.RecordsByte t c clk byte ∧ c.backingStore = bs ∧
      ShadowBuffer.evictSlot c.tid = slot

variable {s s' : ConcurrentState ι} {o : ConcurrentOp ι}

/-! ### Cells -/

theorem cellAt_setShadow (s : ConcurrentState ι) (bs bs' byte : ℕ) (sb : ShadowBuffer)
    (slot : Fin kShadowCellsPerByte) : (s.setShadow bs sb).detector.cellAt bs' byte slot =
      if bs' = bs then sb.cell byte slot else s.detector.cellAt bs' byte slot := by
  by_cases h : bs' = bs
  · subst h
    simp [Detector.cellAt, setShadow, setDetector]
  · simp [Detector.cellAt, setShadow, setDetector, h]

theorem shadowBuffers_of_deref {bs shadow : ℕ} {sb : ShadowBuffer}
    (h : s.deref bs shadow = some sb) : s.detector.shadowBuffers bs = some sb := by
  unfold deref at h
  split_ifs at h
  exact h

theorem cellAt_of_deref {bs shadow : ℕ} {sb : ShadowBuffer} (h : s.deref bs shadow = some sb)
    (byte : ℕ) (slot : Fin kShadowCellsPerByte) :
    s.detector.cellAt bs byte slot = sb.cell byte slot := by
  simp only [Detector.cellAt, shadowBuffers_of_deref h]

/-- Removing a shadow leaves the other ones alone. -/
theorem shadowBuffers_of_removeShadow {bs bs' : ℕ} {sb : ShadowBuffer}
    (h : (s.removeShadow bs').detector.shadowBuffers bs = some sb) :
    s.detector.shadowBuffers bs = some sb := by
  have hremove : (s.removeShadow bs').detector = s.detector.removeShadow bs' := rfl
  rw [hremove, Detector.removeShadow] at h
  split_ifs at h
  · exact h
  · by_cases hbs : bs = bs'
    · simp [hbs] at h
    · simpa [hbs] using h

/-- Clearing a byte invalidates its cells, and leaves the cells of the other bytes alone. -/
theorem clearCells_cell (sb : ShadowBuffer) (byte b : ℕ) (slot : Fin kShadowCellsPerByte) :
    ((clearCells sb byte).cell b slot).valid = false ∧ b = byte ∨
      (clearCells sb byte).cell b slot = sb.cell b slot ∧ b ≠ byte := by
  by_cases hb : b = byte
  · subst hb
    refine .inl ⟨?_, rfl⟩
    cases hp : sb.pages (ShadowBuffer.pageIndex b) with
    | none => simp [clearCells, ShadowBuffer.cell, hp]
    | some page =>
      simp only [clearCells, ShadowBuffer.cell, hp, Option.map_some, Function.update_self]
      exact ShadowBuffer.clearByte_valid page _ slot
  · refine .inr ⟨?_, hb⟩
    by_cases hpage : ShadowBuffer.pageIndex b = ShadowBuffer.pageIndex byte
    · cases hp : sb.pages (ShadowBuffer.pageIndex byte) with
      | none => simp [clearCells, ShadowBuffer.cell, hpage, hp]
      | some page =>
        have hin : ShadowBuffer.inPageOffset byte ≠ ShadowBuffer.inPageOffset b := fun h ↦
          hb (ShadowBuffer.eq_of_pageIndex_of_inPageOffset hpage h.symm)
        simp only [clearCells, ShadowBuffer.cell, hpage, hp, Option.map_some, Function.update_self]
        exact ShadowBuffer.clearByte_of_ne hin slot
    · simp [clearCells, ShadowBuffer.cell, hpage]

/-! ### Threads -/

variable [DecidableEq ι]

@[simp] theorem setStage_stage_self (s : ConcurrentState ι) (t : ι)
    (st : Option (AccessCall × AccessStage)) : (s.setStage t st).stage t = st :=
  Function.update_self ..

theorem setStage_stage_of_ne (s : ConcurrentState ι) {t u : ι} (h : u ≠ t)
    (st : Option (AccessCall × AccessStage)) : (s.setStage t st).stage u = s.stage u :=
  Function.update_of_ne h ..

/-- A thread goes on by its own steps only. -/
theorem Step.stage_eq (h : s.Step o s') {u : ι} (ha : ∀ c, o ≠ .access u c) (hn : o ≠ .next u) :
    s'.stage u = s.stage u := by
  cases h with
  | access ht => exact setStage_stage_of_ne _ (fun h ↦ ha _ (by rw [h])) _
  | lookupNone | lookup | snapshot | record | loopEnd | repeated | insert | count | logged | log
  | notify => exact setStage_stage_of_ne _ (fun h ↦ hn (by rw [h])) _
  | _ => rfl

/-- A thread comes into the loop of `RecordAccess` with a copy of its clock, and keeps it. -/
theorem Step.of_loop (h : s.Step o s') {t : ι} {c : AccessCall} {shadow i : ℕ} {clk : VClock}
    (hs' : s'.stage t = some (c, .loop shadow clk i)) :
    (∃ j, s.stage t = some (c, .loop shadow clk j)) ∨
      o = .next t ∧ s.stage t = some (c, .snapshot shadow) ∧
        clk = s.detector.threadClocks c.tid := by
  by_cases hn : o = .next t
  · subst hn
    cases h with
    | lookupNone | lookup | repeated | insert | count | logged | log | notify | loopEnd =>
      simp at hs'
    | snapshot ht =>
      simp only [setStage_stage_self, Option.some.injEq, Prod.mk.injEq,
        AccessStage.loop.injEq] at hs'
      obtain ⟨rfl, rfl, rfl, -⟩ := hs'
      exact .inr ⟨rfl, ht, rfl⟩
    | @record _ c' shadow' clk' j sb ht hi hsb hlen =>
      rw [setStage_stage_self] at hs'
      cases hr : (sb.recordByte (c'.offset + j) c'.tid c'.isWrite clk').1 with
      | none =>
        simp only [hr, Option.elim_none, Option.some.injEq, Prod.mk.injEq,
          AccessStage.loop.injEq] at hs'
        obtain ⟨rfl, rfl, rfl, -⟩ := hs'
        exact .inl ⟨j, ht⟩
      | some report => simp [hr] at hs'
  · by_cases ha : ∃ c', o = .access t c'
    · obtain ⟨c', rfl⟩ := ha
      cases h with
      | access => simp at hs'
    · exact .inl ⟨i, h.stage_eq (not_exists.mp ha) hn ▸ hs'⟩

/-! ### What a step does to a cell -/

/-- A step that does not touch a cell leaves it alone. -/
theorem Step.cellAt_eq (h : s.Step o s') {bs byte : ℕ} {slot : Fin kShadowCellsPerByte}
    (ht : ¬s.Touches o bs byte slot) :
    s'.detector.cellAt bs byte slot = s.detector.cellAt bs byte slot := by
  cases h with
  | @call o' d ho hexec =>
    exact Detector.cellAt_of_eq (congrFun (Op.exec_shadowBuffers_of_not_memory hexec ho) bs) ..
  | @removeShadow bs' hfree =>
    have hne : bs ≠ bs' := fun h ↦ ht (.inl (by rw [h]))
    refine Detector.cellAt_of_eq ?_ ..
    dsimp only [ConcurrentState.removeShadow, Detector.removeShadow]
    split_ifs
    · rfl
    · exact Function.update_of_ne hne ..
  | @lookup t c hst hfree =>
    change ((s.setShadow c.backingStore _).detector.cellAt bs byte slot) = _
    rw [cellAt_setShadow]
    split_ifs with hbs
    · rw [hbs, Detector.shadowOf_cell]
    · rfl
  | @record t c shadow clk i sb hst hi hsb hlen =>
    change ((s.setShadow c.backingStore _).detector.cellAt bs byte slot) = _
    rw [cellAt_setShadow]
    split_ifs with hbs
    · rw [ShadowBuffer.recordByte_cell, if_neg, hbs, cellAt_of_deref hsb]
      rintro ⟨rfl, rfl⟩
      exact ht (.inr (.inr ⟨t, c, clk, rfl, ⟨shadow, i, sb, hst, hi, rfl, hsb, hlen⟩, hbs.symm,
        rfl⟩))
    · rfl
  | @clearByte bs' byte' endByte pageEnd sb hc hsb hlt =>
    change ((s.setShadow bs' _).detector.cellAt bs byte slot) = _
    rw [cellAt_setShadow]
    split_ifs with hbs
    · subst hbs
      rcases clearCells_cell sb byte' byte slot with ⟨-, rfl⟩ | ⟨hcell, -⟩
      · exact absurd (.inr (.inl ⟨rfl, endByte, pageEnd, hc, hlt⟩)) ht
      · simp only [hcell, Detector.cellAt, hsb]
    · rfl
  | _ => rfl

/-- The step that records a byte. -/
theorem Step.of_recordsByte {t : ι} (h : s.Step (.next t) s') {c : AccessCall} {clk : VClock}
    {byte : ℕ} (hr : s.RecordsByte t c clk byte) :
    ∃ shadow i sb, s.deref c.backingStore shadow = some sb ∧ c.offset + i = byte ∧
      s' = (s.setShadow c.backingStore (sb.recordByte byte c.tid c.isWrite clk).2).setStage t
        (some (c, (sb.recordByte byte c.tid c.isWrite clk).1.elim
          (.loop shadow clk (i + 1)) .filter)) := by
  obtain ⟨shadow, i, sb, hst, hi, rfl, hsb, hlen⟩ := hr
  have hstage {c' : AccessCall} {st : AccessStage} (ht : s.stage t = some (c', st)) :
      c' = c ∧ st = .loop shadow clk i :=
    Prod.mk.inj (Option.some.inj (ht.symm.trans hst))
  cases h with
  | record ht _ hsb' _ =>
    obtain ⟨rfl, heq⟩ := hstage ht
    obtain ⟨rfl, rfl, rfl⟩ := AccessStage.loop.inj heq
    obtain rfl := Option.some.inj (hsb.symm.trans hsb')
    exact ⟨_, _, _, hsb, rfl, rfl⟩
  | loopEnd ht hend =>
    obtain ⟨rfl, heq⟩ := hstage ht
    obtain ⟨rfl, rfl, rfl⟩ := AccessStage.loop.inj heq
    obtain ⟨sb', hsb', hle⟩ := hend hi
    obtain rfl := Option.some.inj (hsb.symm.trans hsb')
    exact absurd hlen (not_lt.mpr hle)
  | lookupNone ht | lookup ht | snapshot ht | repeated ht | insert ht | count ht | logged ht
  | log ht | notify ht => cases (hstage ht).2

/-- The step that records a byte stores the access in its cell. -/
theorem Step.cellAt_of_recordsByte {t : ι} (h : s.Step (.next t) s') {c : AccessCall} {clk : VClock}
    {byte : ℕ} (hr : s.RecordsByte t c clk byte) :
    s'.detector.cellAt c.backingStore byte (ShadowBuffer.evictSlot c.tid) =
      .ofAccess c.tid c.isWrite clk := by
  obtain ⟨shadow, i, sb, -, -, rfl⟩ := h.of_recordsByte hr
  change ((s.setShadow c.backingStore _).detector.cellAt c.backingStore byte _) = _
  rw [cellAt_setShadow, if_pos rfl, ShadowBuffer.recordByte_cell, if_pos ⟨rfl, rfl⟩]

/-- It finds a race exactly if some cell of the byte races. -/
theorem Step.stage_of_recordsByte {t : ι} (h : s.Step (.next t) s') {c : AccessCall} {clk : VClock}
    {byte : ℕ} (hr : s.RecordsByte t c clk byte) :
    (∃ report, s'.stage t = some (c, .filter report)) ↔
      ∃ slot, (s.detector.cellAt c.backingStore byte slot).races c.tid c.isWrite clk = true := by
  obtain ⟨shadow, i, sb, hsb, -, rfl⟩ := h.of_recordsByte hr
  simp only [setStage_stage_self, cellAt_of_deref hsb]
  have hnone := sb.recordByte_eq_none_iff byte c.tid c.isWrite clk
  cases hres : (sb.recordByte byte c.tid c.isWrite clk).1 with
  | none =>
    have hall := hnone.mp hres
    simp [hall]
  | some report =>
    have hex : ∃ slot, (sb.cell byte slot).races c.tid c.isWrite clk = true := by
      by_contra hno
      simp only [not_exists, Bool.not_eq_true] at hno
      rw [hnone.mpr hno] at hres
      cases hres
    simp [hex]

/-- A thread comes to the filter with the report of a racing cell of the byte that it records. -/
theorem Step.of_filter {t : ι} (h : s.Step (.next t) s') {c : AccessCall} {report : RaceReport}
    (hs' : s'.stage t = some (c, .filter report)) :
    ∃ clk sb slot, s.RecordsByte t c clk report.sabOffset ∧
      s.detector.shadowBuffers c.backingStore = some sb ∧
      (sb.cell report.sabOffset slot).races c.tid c.isWrite clk = true ∧
      report = sb.raceReport report.sabOffset (sb.cell report.sabOffset slot) c.tid c.isWrite
        clk := by
  cases h with
  | lookupNone | lookup | snapshot | repeated | insert | count | logged | log | notify | loopEnd =>
    simp at hs'
  | @record _ c' shadow clk i sb ht hi hsb hlen =>
    rw [setStage_stage_self] at hs'
    cases hr : (sb.recordByte (c'.offset + i) c'.tid c'.isWrite clk).1 with
    | none => simp [hr] at hs'
    | some report' =>
      simp only [hr, Option.elim_some, Option.some.injEq, Prod.mk.injEq,
        AccessStage.filter.injEq] at hs'
      obtain ⟨rfl, rfl⟩ := hs'
      obtain ⟨slot, hraces, hreport⟩ := sb.exists_of_recordByte_eq_some _ _ _ _ hr
      have hoff : report'.sabOffset = c'.offset + i := by rw [hreport]; rfl
      rw [hoff]
      exact ⟨clk, sb, slot, ⟨shadow, i, sb, ht, hi, rfl, hsb, hlen⟩, shadowBuffers_of_deref hsb,
        hraces, hreport⟩

/-- A shadow knows its backing store. -/
theorem Step.backingStore_eq (h : s.Step o s')
    (hs : ∀ bs sb, s.detector.shadowBuffers bs = some sb → sb.backingStore = bs) :
    ∀ bs sb, s'.detector.shadowBuffers bs = some sb → sb.backingStore = bs := by
  have hset {bs : ℕ} {sb : ShadowBuffer} (hsb : sb.backingStore = bs) :
      ∀ bs' sb', (s.setShadow bs sb).detector.shadowBuffers bs' = some sb' →
        sb'.backingStore = bs' := by
    intro bs' sb' h'
    by_cases hbs : bs' = bs
    · subst hbs
      simp only [setShadow, setDetector, Function.update_self, Option.some.injEq] at h'
      exact h' ▸ hsb
    · simp only [setShadow, setDetector, Function.update_of_ne hbs] at h'
      exact hs bs' sb' h'
  cases h with
  | call ho hexec =>
    intro bs sb hsb
    exact hs bs sb (Op.exec_shadowBuffers_of_not_memory hexec ho ▸ hsb)
  | @removeShadow bs' hfree =>
    exact fun bs sb hsb ↦ hs bs sb (shadowBuffers_of_removeShadow hsb)
  | @lookup t c ht hfree =>
    refine hset ?_
    unfold Detector.shadowOf
    cases hsb : s.detector.shadowBuffers c.backingStore with
    | none => rfl
    | some sb => exact hs _ _ hsb
  | record ht hi hsb hlen =>
    refine hset ?_
    rw [ShadowBuffer.recordByte_backingStore]
    exact hs _ _ (shadowBuffers_of_deref hsb)
  | @clearByte _ byte _ _ sb hc hsb hlt =>
    have hbs := hs _ _ hsb
    exact hset (show (clearCells sb byte).backingStore = _ from hbs)
  | _ => exact hs

/-- A cell that is touched is invalid afterwards, or holds the access that has touched it. -/
theorem Step.of_touches (h : s.Step o s') {bs byte : ℕ} {slot : Fin kShadowCellsPerByte}
    (he : s.detector.enabled = true) (ht : s.Touches o bs byte slot) :
    (s'.detector.cellAt bs byte slot).valid = false ∨
      ∃ t c clk, o = .next t ∧ s.RecordsByte t c clk byte ∧ c.backingStore = bs ∧
        ShadowBuffer.evictSlot c.tid = slot := by
  rcases ht with rfl | ⟨rfl, endByte, pageEnd, hc, hlt⟩ | hrec
  · cases h with
    | removeShadow =>
      refine .inl ?_
      simp [ConcurrentState.removeShadow, Detector.removeShadow, he, Detector.cellAt]
  · have hclear {bs' byte' endByte' : ℕ} {pageEnd' : Option ℕ}
        (hc' : s.clearing = some ⟨bs', byte', endByte', pageEnd'⟩) :
        bs' = bs ∧ byte' = byte ∧ pageEnd' = some pageEnd := by
      obtain ⟨rfl, rfl, -, rfl⟩ := ClearStage.mk.inj (Option.some.inj (hc'.symm.trans hc))
      exact ⟨rfl, rfl, rfl⟩
    cases h with
    | @clearByte _ byte' _ _ sb hc' hsb hlt' =>
      obtain ⟨rfl, rfl, -⟩ := hclear hc'
      refine .inl ?_
      change ((s.setShadow _ _).detector.cellAt _ _ slot).valid = false
      rw [cellAt_setShadow, if_pos rfl]
      rcases clearCells_cell sb byte' byte' slot with ⟨hv, -⟩ | ⟨-, hne⟩
      · exact hv
      · exact absurd rfl hne
    | clearLeave hc' hle =>
      obtain ⟨rfl, rfl, hpe⟩ := hclear hc'
      obtain rfl := Option.some.inj hpe
      exact absurd hlt (not_lt.mpr hle)
    | clearSkip hc' | clearEnter hc' | clearReturn hc' => cases (hclear hc').2.2
  · exact .inr hrec

end ConcurrentState

/-- What a call publishes does not depend on the memory. -/
theorem Detector.publishes_withMemory (s m : Detector) (t : Tid) (o : Op) :
    (s.withMemory m).publishes t o = s.publishes t o := by
  cases o <;> rfl

/-- A thread that has not been joined is known to another one exactly as far as it happens before
it. -/
theorem Run.SyncFragment.knows_point_iff {r : Run} {n : ℕ} (h : r.SyncFragment n) (hw : r.NoWrap)
    {i k : ℕ} {t u : Tid} (hi : n ≤ i) (ht : (t : ℕ) < n) (hlen : i ≤ r.ops.length)
    (hjoin : ∀ q < i, ∀ j, r.ops[q]? ≠ some (.threadJoin j t)) (hk : k ≤ r.ops.length)
    (hu : u ≠ t) : (r.state i).threadClocks t t ≤ (r.state k).threadClocks u t ↔
      r.HappensBefore (i, t) (k, u) := by
  refine ⟨fun hle ↦ ?_, fun hb ↦ hb.clock_le hw t⟩
  obtain ⟨q, hqk, hp, hq, hb⟩ := r.exists_publication hk hu (h.pos hw ht hi hlen) hle
  have hiq : i ≤ q := by
    by_contra hlt
    obtain ⟨hnq, ⟨a, hrel⟩ | ⟨j, ho⟩⟩ := h.publishes_cases hp
    · have hmono := h.clock_le hw t (hnq.trans (Nat.le_succ q)) (not_le.mp hlt : q + 1 ≤ i) hlen
      exact absurd (hq.trans_lt ((hrel.lt hw).trans_le hmono)) (lt_irrefl _)
    · exact hjoin q (not_le.mp hlt) j ho
  rcases hiq.eq_or_lt with rfl | hiq
  · exact hb
  · exact .head (.programOrder hiq (hqk.le.trans hk) (h.sameOccupant t hi)) hb

namespace ConcurrentRun

variable [DecidableEq ι] (e : ConcurrentRun ι)

/-- The access `c` of a thread copies its clock at position `s`. -/
def Snapshots (s : ℕ) (t : ι) (c : AccessCall) : Prop :=
  e.ops[s]? = some (.next t) ∧ ∃ shadow, (e.state s).stage t = some (c, .snapshot shadow)

/-- The clock that an access copies at position `s`. -/
def snapshotClock (s : ℕ) (c : AccessCall) : VClock := (e.state s).detector.threadClocks c.tid

/-- The thread has been in the loop of `RecordAccess` since position `s`. -/
def LoopsFrom (s k : ℕ) (t : ι) (c : AccessCall) : Prop :=
  ∀ ⦃m⦄, s < m → m ≤ k → ∃ shadow i,
    (e.state m).stage t = some (c, .loop shadow (e.snapshotClock s c) i)

/-- At position `k` the access `c` of a thread, which has copied its clock at position `s`, records
a byte. -/
structure RecordsAt (k s : ℕ) (t : ι) (c : AccessCall) (byte : ℕ) : Prop where
  snapshot : e.Snapshots s t c
  lt : s < k
  loops : e.LoopsFrom s k t c
  next : e.ops[k]? = some (.next t)
  records : (e.state k).RecordsByte t c (e.snapshotClock s c) byte

/-- What the access leaves in the shadow of its bytes. -/
def recordOf (s : ℕ) (c : AccessCall) : ShadowCell :=
  .ofAccess c.tid c.isWrite (e.snapshotClock s c)

/-- The step at position `k` changes a cell of a byte. -/
def TouchesAt (k bs byte : ℕ) (slot : Fin kShadowCellsPerByte) : Prop :=
  ∃ o, e.ops[k]? = some o ∧ (e.state k).Touches o bs byte slot

/-- At position `k` the newest thing that happened to its cell of a byte is that the access `c`,
which had copied its clock at position `s`, recorded the byte at position `i`. -/
structure InPlace (i k s : ℕ) (t : ι) (c : AccessCall) (byte : ℕ) : Prop where
  records : e.RecordsAt i s t c byte
  lt : i < k
  untouched {m : ℕ} (hi : i < m) (hk : m < k) :
    ¬e.TouchesAt m c.backingStore byte (ShadowBuffer.evictSlot c.tid)

variable {e}

/-- A thread in the loop of `RecordAccess` has copied its clock and has been there since then. -/
theorem exists_snapshot {k : ℕ} (hk : k ≤ e.ops.length) {t : ι} {c : AccessCall} {shadow i : ℕ}
    {clk : VClock} (h : (e.state k).stage t = some (c, .loop shadow clk i)) :
    ∃ s < k, e.Snapshots s t c ∧ clk = e.snapshotClock s c ∧ e.LoopsFrom s k t c := by
  induction k generalizing i with
  | zero =>
    rw [e.state_zero] at h
    cases h
  | succ k ih =>
    have ho := List.getElem?_eq_getElem hk
    rcases (e.stepAt ho).of_loop h with ⟨j, hj⟩ | ⟨hop, hst, rfl⟩
    · obtain ⟨s, hs, hsnap, rfl, hloops⟩ := ih (Nat.le_of_succ_le hk) hj
      refine ⟨s, Nat.lt_succ_of_lt hs, hsnap, rfl, fun m hsm hm ↦ ?_⟩
      rcases Nat.le_succ_iff.mp hm with hm | rfl
      · exact hloops hsm hm
      · exact ⟨shadow, i, h⟩
    · refine ⟨k, Nat.lt_succ_self k, ⟨hop ▸ ho, shadow, hst⟩, rfl, fun m hkm hm ↦ ?_⟩
      obtain rfl : m = k + 1 := by omega
      exact ⟨shadow, i, h⟩

/-- A step that records a byte belongs to an access that has copied its clock. -/
theorem exists_recordsAt {k : ℕ} {t : ι} {c : AccessCall} {clk : VClock} {byte : ℕ}
    (ho : e.ops[k]? = some (.next t)) (h : (e.state k).RecordsByte t c clk byte) :
    ∃ s, e.RecordsAt k s t c byte ∧ clk = e.snapshotClock s c := by
  obtain ⟨shadow, i, sb, hst, -⟩ := id h
  have hk := (List.getElem?_eq_some_iff.mp ho).1.le
  obtain ⟨s, hs, hsnap, rfl, hloops⟩ := exists_snapshot hk hst
  exact ⟨s, ⟨hsnap, hs, hloops, ho, h⟩, rfl⟩

theorem RecordsAt.lt_length {k s : ℕ} {t : ι} {c : AccessCall} {byte : ℕ}
    (h : e.RecordsAt k s t c byte) : k < e.ops.length := (List.getElem?_eq_some_iff.mp h.next).1

theorem cellAt_succ {k bs byte : ℕ} {slot : Fin kShadowCellsPerByte} (hk : k < e.ops.length)
    (h : ¬e.TouchesAt k bs byte slot) :
    (e.state (k + 1)).detector.cellAt bs byte slot = (e.state k).detector.cellAt bs byte slot :=
  have ho := List.getElem?_eq_getElem hk
  (e.stepAt ho).cellAt_eq fun ht ↦ h ⟨_, ho, ht⟩

/-- The record of an access stays in its cell until the cell is touched. -/
theorem InPlace.cellAt_eq {i k s : ℕ} {t : ι} {c : AccessCall} {byte : ℕ}
    (h : e.InPlace i k s t c byte) (hk : k ≤ e.ops.length) :
    (e.state k).detector.cellAt c.backingStore byte (ShadowBuffer.evictSlot c.tid) =
      e.recordOf s c := by
  refine e.invariant_from (P := fun st ↦ st.detector.cellAt c.backingStore byte
    (ShadowBuffer.evictSlot c.tid) = e.recordOf s c) (j := i + 1) h.lt hk
    ((e.stepAt h.records.next).cellAt_of_recordsByte h.records.records) fun him hmk ho hm ↦ ?_
  rw [cellAt_succ (hmk.trans_le hk) (h.untouched him hmk), hm]

/-- A valid cell was stored by an access, and nothing has happened to it since then. -/
theorem exists_recorded {k : ℕ} (hk : k ≤ e.ops.length) {bs byte : ℕ}
    {slot : Fin kShadowCellsPerByte}
    (hv : ((e.state k).detector.cellAt bs byte slot).valid = true) :
    ∃ i s t c, e.InPlace i k s t c byte ∧ c.backingStore = bs ∧
      ShadowBuffer.evictSlot c.tid = slot := by
  induction k with
  | zero =>
    rw [e.state_zero] at hv
    cases hv
  | succ k ih =>
    have ho := List.getElem?_eq_getElem hk
    have hk' := Nat.le_of_succ_le hk
    by_cases ht : (e.state k).Touches e.ops[k] bs byte slot
    · rcases (e.stepAt ho).of_touches (e.enabled hk') ht with
        hinv | ⟨t, c, clk, hop, hrec, hbs, hslot⟩
      · rw [hinv] at hv
        cases hv
      · obtain ⟨s, hrec, -⟩ := exists_recordsAt (hop ▸ ho) hrec
        exact ⟨k, s, t, c, ⟨hrec, Nat.lt_succ_self k, fun hi hk ↦ by omega⟩, hbs, hslot⟩
    · have hkeep : ¬e.TouchesAt k bs byte slot := by
        rintro ⟨o, ho', ht'⟩
        obtain rfl := Option.some.inj (ho.symm.trans ho')
        exact ht ht'
      rw [cellAt_succ hk hkeep] at hv
      obtain ⟨i, s, t, c, hin, rfl, rfl⟩ := ih hk' hv
      refine ⟨i, s, t, c, ⟨hin.records, Nat.lt_succ_of_lt hin.lt, fun {m} him hm ↦ ?_⟩, rfl, rfl⟩
      rcases Nat.lt_succ_iff_lt_or_eq.mp hm with hm | rfl
      · exact hin.untouched him hm
      · exact hkeep

theorem backingStore_eq {k : ℕ} (hk : k ≤ e.ops.length) {bs : ℕ} {sb : ShadowBuffer}
    (h : (e.state k).detector.shadowBuffers bs = some sb) : sb.backingStore = bs :=
  e.invariant_of_step (P := fun st ↦ ∀ bs sb, st.detector.shadowBuffers bs = some sb →
    sb.backingStore = bs) (by nofun) (fun ho hst ↦ (e.stepAt ho).backingStore_eq hst) hk bs sb h

/-! ### Verdicts -/

/-- The step at position `k` finds a race, with a report. -/
def FindsAt (e : ConcurrentRun ι) (k : ℕ) (t : ι) (c : AccessCall) (report : RaceReport) : Prop :=
  e.ops[k]? = some (.next t) ∧ (e.state (k + 1)).stage t = some (c, .filter report)

/-- No call of the other kinds publishes the clock of a thread between two positions. -/
def Quiet (e : ConcurrentRun ι) (tid : Tid) (a b : ℕ) : Prop :=
  ∀ ⦃q o⦄, a ≤ q → q < b → e.ops[q]? = some (.call o) →
    (e.state q).detector.publishes tid o = false

theorem Snapshots.le_length {s : ℕ} {t : ι} {c : AccessCall} (h : e.Snapshots s t c) :
    s ≤ e.ops.length := (List.getElem?_eq_some_iff.mp h.1).1.le

theorem snapshotClock_eq {s : ℕ} (hs : s ≤ e.ops.length) (c : AccessCall) :
    e.snapshotClock s c = (e.syncRun.state (e.calls s)).threadClocks c.tid := by
  rw [e.threadClocks_eq hs]
  rfl

theorem races_recordOf_iff {s' : ℕ} {c c' : AccessCall} {clk : VClock} :
    (e.recordOf s' c').races c.tid c.isWrite clk = true ↔ c'.tid ≠ c.tid ∧
      (c'.isWrite = true ∨ c.isWrite = true) ∧ clk c'.tid < e.snapshotClock s' c' c'.tid := by
  rw [ShadowCell.races_iff]
  simp [recordOf, ShadowCell.ofAccess]

/-- A racing cell of a byte holds the record of an access that conflicts. -/
theorem exists_inPlace_of_races {k : ℕ} (hk : k ≤ e.ops.length) {c : AccessCall} {byte : ℕ}
    {slot : Fin kShadowCellsPerByte} {clk : VClock}
    (h : ((e.state k).detector.cellAt c.backingStore byte slot).races c.tid c.isWrite clk = true) :
    ∃ i s' t' c', e.InPlace i k s' t' c' byte ∧ c'.backingStore = c.backingStore ∧
      (e.state k).detector.cellAt c.backingStore byte slot = e.recordOf s' c' := by
  obtain ⟨i, s', t', c', hin, hbs, rfl⟩ := exists_recorded hk (ShadowCell.races_iff.mp h).1
  exact ⟨i, s', t', c', hin, hbs, hbs ▸ hin.cellAt_eq hk⟩

/-- The newest access in one of the cells of a byte conflicts with the access `c`. -/
structure Conflicts (e : ConcurrentRun ι) (i k s' : ℕ) (t' : ι) (c' c : AccessCall) (byte : ℕ) :
    Prop where
  inPlace : e.InPlace i k s' t' c' byte
  backingStore_eq : c'.backingStore = c.backingStore
  ne : c'.tid ≠ c.tid
  write : c'.isWrite = true ∨ c.isWrite = true

/-- An access finds a race at a byte exactly if it does not know the epoch of an access in one of
the cells of the byte. -/
theorem exists_findsAt_iff {k s : ℕ} {t : ι} {c : AccessCall} {byte : ℕ}
    (h : e.RecordsAt k s t c byte) :
    (∃ report, e.FindsAt k t c report) ↔ ∃ i s' t' c', e.Conflicts i k s' t' c' c byte ∧
      (e.syncRun.state (e.calls s)).threadClocks c.tid c'.tid <
        (e.syncRun.state (e.calls s')).threadClocks c'.tid c'.tid := by
  have hk := h.lt_length.le
  have hs := h.snapshot.le_length
  have hstage := (e.stepAt h.next).stage_of_recordsByte h.records
  have hfinds : (∃ report, e.FindsAt k t c report) ↔
      ∃ slot, ((e.state k).detector.cellAt c.backingStore byte slot).races c.tid c.isWrite
        (e.snapshotClock s c) = true := by
    rw [← hstage]
    exact exists_congr fun _ ↦ and_iff_right h.next
  rw [hfinds, snapshotClock_eq hs]
  constructor
  · rintro ⟨slot, hraces⟩
    obtain ⟨i, s', t', c', hin, hbs, hcell⟩ := exists_inPlace_of_races hk hraces
    rw [hcell, races_recordOf_iff, snapshotClock_eq hin.records.snapshot.le_length] at hraces
    obtain ⟨hne, hww, hlt⟩ := hraces
    exact ⟨i, s', t', c', ⟨hin, hbs, hne, hww⟩, hlt⟩
  · rintro ⟨i, s', t', c', ⟨hin, hbs, hne, hww⟩, hlt⟩
    refine ⟨ShadowBuffer.evictSlot c'.tid, ?_⟩
    rw [← hbs, hin.cellAt_eq hk, races_recordOf_iff,
      snapshotClock_eq hin.records.snapshot.le_length]
    exact ⟨hne, hww, hlt⟩

/-- In every interleaving, an access finds a race at a byte exactly if the newest access in one of
the cells of the byte conflicts with it, and had an epoch that was not published to its thread when
it copied its clock. -/
theorem finds_iff (e : ConcurrentRun ι) (hw : e.syncRun.NoWrap) {k s : ℕ} {t : ι} {c : AccessCall}
    {byte : ℕ} (h : e.RecordsAt k s t c byte) :
    (∃ report, e.FindsAt k t c report) ↔ ∃ i s' t' c', e.Conflicts i k s' t' c' c byte ∧
      e.syncRun.Unpublished (e.calls s') c'.tid (e.calls s) c.tid := by
  rw [exists_findsAt_iff h]
  refine exists₄_congr fun i s' t' c' ↦ and_congr_right fun hc ↦ ⟨Run.unpublished_of_lt hw, ?_⟩
  exact fun hunpub ↦ hunpub.lt (e.calls_le h.snapshot.le_length) hc.ne.symm

/-- In every interleaving, a report names an access to the reported byte that another thread has
recorded before and that is still in place, one of the two a write. The first access does not happen
before the second, and the second does not happen before the first unless its clock was published
while it was under way. -/
theorem report_unordered (e : ConcurrentRun ι) (hw : e.syncRun.NoWrap) {k : ℕ} {t : ι}
    {c : AccessCall} {report : RaceReport} (hf : e.FindsAt k t c report) :
    ∃ s i s' t' c', e.RecordsAt k s t c report.sabOffset ∧
      e.Conflicts i k s' t' c' c report.sabOffset ∧
      report = ⟨report.sabOffset, c.backingStore, report.sabByteLength, c'.tid, c'.isWrite,
        e.snapshotClock s' c' c'.tid, c.tid, c.isWrite, e.snapshotClock s c c.tid⟩ ∧
      ¬e.syncRun.HappensBefore (e.calls s', c'.tid) (e.calls s, c.tid) ∧
      (e.Quiet c.tid s k →
        ¬e.syncRun.HappensBefore (e.calls s, c.tid) (e.calls s', c'.tid)) := by
  obtain ⟨clk, sb, slot, hbyte, hsb, hraces, hreport⟩ := (e.stepAt hf.1).of_filter hf.2
  obtain ⟨s, hrec, rfl⟩ := exists_recordsAt hf.1 hbyte
  have hk := hrec.lt_length.le
  have hcell : (e.state k).detector.cellAt c.backingStore report.sabOffset slot =
      sb.cell report.sabOffset slot := by simp only [Detector.cellAt, hsb]
  rw [← hcell] at hraces hreport
  obtain ⟨i, s', t', c', hin, hbs, hc'⟩ := exists_inPlace_of_races hk hraces
  rw [hc'] at hraces hreport
  obtain ⟨hne, hww, hlt⟩ := races_recordOf_iff.mp hraces
  have hs := hrec.snapshot.le_length
  have hs' := hin.records.snapshot.le_length
  refine ⟨s, i, s', t', c', hrec, ⟨hin, hbs, hne, hww⟩, ?_, ?_, fun hq hb ↦ ?_⟩
  · have hlen : report.sabByteLength = sb.byteLength := congrArg RaceReport.sabByteLength hreport
    rw [hlen, ← e.backingStore_eq hk hsb]
    exact hreport
  · refine Run.not_happensBefore_of_lt hw ?_
    rwa [← snapshotClock_eq hs, ← snapshotClock_eq hs']
  · obtain ⟨j, hj, hj', o, ho, hp⟩ := hb.exists_publishes hne
    obtain ⟨q, hq', rfl⟩ := e.exists_of_syncRun_getElem? ho
    have hqk : q < k := ((e.lt_of_calls_lt hj').trans hin.records.lt).trans hin.lt
    have hsq : s ≤ q := e.le_of_calls_le hq' hj
    rw [e.syncRun_state (hqk.le.trans hk), Detector.publishes_withMemory,
      hq hsq hqk hq'] at hp
    cases hp

/-! ### Locks and atomics -/

/-- Every access is made by one of the first `n` threads, before this thread is joined. -/
def AccessesBy (e : ConcurrentRun ι) (n : ℕ) : Prop :=
  ∀ ⦃s t c⦄, e.Snapshots s t c → n ≤ e.calls s ∧ (c.tid : ℕ) < n ∧
    ∀ q < s, ∀ j, e.ops[q]? ≠ some (.call (.threadJoin j c.tid))

/-- If the other calls are locks, atomics and joins, then an access finds a race at a byte exactly
if the newest access in one of the cells of the byte conflicts with it and does not happen before
it, whatever the interleaving. -/
theorem syncFragment_finds_iff (e : ConcurrentRun ι) {n : ℕ} (hn : e.syncRun.SyncFragment n)
    (hw : e.syncRun.NoWrap) (ha : e.AccessesBy n) {k s : ℕ} {t : ι} {c : AccessCall} {byte : ℕ}
    (h : e.RecordsAt k s t c byte) :
    (∃ report, e.FindsAt k t c report) ↔ ∃ i s' t' c', e.Conflicts i k s' t' c' c byte ∧
      ¬e.syncRun.HappensBefore (e.calls s', c'.tid) (e.calls s, c.tid) := by
  rw [exists_findsAt_iff h]
  refine exists₄_congr fun i s' t' c' ↦ and_congr_right fun hc ↦ ?_
  have hsnap := hc.inPlace.records.snapshot
  obtain ⟨hns, htid, hjoin⟩ := ha hsnap
  have hknows := hn.knows_point_iff hw hns htid (e.calls_le hsnap.le_length) (fun q hq j ho ↦ ?_)
    (e.calls_le h.snapshot.le_length) hc.ne.symm
  · rw [← hknows, not_le]
  · obtain ⟨q', ho', rfl⟩ := e.exists_of_syncRun_getElem? ho
    exact hjoin q' (e.lt_of_calls_lt hq) j ho'

/-! ### Two writes that overlap -/

/-- A write of the first byte of a word. -/
def writeBy (tid : Tid) : AccessCall := ⟨1000, 64, 8, 1, tid, true⟩

/-- Two threads write a byte. Both have copied their clocks when the first one records the byte. -/
def overlap : ConcurrentRun Tid :=
  .ofOps [.call (.threadCreate uint32Max), .call (.threadCreate uint32Max), .access 0 (writeBy 0),
    .access 1 (writeBy 1), .next 0, .next 1, .next 0, .next 1, .next 0, .next 1] (by decide)

theorem overlap_recordsAt : overlap.RecordsAt 9 7 1 (writeBy 1) 8 where
  snapshot := ⟨rfl, 0, rfl⟩
  lt := by decide
  loops m hm hm' := by
    interval_cases m
    · exact ⟨0, 0, rfl⟩
    · exact ⟨0, 0, rfl⟩
  next := rfl
  records := ⟨0, 0, _, rfl, by decide, rfl, rfl, by decide⟩

theorem overlap_findsAt : overlap.FindsAt 9 1 (writeBy 1) ⟨8, 1000, 64, 0, true, 1, 1, true, 1⟩ :=
  ⟨rfl, rfl⟩

theorem overlap_noWrap : overlap.syncRun.NoWrap := Run.noWrap_of_length _ (by decide)

theorem overlap_quiet (s : ℕ) : overlap.Quiet 1 s 9 := by
  intro q o _ hq ho
  interval_cases q
  · obtain rfl := ConcurrentOp.call.inj (Option.some.inj ho)
    decide
  · obtain rfl := ConcurrentOp.call.inj (Option.some.inj ho)
    decide
  all_goals cases Option.some.inj ho

theorem overlap_syncFragment : overlap.syncRun.SyncFragment 2 where
  le_kMaxThreads := by decide
  creates {k} hk := by interval_cases k <;> rfl
  isSync {k o} hk ho := by
    have hlt : k < 2 := Run.lt_length_of_getElem? ho
    omega
  created {k o t} ho ht := by
    have hlt : k < 2 := Run.lt_length_of_getElem? ho
    interval_cases k <;> obtain rfl := Option.some.inj ho <;> cases ht
  joined {k m o j c} ho := by
    have hlt : k < 2 := Run.lt_length_of_getElem? ho
    interval_cases k <;> cases Option.some.inj ho

theorem overlap_accessesBy : overlap.AccessesBy 2 := by
  rintro s t c ⟨ho, shadow, hst⟩
  have hs : s < 10 := (List.getElem?_eq_some_iff.mp ho).1
  have hjoin (q : ℕ) (hq : q < 10) (j c : Tid) :
      overlap.ops[q]? ≠ some (.call (.threadJoin j c)) := by
    intro ho
    interval_cases q <;> cases Option.some.inj ho
  refine ⟨?_, ?_, fun q hq j ↦ hjoin q (hq.trans hs) j c.tid⟩
  · interval_cases s <;> cases ho <;> cases hst <;> decide
  · interval_cases s <;> cases ho <;> cases hst <;> decide

theorem overlap_exposes : ∃ i s' t' c', overlap.Conflicts i 9 s' t' c' (writeBy 1) 8 ∧
    overlap.syncRun.Unpublished (overlap.calls s') c'.tid (overlap.calls 7) 1 :=
  (overlap.finds_iff overlap_noWrap overlap_recordsAt).mp ⟨_, overlap_findsAt⟩

theorem overlap_unordered : ∃ s i s' t' c', overlap.Conflicts i 9 s' t' c' (writeBy 1) 8 ∧
    ¬overlap.syncRun.HappensBefore (overlap.calls s', c'.tid) (overlap.calls s, 1) ∧
    ¬overlap.syncRun.HappensBefore (overlap.calls s, 1) (overlap.calls s', c'.tid) := by
  obtain ⟨s, i, s', t', c', -, hc, -, hb, hquiet⟩ :=
    overlap.report_unordered overlap_noWrap overlap_findsAt
  exact ⟨s, i, s', t', c', hc, hb, hquiet (overlap_quiet s)⟩

theorem overlap_notHappensBefore : ∃ i s' t' c', overlap.Conflicts i 9 s' t' c' (writeBy 1) 8 ∧
    ¬overlap.syncRun.HappensBefore (overlap.calls s', c'.tid) (overlap.calls 7, 1) :=
  (overlap.syncFragment_finds_iff overlap_syncFragment overlap_noWrap overlap_accessesBy
    overlap_recordsAt).mp ⟨_, overlap_findsAt⟩

end ConcurrentRun

end WebTSan
