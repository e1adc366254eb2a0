import WebTSan.ConcurrentSites

/-!
# Calls that do not overlap

If every call returns before the next one is made, the steps into which calls are taken apart lead
to the states that `Detector.lean` describes, where a call is one step. So every run of the detector
is the outcome of a run of the threads, in which the callback is called with the same reports in the
same order.

## Main definitions

* `WebTSan.Run.reports`: the reports of a run that pass the filter.
* `WebTSan.ConcurrentState.Idle`: no call is under way.

## Main results

* `WebTSan.ConcurrentState.reaches_of_loop`: the steps of `RecordAccess`.
* `WebTSan.ConcurrentState.reaches_of_clearing`: the steps of `ClearRange`.
* `WebTSan.Run.exists_serial`: every run of the detector is one of the threads.
-/

namespace WebTSan

/-- The report of a call that passes the filter. -/
def Op.reported (s : Detector) : Op → Option RaceReport
  | memoryAccess backingStore sabByteLength offset size tid isWrite =>
    (s.memoryAccess backingStore sabByteLength offset size tid isWrite).1.reported
  | _ => none

/-- The reports of the calls before a point that pass the filter, in the order of the calls. -/
def Run.reports (r : Run) (k : ℕ) : List RaceReport :=
  (List.range k).filterMap fun j ↦ (r.ops[j]?).bind fun o ↦ o.reported (r.state j)

theorem Run.reports_succ (r : Run) {k : ℕ} {o : Op} (ho : r.ops[k]? = some o) :
    r.reports (k + 1) = r.reports k ++ (o.reported (r.state k)).toList := by
  rw [reports, reports, List.range_succ, List.filterMap_append]
  cases h : o.reported (r.state k) <;> simp [ho, h]

namespace ConcurrentState

open Execution

variable {ι : Type*} {s s' : ConcurrentState ι} {bs : ℕ}

/-- No call is under way, and these are the state of the detector and the reports so far. -/
structure Idle (s : ConcurrentState ι) (d : Detector) (reports : List RaceReport) : Prop where
  detector_eq : s.detector = d
  stage_eq (t : ι) : s.stage t = none
  clearing_eq : s.clearing = none
  notified_eq : s.notified = reports

/-! ### Shadows that are stored again -/

theorem setShadow_self {sb : ShadowBuffer} (h : s.detector.shadowBuffers bs = some sb) :
    s.setShadow bs sb = s := by
  rw [setShadow, ← h, Function.update_eq_self]
  rfl

theorem deref_setShadow {shadow : ℕ} {sb : ShadowBuffer} (h : s.deref bs shadow = some sb)
    (sb' : ShadowBuffer) : (s.setShadow bs sb').deref bs shadow = some sb' := by
  unfold deref at h ⊢
  split_ifs at h with hdes
  simp [setShadow, setDetector, hdes]

/-! ### `ClearRange` -/

variable [DecidableEq ι]

/-- The steps of the inner loop of `ClearRange`. -/
theorem reaches_of_clearBytes {byte endByte pageEnd pageIdx count : ℕ} {sb : ShadowBuffer}
    {page : ShadowPage} (hc : s.clearing = some ⟨bs, byte, endByte, some pageEnd⟩)
    (hsb : s.detector.shadowBuffers bs = some sb) (hpage : sb.pages pageIdx = some page)
    (hidx : ∀ b, byte ≤ b → b < pageEnd → ShadowBuffer.pageIndex b = pageIdx)
    (hcount : count = pageEnd - byte) :
    Reaches ConcurrentOp.exec s ((s.setShadow bs { sb with
      pages := Function.update sb.pages pageIdx
        (some (ShadowBuffer.clearBytes page byte count)) }).setClearing
          (some ⟨bs, max byte pageEnd, endByte, none⟩)) := by
  induction count generalizing s byte sb page with
  | zero =>
    have hself : Function.update sb.pages pageIdx (some page) = sb.pages := by
      rw [← hpage, Function.update_eq_self]
    have hle : pageEnd ≤ byte := by omega
    refine .single (o := .clearNext) ?_
    simp [ConcurrentOp.exec, hc, hsb, clearNext, not_lt.mpr hle, ShadowBuffer.clearBytes, hself,
      setShadow_self hsb, hle]
  | succ count ih =>
    have hlt : byte < pageEnd := by omega
    have hbyte := hidx byte le_rfl hlt
    have hexec : ConcurrentOp.clearNext.exec s =
        some ((s.setShadow bs (clearCells sb byte)).setClearing
          (some ⟨bs, byte + 1, endByte, some pageEnd⟩)) := by
      simp [ConcurrentOp.exec, hc, hsb, clearNext, hlt]
    have hcells : clearCells sb byte = { sb with
        pages := Function.update sb.pages pageIdx
          (some (ShadowBuffer.clearByte page (ShadowBuffer.inPageOffset byte))) } := by
      rw [clearCells, hbyte, hpage]
      rfl
    refine .head hexec ?_
    have hsb₁ : (s.setShadow bs (clearCells sb byte)).detector.shadowBuffers bs =
        some (clearCells sb byte) := by simp [setShadow, setDetector]
    have hpage₁ : (clearCells sb byte).pages pageIdx =
        some (ShadowBuffer.clearByte page (ShadowBuffer.inPageOffset byte)) := by simp [hcells]
    have hmax : max (byte + 1) pageEnd = max byte pageEnd := by omega
    have hrest := ih (s := (s.setShadow bs (clearCells sb byte)).setClearing
      (some ⟨bs, byte + 1, endByte, some pageEnd⟩)) rfl hsb₁ hpage₁
      (fun b hb hb' ↦ hidx b (by omega) hb') (by omega)
    rw [hmax] at hrest
    simpa [hcells, setClearing, setShadow, setDetector, ShadowBuffer.clearBytes] using hrest

/-- The last step of `ClearRange`. -/
theorem reaches_of_clearReturn {byte endByte : ℕ} {sb : ShadowBuffer}
    (hc : s.clearing = some ⟨bs, byte, endByte, none⟩)
    (hsb : s.detector.shadowBuffers bs = some sb) (hle : endByte ≤ byte) :
    Reaches ConcurrentOp.exec s ((s.setShadow bs sb).setClearing none) := by
  refine .single (o := .clearNext) ?_
  simp [ConcurrentOp.exec, hc, hsb, clearNext, not_lt.mpr hle, setShadow_self hsb]

/-- The steps of `ClearRange`. -/
theorem reaches_of_clearing {byte endByte fuel : ℕ} {sb sb' : ShadowBuffer}
    (hc : s.clearing = some ⟨bs, byte, endByte, none⟩)
    (hsb : s.detector.shadowBuffers bs = some sb)
    (h : ShadowBuffer.clearLoop endByte fuel byte sb = some sb') :
    Reaches ConcurrentOp.exec s ((s.setShadow bs sb').setClearing none) := by
  induction fuel generalizing s byte sb with
  | zero =>
    simp only [ShadowBuffer.clearLoop] at h
    split_ifs at h with hlt
    obtain rfl := Option.some.inj h
    exact reaches_of_clearReturn hc hsb (not_lt.mp hlt)
  | succ fuel ih =>
    simp only [ShadowBuffer.clearLoop] at h
    split_ifs at h with hlt
    · cases hp : sb.pages (ShadowBuffer.pageIndex byte) with
      | none =>
        rw [hp] at h
        have hexec : ConcurrentOp.clearNext.exec s = some (s.setClearing (some ⟨bs,
            (ShadowBuffer.pageIndex byte + 1) * kPageBytes % 2 ^ 64, endByte, none⟩)) := by
          simp [ConcurrentOp.exec, hc, hsb, clearNext, hlt, hp]
        exact .head hexec (ih rfl hsb h)
      | some page =>
        rw [hp] at h
        have hexec : ConcurrentOp.clearNext.exec s = some (s.setClearing (some ⟨bs, byte, endByte,
            some (min endByte ((ShadowBuffer.pageIndex byte + 1) * kPageBytes % 2 ^ 64))⟩)) := by
          simp [ConcurrentOp.exec, hc, hsb, clearNext, hlt, hp]
        refine .head hexec (.trans (reaches_of_clearBytes rfl hsb hp (fun b hb hb' ↦ ?_) rfl) ?_)
        · simp only [ShadowBuffer.pageIndex, kPageBytes] at *
          omega
        · have hrest := ih (s := (s.setShadow bs _).setClearing _) rfl
            (by simp [setClearing, setShadow, setDetector]; rfl) h
          simpa [setClearing, setShadow, setDetector] using hrest
    · obtain rfl := Option.some.inj h
      exact reaches_of_clearReturn hc hsb (not_lt.mp hlt)

/-! ### `RecordAccess` -/

/-- The steps of `RecordAccess`. -/
theorem reaches_of_loop {t : ι} {c : AccessCall} {shadow i n : ℕ} {clk : VClock}
    {sb : ShadowBuffer} (ht : s.stage t = some (c, .loop shadow clk i))
    (hsb : s.deref c.backingStore shadow = some sb) (hn : i + n = c.size) :
    Reaches ConcurrentOp.exec s ((s.setShadow c.backingStore
      (sb.recordAccess (c.offset + i) n c.tid c.isWrite clk).2).setStage t
        ((sb.recordAccess (c.offset + i) n c.tid c.isWrite clk).1.map fun r ↦ (c, .filter r))) := by
  induction n generalizing s sb i with
  | zero =>
    have hself := setShadow_self (shadowBuffers_of_deref hsb)
    have hi : ¬i < c.size := by omega
    refine .single (o := .next t) ?_
    simp [ConcurrentOp.exec, ht, next, round, hi, ShadowBuffer.recordAccess, hself]
  | succ n ih =>
    have hi : i < c.size := by omega
    by_cases hlen : c.offset + i < sb.byteLength
    · have hexec : (ConcurrentOp.next t).exec s = some ((s.setShadow c.backingStore
          (sb.recordByte (c.offset + i) c.tid c.isWrite clk).2).setStage t
            (some (c, (sb.recordByte (c.offset + i) c.tid c.isWrite clk).1.elim
              (.loop shadow clk (i + 1)) .filter))) := by
        simp [ConcurrentOp.exec, ht, next, round, hi, hsb, hlen]
      cases hr : (sb.recordByte (c.offset + i) c.tid c.isWrite clk).1 with
      | some report =>
        rw [hr] at hexec
        rw [ShadowBuffer.recordAccess_of_some hlen hr]
        exact .single hexec
      | none =>
        rw [hr] at hexec
        rw [ShadowBuffer.recordAccess_of_none hlen hr]
        have hsb₁ := deref_setShadow hsb (sb.recordByte (c.offset + i) c.tid c.isWrite clk).2
        have hrest := ih (s := (s.setShadow c.backingStore _).setStage t _)
          (setStage_stage_self ..) hsb₁ (by omega : i + 1 + n = c.size)
        refine .head hexec ?_
        simpa [setStage, setShadow, setDetector, Nat.add_assoc] using hrest
    · have hself := setShadow_self (shadowBuffers_of_deref hsb)
      refine .single (o := .next t) ?_
      rw [ShadowBuffer.recordAccess_of_le (not_lt.mp hlen)]
      simp [ConcurrentOp.exec, ht, next, round, hi, hsb, hlen, hself]

/-! ### `MemoryAccess` -/

theorem exec_next {t : ι} {c : AccessCall} {st : AccessStage} (ht : s.stage t = some (c, st)) :
    (ConcurrentOp.next t).exec s = s.next t c st := by
  simp [ConcurrentOp.exec, ht]

/-- The steps of `MemoryAccess` from the filter on. -/
theorem reaches_of_filter {t : ι} {c : AccessCall} {report : RaceReport}
    (ht : s.stage t = some (c, .filter report)) :
    ∃ s', Reaches ConcurrentOp.exec s s' ∧
      s'.detector = (s.detector.reportRace c.backingStore report).2 ∧
      s'.stage = Function.update s.stage t none ∧ s'.clearing = s.clearing ∧
      s'.notified = s.notified ++
        (s.detector.reportRace c.backingStore report).1.reported.toList := by
  have hfilter : (ConcurrentOp.next t).exec s = some (s.filter t c report) := exec_next ht
  by_cases hmem : Detector.siteKey c.backingStore report.sabOffset ∈ s.detector.reportedRaceSites
  · refine ⟨_, .single hfilter, ?_⟩
    simp [filter, Detector.reportRace, hmem, setStage]
  · have hcount : (s.filter t c report).stage t = some (c, .count report) := by
      simp [filter, hmem]
    have hlog (d : Detector) : (ConcurrentOp.next t).exec
        (((s.filter t c report).setDetector d).setStage t (some (c, .log report))) =
          some ((((s.filter t c report).setDetector d).setStage t (some (c, .log report))).log t c
            report) := exec_next (setStage_stage_self ..)
    have hnotify (s₁ : ConcurrentState ι) :
        (s₁.log t c report).stage t = some (c, .notify report) := by
      unfold log
      split_ifs <;> exact setStage_stage_self ..
    refine ⟨_, .head hfilter (.head (exec_next hcount) (.head (hlog _)
      (.single (exec_next (hnotify _))))), ?_⟩
    cases hfirst : s.detector.firstRaceLogged <;>
      simp [log, filter, hmem, Detector.reportRace, setStage, setDetector, hfirst]

/-- The steps of `MemoryAccess`. -/
theorem Idle.reaches_of_access {d : Detector} {reports : List RaceReport}
    (h : s.Idle d reports) (he : d.enabled = true) (t : ι) (c : AccessCall) :
    ∃ s', Reaches ConcurrentOp.exec s s' ∧ s'.Idle
      (d.memoryAccess c.backingStore c.sabByteLength c.offset c.size c.tid c.isWrite).2
      (reports ++ (d.memoryAccess c.backingStore c.sabByteLength c.offset c.size c.tid
        c.isWrite).1.reported.toList) := by
  obtain ⟨rfl, hstage, hclear, rfl⟩ := h
  have hidle (st : Option (AccessCall × AccessStage)) (u : ι) :
      Function.update (Function.update s.stage t st) t none u = none := by
    by_cases hu : u = t <;> simp [hu, hstage]
  have hcall : (ConcurrentOp.access t c).exec s = some ((s.setDetector { s.detector with
      accessesChecked := bump s.detector.accessesChecked }).setStage t (some (c, .lookup))) := by
    simp [ConcurrentOp.exec, hstage, access, he]
  dsimp only [Detector.memoryAccess]
  rw [if_neg (by simp [he])]
  generalize { s.detector with accessesChecked := bump s.detector.accessesChecked } = d at hcall ⊢
  have hnext := exec_next (setStage_stage_self (s.setDetector d) t (some (c, .lookup)))
  have hfree : ((s.setDetector d).setStage t (some (c, .lookup))).clearing = none := hclear
  simp only [next, hfree, Option.isSome_none, Bool.false_eq_true, ↓reduceIte] at hnext
  cases hfor : d.shadowFor c.backingStore c.sabByteLength with
  | none =>
    simp only [setStage, setDetector, hfor] at hnext
    exact ⟨_, .head hcall (.single hnext), rfl, hidle _, hclear, by simp⟩
  | some found =>
    obtain ⟨sb, d'⟩ := found
    have hlookup : (ConcurrentOp.next t).exec
        ((s.setDetector d).setStage t (some (c, .lookup))) = some ((s.setDetector d').setStage t
          (some (c, .snapshot (s.destroyed c.backingStore)))) := by
      simp only [setStage, setDetector, hfor, Function.update_idem] at hnext
      exact hnext
    have hsnapshot : (ConcurrentOp.next t).exec ((s.setDetector d').setStage t
        (some (c, .snapshot (s.destroyed c.backingStore)))) = some ((s.setDetector d').setStage t
          (some (c, .loop (s.destroyed c.backingStore) (d'.threadClocks c.tid) 0))) := by
      rw [exec_next (setStage_stage_self ..)]
      simp [next, setStage, setDetector]
    have hsb : d'.shadowBuffers c.backingStore = some sb := by
      obtain rfl := d.snd_eq_of_shadowFor_eq_some hfor
      obtain ⟨rfl, -⟩ := Detector.eq_of_shadowFor_eq_some d hfor
      simp
    have hloop := reaches_of_loop (s := (s.setDetector d').setStage t
      (some (c, .loop (s.destroyed c.backingStore) (d'.threadClocks c.tid) 0)))
      (setStage_stage_self ..) ((if_pos rfl).trans hsb) (Nat.zero_add c.size)
    have hrecord := Reaches.head hcall (.head hlookup (.head hsnapshot hloop))
    simp only [Detector.recordIn, Nat.add_zero] at hrecord ⊢
    cases hres : (sb.recordAccess c.offset c.size c.tid c.isWrite (d'.threadClocks c.tid)).1 with
    | none =>
      rw [hres] at hrecord
      exact ⟨_, hrecord, rfl, hidle _, hclear, by simp [setStage, setShadow, setDetector]⟩
    | some report =>
      rw [hres] at hrecord
      obtain ⟨s', hs', hdetector, hstage', hclear', hnotified⟩ :=
        reaches_of_filter (setStage_stage_self _ t (some (c, .filter report)))
      refine ⟨s', hrecord.trans hs', hdetector, fun u ↦ ?_, hclear'.trans hclear, hnotified⟩
      rw [hstage']
      by_cases hu : u = t <;> simp [hu, hstage, setStage, setShadow, setDetector]

/-! ### Whole calls -/

/-- The steps of a call of `ClearShadow`. -/
theorem Idle.reaches_of_clearShadow {d d' : Detector} {reports : List RaceReport}
    (h : s.Idle d reports) (he : d.enabled = true) {off size : ℕ}
    (hexec : d.clearShadow bs off size = some d') :
    ∃ s', Reaches ConcurrentOp.exec s s' ∧ s'.Idle d' reports := by
  obtain ⟨rfl, hstage, hclear, rfl⟩ := h
  have hcall : (ConcurrentOp.clearShadow bs off size).exec s =
      some (s.clearShadow bs off size) := by
    simp [ConcurrentOp.exec, hclear]
  rw [Detector.clearShadow, if_neg (by simp [he])] at hexec
  rw [clearShadow, if_neg (by simp [he])] at hcall
  cases hsb : s.detector.shadowBuffers bs with
  | none =>
    rw [hsb] at hexec hcall
    obtain rfl := Option.some.inj hexec
    exact ⟨s, .single hcall, rfl, hstage, hclear, rfl⟩
  | some sb =>
    rw [hsb] at hexec hcall
    obtain ⟨sb', hclears, rfl⟩ := Option.map_eq_some_iff.mp hexec
    have hsteps := reaches_of_clearing (s := s.setClearing
      (some ⟨bs, off, sb.clearEnd off size, none⟩)) rfl hsb hclears
    exact ⟨_, .head hcall hsteps, rfl, hstage, rfl, rfl⟩

/-- The steps of a call. -/
theorem Idle.reaches_of_exec [Nonempty ι] {d d' : Detector} {reports : List RaceReport}
    (h : s.Idle d reports) (he : d.enabled = true) {o : Op} (hexec : o.exec d = some d') :
    ∃ s', Reaches ConcurrentOp.exec s s' ∧ s'.Idle d' (reports ++ (o.reported d).toList) := by
  cases hmem : o.concernsMemory with
  | false =>
    have hnone : o.reported d = none := by cases o <;> first | rfl | cases hmem
    obtain ⟨rfl, hstage, hclear, rfl⟩ := h
    refine ⟨s.setDetector d', .single (o := .call o) ?_, rfl, hstage, hclear, ?_⟩
    · simp [ConcurrentOp.exec, hmem, hexec]
    · simp [hnone, setDetector]
  | true =>
    cases o with
    | memoryAccess backingStore sabByteLength offset size tid isWrite =>
      obtain rfl := Option.some.inj hexec
      obtain ⟨t⟩ := ‹Nonempty ι›
      exact h.reaches_of_access he t ⟨backingStore, sabByteLength, offset, size, tid, isWrite⟩
    | clearShadow bs off size =>
      obtain ⟨s', hs', hidle⟩ := h.reaches_of_clearShadow he hexec
      exact ⟨s', hs', by simpa [Op.reported] using hidle⟩
    | removeShadow bs =>
      obtain rfl := Option.some.inj hexec
      obtain ⟨rfl, hstage, hclear, rfl⟩ := h
      refine ⟨s.removeShadow bs, .single (o := .removeShadow bs) ?_, rfl, hstage, hclear, ?_⟩
      · simp [ConcurrentOp.exec, hclear]
      · simp [Op.reported, removeShadow]
    | _ => cases hmem

end ConcurrentState

/-- Every run of the detector is the outcome of a run of the threads in which no calls overlap. The
callback is called with the reports of the run, in the same order. -/
theorem Run.exists_serial (r : Run) (ι : Type*) [DecidableEq ι] [Nonempty ι] :
    ∃ (e : ConcurrentRun ι) (pos : ℕ → ℕ), Monotone pos ∧ ∀ k ≤ r.ops.length,
      pos k ≤ e.ops.length ∧ (e.state (pos k)).Idle (r.state k) (r.reports k) := by
  refine r.exists_simulated (R := fun k d s ↦ ConcurrentState.Idle s d (r.reports k))
    ⟨rfl, fun _ ↦ rfl, rfl, rfl⟩ fun {k o s} ho h ↦ ?_
  have hk := (List.getElem?_eq_some_iff.mp ho).1.le
  rw [r.reports_succ ho]
  exact h.reaches_of_exec (r.enabled hk) (r.step ho)

/-- A thread writes a byte. -/
def Run.createThenWriteByte : Run :=
  .ofOps [.threadCreate uint32Max, .memoryAccess 1000 64 8 1 0 true] (by decide)

theorem Run.createThenWriteByte_serial : ∃ (e : ConcurrentRun Tid) (pos : ℕ → ℕ),
    Monotone pos ∧ ∀ k ≤ 2, pos k ≤ e.ops.length ∧
      (e.state (pos k)).Idle (createThenWriteByte.state k) (createThenWriteByte.reports k) :=
  createThenWriteByte.exists_serial Tid

end WebTSan
