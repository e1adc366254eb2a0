import Mathlib.Algebra.BigOperators.Group.Finset.Piecewise
import WebTSan.ConcurrentRaces

/-!
# The per-site filter under overlapping accesses

Between finding a race and handing it to the callback, `MemoryAccess` inserts the key of the site,
counts the race, and exchanges the flag for the first log line, in separate steps. Threads that find
races at one site at the same time all come to the filter, and one of them passes. In every state,
the reported sites are accounted for: each belongs to one report that has been handed over, or to
one thread on its way there.

## Main definitions

* `WebTSan.RaceReport.key`: the key of the site of a report.
* `WebTSan.AccessStage.passed`, `WebTSan.AccessStage.uncounted`.
* `WebTSan.ConcurrentState.Accounted`: the invariant.

## Main results

* `WebTSan.ConcurrentState.Accounted.step`: every step keeps the invariant.
* `WebTSan.ConcurrentRun.reported_once`: what is reported, in every interleaving.
-/

namespace WebTSan

/-- Changing one value of a function changes a sum over it by the difference. -/
theorem sum_update_add {ι α M : Type*} [Fintype ι] [DecidableEq ι] [AddCommMonoid M] (f : α → M)
    (g : ι → α) (i : ι) (a : α) :
    ∑ j, f (Function.update g i a j) + f (g i) = ∑ j, f (g j) + f a := by
  have hcomp (j : ι) : f (Function.update g i a j) = Function.update (f ∘ g) i (f a) j := by
    by_cases h : j = i
    · subst h
      simp
    · simp [h]
  have hsplit : ∑ j ∈ Finset.univ \ {i}, f (g j) + f (g i) = ∑ j, f (g j) := by
    rw [Finset.sdiff_singleton_eq_erase, Finset.sum_erase_add _ _ (Finset.mem_univ i)]
  rw [Finset.sum_congr rfl fun j _ ↦ hcomp j, Finset.sum_update_of_mem (Finset.mem_univ i),
    add_assoc, add_comm, ← hsplit]
  rfl

/-- The key of the site of a report. -/
def RaceReport.key (report : RaceReport) : ℕ :=
  Detector.siteKey report.sabBackingStore report.sabOffset

namespace AccessStage

/-- The race that an access has found. -/
def report : AccessStage → Option RaceReport
  | .filter report | .count report | .log report | .notify report => some report
  | _ => none

/-- The race that has passed the filter and has not been handed to the callback. -/
def passed : AccessStage → Option RaceReport
  | .count report | .log report | .notify report => some report
  | _ => none

/-- The race has passed the filter and has not been counted. -/
def uncounted : AccessStage → Bool
  | .count _ => true
  | _ => false

/-- The race has been offered to the log and has not been handed to the callback. -/
def offered : AccessStage → Bool
  | .notify _ => true
  | _ => false

end AccessStage

variable {ι : Type*}

namespace ConcurrentState

/-- The key of the race that a thread is handing over. -/
def keysOf (p : Option (AccessCall × AccessStage)) : Multiset ℕ :=
  (p.bind fun p ↦ p.2.passed).elim 0 fun report ↦ {report.key}

def uncountedOf (p : Option (AccessCall × AccessStage)) : ℕ := (p.any fun p ↦ p.2.uncounted).toNat

def offeredOf (p : Option (AccessCall × AccessStage)) : Bool := p.any fun p ↦ p.2.offered

/-- A thread that is not handing a race over. -/
def Early (p : Option (AccessCall × AccessStage)) : Prop :=
  keysOf p = 0 ∧ uncountedOf p = 0 ∧ offeredOf p = false

theorem early_none : Early none := ⟨rfl, rfl, rfl⟩

theorem early_some {c : AccessCall} {st : AccessStage} (h : st.passed = none) :
    Early (some (c, st)) := by
  cases st with
  | count | log | notify => cases h
  | _ => exact ⟨rfl, rfl, rfl⟩

/-- A race that a thread has found names the buffer of its access. -/
def NamesBuffer (p : Option (AccessCall × AccessStage)) : Prop :=
  ∀ c st report, p = some (c, st) → st.report = some report →
    report.sabBackingStore = c.backingStore

theorem NamesBuffer.of_report_eq {c : AccessCall} {st st' : AccessStage}
    (h : NamesBuffer (some (c, st))) (heq : st'.report = st.report) :
    NamesBuffer (some (c, st')) := by
  intro _ _ report hst hr
  obtain ⟨rfl, rfl⟩ := Prod.mk.inj (Option.some.inj hst)
  exact h c st report rfl (heq.symm.trans hr)

/-- The reported sites are those of the reports that have been handed over or are on their way, each
once; the races that are not counted yet are the difference to the counter; and one report has been
logged as soon as any has been offered to the log. -/
structure Accounted [Fintype ι] (s : ConcurrentState ι) : Prop where
  sites : s.detector.reportedRaceSites.val =
    (s.notified.map RaceReport.key : Multiset ℕ) + ∑ t, keysOf (s.stage t)
  races : (s.detector.racesDetected + ∑ t, uncountedOf (s.stage t)) % 2 ^ 64 =
    s.detector.reportedRaceSites.card % 2 ^ 64
  log : s.logged.length = s.detector.firstRaceLogged.toNat
  first : s.detector.firstRaceLogged = true ↔
    s.notified ≠ [] ∨ ∃ t, offeredOf (s.stage t) = true
  namesBuffer (t : ι) : NamesBuffer (s.stage t)

namespace Accounted

variable [Fintype ι] {s s' : ConcurrentState ι}

theorem initial : (initial : ConcurrentState ι).Accounted where
  sites := by simp [ConcurrentState.initial, Detector.initial, keysOf]
  races := by simp [ConcurrentState.initial, Detector.initial, uncountedOf]
  log := rfl
  first := by simp [ConcurrentState.initial, Detector.initial, offeredOf]
  namesBuffer t := by simp [ConcurrentState.initial, NamesBuffer]

/-- Nothing else of the detector matters. -/
theorem setDetector (h : s.Accounted) {d : Detector}
    (hsites : d.reportedRaceSites = s.detector.reportedRaceSites)
    (hraces : d.racesDetected = s.detector.racesDetected)
    (hfirst : d.firstRaceLogged = s.detector.firstRaceLogged) : (s.setDetector d).Accounted where
  sites := hsites ▸ h.sites
  races := by
    change (d.racesDetected + _) % _ = d.reportedRaceSites.card % _
    rw [hsites, hraces]
    exact h.races
  log := hfirst ▸ h.log
  first := hfirst ▸ h.first
  namesBuffer := h.namesBuffer

theorem setShadow (h : s.Accounted) (bs : ℕ) (sb : ShadowBuffer) :
    (s.setShadow bs sb).Accounted := h.setDetector rfl rfl rfl

variable [DecidableEq ι] {t : ι}

/-- What a thread with another stage adds to a sum over the threads. -/
theorem sum_setStage {M : Type*} [AddCommMonoid M] (f : Option (AccessCall × AccessStage) → M)
    {q : Option (AccessCall × AccessStage)} (ht : s.stage t = q)
    (p : Option (AccessCall × AccessStage)) :
    ∑ u, f ((s.setStage t p).stage u) + f q = ∑ u, f (s.stage u) + f p :=
  ht ▸ sum_update_add f s.stage t p

omit [Fintype ι] in
theorem exists_offeredOf_setStage {p : Option (AccessCall × AccessStage)}
    (hp : offeredOf p = offeredOf (s.stage t)) :
    (∃ u, offeredOf ((s.setStage t p).stage u) = true) ↔ ∃ u, offeredOf (s.stage u) = true := by
  refine exists_congr fun u ↦ ?_
  by_cases hu : u = t
  · subst hu
    rw [setStage_stage_self, hp]
  · rw [setStage_stage_of_ne _ hu]

theorem namesBuffer_setStage (h : s.Accounted) {p : Option (AccessCall × AccessStage)}
    (hp : NamesBuffer p) (u : ι) : NamesBuffer ((s.setStage t p).stage u) := by
  by_cases hu : u = t
  · subst hu
    rwa [setStage_stage_self]
  · rw [setStage_stage_of_ne _ hu]
    exact h.namesBuffer u

/-- A thread that has not passed the filter and does not pass it. -/
theorem setStage (h : s.Accounted) {p : Option (AccessCall × AccessStage)}
    (hold : Early (s.stage t)) (hnew : Early p) (hp : NamesBuffer p) :
    (s.setStage t p).Accounted where
  sites := by
    have hsum := sum_setStage keysOf (s := s) (t := t) rfl p
    rw [hold.1, hnew.1, add_zero, add_zero] at hsum
    rw [hsum]
    exact h.sites
  races := by
    have hsum := sum_setStage uncountedOf (s := s) (t := t) rfl p
    rw [hold.2.1, hnew.2.1, add_zero, add_zero] at hsum
    rw [hsum]
    exact h.races
  log := h.log
  first := h.first.trans (or_congr Iff.rfl
    (exists_offeredOf_setStage (hnew.2.2.trans hold.2.2.symm)).symm)
  namesBuffer := h.namesBuffer_setStage hp

variable {c : AccessCall} {report : RaceReport}

/-- A race that passes the filter. -/
theorem insert (h : s.Accounted) (ht : s.stage t = some (c, .filter report))
    (hmem : Detector.siteKey c.backingStore report.sabOffset ∉ s.detector.reportedRaceSites) :
    ((s.setDetector { s.detector with
      reportedRaceSites := Insert.insert (Detector.siteKey c.backingStore report.sabOffset)
        s.detector.reportedRaceSites }).setStage t (some (c, .count report))).Accounted := by
  have hbs : NamesBuffer (some (c, .filter report)) := ht ▸ h.namesBuffer t
  have hkey : Detector.siteKey c.backingStore report.sabOffset = report.key := by
    rw [RaceReport.key, hbs c _ report rfl rfl]
  have hsum : ∑ u, keysOf ((s.setStage t (some (c, .count report))).stage u) + 0 =
      ∑ u, keysOf (s.stage u) + {report.key} :=
    sum_setStage keysOf ht (some (c, .count report))
  have hunc : ∑ u, uncountedOf ((s.setStage t (some (c, .count report))).stage u) + 0 =
      ∑ u, uncountedOf (s.stage u) + 1 :=
    sum_setStage uncountedOf ht (some (c, .count report))
  have hoff := exists_offeredOf_setStage (s := s) (t := t) (p := some (c, .count report))
    (by rw [ht]; rfl)
  refine ⟨?_, ?_, h.log, h.first.trans (or_congr Iff.rfl hoff.symm), h.namesBuffer_setStage ?_⟩
  · change (Insert.insert _ s.detector.reportedRaceSites).val =
      (s.notified.map RaceReport.key : Multiset ℕ) +
        ∑ u, keysOf ((s.setStage t (some (c, .count report))).stage u)
    rw [add_zero] at hsum
    rw [Finset.insert_val_of_notMem hmem, h.sites, hsum, hkey, ← Multiset.singleton_add, add_comm,
      add_assoc]
  · have hraces := h.races
    change (s.detector.racesDetected +
      ∑ u, uncountedOf ((s.setStage t (some (c, .count report))).stage u)) % 2 ^ 64 =
        (Insert.insert _ s.detector.reportedRaceSites).card % 2 ^ 64
    rw [Finset.card_insert_of_notMem hmem]
    omega
  · exact hbs.of_report_eq rfl

/-- A race that is counted. -/
theorem count (h : s.Accounted) (ht : s.stage t = some (c, .count report)) :
    ((s.setDetector { s.detector with
      racesDetected := bump s.detector.racesDetected }).setStage t
        (some (c, .log report))).Accounted := by
  have hbs : NamesBuffer (some (c, .count report)) := ht ▸ h.namesBuffer t
  have hsum : ∑ u, keysOf ((s.setStage t (some (c, .log report))).stage u) + {report.key} =
      ∑ u, keysOf (s.stage u) + {report.key} :=
    sum_setStage keysOf ht (some (c, .log report))
  have hunc : ∑ u, uncountedOf ((s.setStage t (some (c, .log report))).stage u) + 1 =
      ∑ u, uncountedOf (s.stage u) + 0 :=
    sum_setStage uncountedOf ht (some (c, .log report))
  have hoff := exists_offeredOf_setStage (s := s) (t := t) (p := some (c, .log report))
    (by rw [ht]; rfl)
  refine ⟨?_, ?_, h.log, h.first.trans (or_congr Iff.rfl hoff.symm), h.namesBuffer_setStage ?_⟩
  · rw [add_left_inj] at hsum
    exact h.sites.trans (by rw [← hsum]; rfl)
  · have hraces := h.races
    change (bump s.detector.racesDetected +
      ∑ u, uncountedOf ((s.setStage t (some (c, .log report))).stage u)) % 2 ^ 64 =
        s.detector.reportedRaceSites.card % 2 ^ 64
    rw [bump]
    omega
  · exact hbs.of_report_eq rfl

/-- A race that has been offered to the log. -/
theorem offer (h : s.Accounted) (ht : s.stage t = some (c, .log report)) {logged : List RaceReport}
    (hlog : logged.length = 1) :
    (({ s.setDetector { s.detector with firstRaceLogged := true } with
      logged := logged }).setStage t (some (c, .notify report))).Accounted := by
  have hbs : NamesBuffer (some (c, .log report)) := ht ▸ h.namesBuffer t
  have hsum : ∑ u, keysOf ((s.setStage t (some (c, .notify report))).stage u) + {report.key} =
      ∑ u, keysOf (s.stage u) + {report.key} :=
    sum_setStage keysOf ht (some (c, .notify report))
  have hunc : ∑ u, uncountedOf ((s.setStage t (some (c, .notify report))).stage u) + 0 =
      ∑ u, uncountedOf (s.stage u) + 0 :=
    sum_setStage uncountedOf ht (some (c, .notify report))
  refine ⟨?_, ?_, hlog, ?_, h.namesBuffer_setStage ?_⟩
  · rw [add_left_inj] at hsum
    exact h.sites.trans (by rw [← hsum]; rfl)
  · rw [add_left_inj] at hunc
    exact Eq.trans (by rw [← hunc]; rfl) h.races
  · refine ⟨fun _ ↦ .inr ⟨t, ?_⟩, fun _ ↦ rfl⟩
    rw [setStage_stage_self]
    rfl
  · exact hbs.of_report_eq rfl

/-- A race that is handed to the callback. -/
theorem notify (h : s.Accounted) (ht : s.stage t = some (c, .notify report)) :
    (({ s with notified := s.notified ++ [report] }).setStage t none).Accounted := by
  have hsum : ∑ u, keysOf ((s.setStage t none).stage u) + {report.key} =
      ∑ u, keysOf (s.stage u) + 0 :=
    sum_setStage keysOf ht none
  have hunc : ∑ u, uncountedOf ((s.setStage t none).stage u) + 0 =
      ∑ u, uncountedOf (s.stage u) + 0 :=
    sum_setStage uncountedOf ht none
  refine ⟨?_, ?_, h.log, ?_, h.namesBuffer_setStage nofun⟩
  · change s.detector.reportedRaceSites.val =
      ((s.notified ++ [report]).map RaceReport.key : Multiset ℕ) +
        ∑ u, keysOf ((s.setStage t none).stage u)
    rw [add_zero] at hsum
    rw [h.sites, ← hsum, List.map_append, ← Multiset.coe_add, add_assoc]
    exact congrArg (HAdd.hAdd _) (add_comm _ _)
  · rw [add_left_inj] at hunc
    exact Eq.trans (by rw [← hunc]; rfl) h.races
  · exact iff_of_true (h.first.mpr (.inr ⟨t, by rw [ht]; rfl⟩))
      (.inl (List.append_ne_nil_of_right_ne_nil _ (List.cons_ne_nil _ _)))

theorem namesBuffer_of_report_eq_none {st : AccessStage} (h : st.report = none) :
    NamesBuffer (some (c, st)) := by
  intro c' st' report heq hr
  obtain ⟨rfl, rfl⟩ := Prod.mk.inj (Option.some.inj heq)
  rw [h] at hr
  cases hr

/-- A race that is found names the buffer of the access. -/
theorem namesBuffer_record {clk : VClock} {shadow i byte : ℕ} {sb : ShadowBuffer}
    (hsb : sb.backingStore = c.backingStore) :
    NamesBuffer (some (c, (sb.recordByte byte c.tid c.isWrite clk).1.elim
      (.loop shadow clk i) .filter)) := by
  intro c' st report heq hr
  obtain ⟨rfl, rfl⟩ := Prod.mk.inj (Option.some.inj heq)
  cases hres : (sb.recordByte byte c.tid c.isWrite clk).1 with
  | none =>
    rw [hres] at hr
    cases hr
  | some report' =>
    rw [hres] at hr
    obtain rfl := Option.some.inj hr
    obtain ⟨_, -, rfl⟩ := sb.exists_of_recordByte_eq_some _ _ _ _ hres
    exact hsb

/-- Every step keeps the account. -/
theorem step (h : s.Accounted) {o : ConcurrentOp ι} (hs : s.Step o s')
    (hbs : ∀ bs sb, s.detector.shadowBuffers bs = some sb → sb.backingStore = bs) :
    s'.Accounted := by
  cases hs with
  | call ho hexec =>
    obtain ⟨_, _, _, _, _, _, _, rfl⟩ := Op.exec_eq_of_not_memory hexec ho
    exact h.setDetector rfl rfl rfl
  | @removeShadow bs hfree =>
    have hd : (s.setDetector (s.detector.removeShadow bs)).Accounted := by
      unfold Detector.removeShadow
      split_ifs
      · exact h
      · exact h.setDetector rfl rfl rfl
    exact ⟨hd.sites, hd.races, hd.log, hd.first, hd.namesBuffer⟩
  | @access t c ht =>
    have hd := h.setDetector (d := { s.detector with
      accessesChecked := bump s.detector.accessesChecked }) rfl rfl rfl
    exact hd.setStage (show Early (s.stage t) from ht ▸ early_none) (early_some rfl)
      (namesBuffer_of_report_eq_none rfl)
  | lookupNone ht | loopEnd ht | repeated ht =>
    exact h.setStage (ht ▸ early_some rfl) early_none nofun
  | @lookup t c ht =>
    exact (h.setShadow _ _).setStage (show Early (s.stage t) from ht ▸ early_some rfl)
      (early_some rfl) (namesBuffer_of_report_eq_none rfl)
  | snapshot ht =>
    exact h.setStage (ht ▸ early_some rfl) (early_some rfl) (namesBuffer_of_report_eq_none rfl)
  | @record t c shadow clk i sb ht hi hsb hlen =>
    have hnames : NamesBuffer (some (c, (sb.recordByte (c.offset + i) c.tid c.isWrite clk).1.elim
        (.loop shadow clk (i + 1)) .filter)) :=
      namesBuffer_record (hbs _ sb (shadowBuffers_of_deref hsb))
    refine (h.setShadow _ _).setStage (show Early (s.stage t) from ht ▸ early_some rfl)
      (early_some ?_) hnames
    cases (sb.recordByte (c.offset + i) c.tid c.isWrite clk).1 <;> rfl
  | insert ht hmem => exact h.insert ht hmem
  | count ht => exact h.count ht
  | logged ht hlog =>
    have hlen : s.logged.length = 1 := by rw [h.log, hlog]; rfl
    have ho := h.offer ht hlen
    rw [← hlog] at ho
    exact ho
  | log ht hlog =>
    have hlen : s.logged = [] := List.eq_nil_of_length_eq_zero (by rw [h.log, hlog]; rfl)
    exact h.offer ht (by rw [hlen]; rfl)
  | notify ht => exact h.notify ht
  | clearNone => exact h
  | @clearByte bs byte _ _ sb hc hsb hlt =>
    have hd := h.setShadow bs (clearCells sb byte)
    exact ⟨hd.sites, hd.races, hd.log, hd.first, hd.namesBuffer⟩
  | clearShadow | clearSkip | clearEnter | clearLeave | clearReturn =>
    exact ⟨h.sites, h.races, h.log, h.first, h.namesBuffer⟩

end Accounted

variable [DecidableEq ι] {s s' : ConcurrentState ι} {o : ConcurrentOp ι}

/-- No site is forgotten. -/
theorem Step.sites_subset (h : s.Step o s') :
    s.detector.reportedRaceSites ⊆ s'.detector.reportedRaceSites := by
  cases h with
  | call ho hexec =>
    obtain ⟨_, _, _, _, _, _, _, rfl⟩ := Op.exec_eq_of_not_memory hexec ho
    exact Finset.Subset.refl _
  | removeShadow =>
    dsimp only [ConcurrentState.removeShadow, Detector.removeShadow]
    split_ifs <;> exact Finset.Subset.refl _
  | insert => exact Finset.subset_insert ..
  | _ => exact Finset.Subset.refl _

/-- A thread leaves the filter when the key of its race is among the reported ones. -/
theorem Step.of_stage_filter (h : s.Step o s') {t : ι} {c : AccessCall} {report : RaceReport}
    (ht : s.stage t = some (c, .filter report)) :
    s'.stage t = some (c, .filter report) ∨
      Detector.siteKey c.backingStore report.sabOffset ∈ s'.detector.reportedRaceSites := by
  by_cases hn : o = .next t
  · subst hn
    cases h with
    | repeated ht' hmem =>
      cases ht'.symm.trans ht
      exact .inr hmem
    | insert ht' hmem =>
      cases ht'.symm.trans ht
      exact .inr (Finset.mem_insert_self ..)
    | lookupNone ht' | lookup ht' | snapshot ht' | record ht' | loopEnd ht' | count ht'
    | logged ht' | log ht' | notify ht' => cases ht'.symm.trans ht
  · refine .inl ((h.stage_eq ?_ hn).trans ht)
    rintro c' rfl
    cases h with
    | access ht' => cases ht'.symm.trans ht

end ConcurrentState

namespace ConcurrentRun

variable [Fintype ι] [DecidableEq ι] (e : ConcurrentRun ι)

theorem accounted {k : ℕ} (hk : k ≤ e.ops.length) : (e.state k).Accounted := by
  induction k with
  | zero => exact e.state_zero.symm ▸ .initial
  | succ k ih =>
    have hk' := Nat.le_of_succ_le hk
    exact (ih hk').step (e.stepAt (List.getElem?_eq_getElem hk)) fun _ _ ↦ e.backingStore_eq hk'

/-- In every state, each reported site belongs to one report that has been handed to the callback,
or to one thread that is handing its race over; the counter of races lacks those that have passed
the filter and are not counted yet; there is one log line as soon as some race has been offered to
the log; and the site of every race that has been found is among the reported ones, unless its
thread is still before the filter. -/
theorem reported_once {k : ℕ} (hk : k ≤ e.ops.length) :
    (e.state k).detector.reportedRaceSites.val =
        ((e.state k).notified.map RaceReport.key : Multiset ℕ) +
          ∑ t, ConcurrentState.keysOf ((e.state k).stage t) ∧
      ((e.state k).detector.racesDetected +
          ∑ t, ConcurrentState.uncountedOf ((e.state k).stage t)) % 2 ^ 64 =
        (e.state k).detector.reportedRaceSites.card % 2 ^ 64 ∧
      ((e.state k).logged.length = if (e.state k).notified ≠ [] ∨
        ∃ t, ConcurrentState.offeredOf ((e.state k).stage t) = true then 1 else 0) ∧
      ∀ ⦃j t c report⦄, j < k → e.FindsAt j t c report →
        report.key ∈ (e.state k).detector.reportedRaceSites ∨
          (e.state k).stage t = some (c, .filter report) := by
  have hacc := e.accounted hk
  refine ⟨hacc.sites, hacc.races, ?_, fun j t c report hjk hf ↦ ?_⟩
  · rw [hacc.log]
    split_ifs with h
    · rw [hacc.first.mpr h]
      rfl
    · rw [Bool.eq_false_iff.mpr (mt hacc.first.mp h)]
      rfl
  · refine e.invariant_from (P := fun s ↦ report.key ∈ s.detector.reportedRaceSites ∨
      s.stage t = some (c, .filter report)) (j := j + 1) hjk hk (.inr hf.2) fun _ hmk ho hm ↦ ?_
    have hstep := e.stepAt ho
    rcases hm with hm | hm
    · exact .inl (hstep.sites_subset hm)
    · rcases hstep.of_stage_filter hm with hstay | hmem
      · exact .inr hstay
      · refine .inl ?_
        rwa [RaceReport.key, (e.accounted (hmk.le.trans hk)).namesBuffer t c _ report hm rfl]

/-- The race between the two writes that overlap. -/
theorem overlap_reported :
    let report : RaceReport := ⟨8, 1000, 64, 0, true, 1, 1, true, 1⟩
    report.key ∈ (overlap.state 10).detector.reportedRaceSites ∨
      (overlap.state 10).stage 1 = some (writeBy 1, .filter report) :=
  (overlap.reported_once (k := 10) (by decide)).2.2.2 (by decide) overlap_findsAt

end ConcurrentRun

end WebTSan
