import WebTSan.Detection
import WebTSan.RaceSites

/-!
# Buffers at a reused address

The detector keys three maps by host addresses: the shadows by the address of a buffer, the clocks
of atomic locations by the addresses of the locations, and the reported sites by a key that depends
on the address of the buffer. When a buffer is destroyed, `RemoveShadow` drops its shadow, and
nothing drops the other entries. A new buffer at the same address is therefore never compared with
accesses to the old one, but it inherits the clocks that were released on the old one, and the sites
that were reported for it stay reported.

## Main definitions

* `WebTSan.Run.Destroys`: the buffer at an address is destroyed.
* `WebTSan.Run.JoinsOld`: an acquire that takes over a clock released before a point.
* `WebTSan.Run.FirstRace`: the first race at a site since a point.

## Main results

* `WebTSan.Run.syncClocks_eq_none_iff`: an address has a clock exactly after a release that no mutex
  operation has erased.
* `WebTSan.Run.bufferReuse`: what a new buffer inherits.
* `WebTSan.Run.exists_inherited`: an inherited clock and a suppressed race.
-/

namespace WebTSan

namespace Run

variable {r : Run}

/-- The buffer at `p` is destroyed at position `d`. -/
def Destroys (r : Run) (d p : ℕ) : Prop := r.ops[d]? = some (.removeShadow p)

/-- The call at position `k` acquires address `a` and joins a clock that was released there before
position `d`. -/
def JoinsOld (r : Run) (d k a : ℕ) : Prop :=
  (∃ u, r.AcquiresAt k u a) ∧ ∃ i < d, ∃ t, r.ReleasesAt i t a ∧ r.KeepsSync a i k

/-- The call at position `k` finds the first race at the site since position `d`. -/
def FirstRace (r : Run) (d k : ℕ) (site : Site) : Prop :=
  d < k ∧ r.RacesAt k site ∧ ∀ ⦃j⦄, d < j → j < k → ¬r.RacesAt j site

/-- An address has no clock exactly if every release on it has been erased by a mutex operation. -/
theorem syncClocks_eq_none_iff {k : ℕ} (hk : k ≤ r.ops.length) {a : ℕ} :
    (r.state k).syncClocks a = none ↔
      ∀ i < k, ∀ t, r.ReleasesAt i t a → ¬r.KeepsSync a i k := by
  induction k with
  | zero =>
    rw [r.state_zero]
    exact ⟨fun _ i hi ↦ absurd hi (Nat.not_lt_zero i), fun _ ↦ rfl⟩
  | succ k ih =>
    have ho := List.getElem?_eq_getElem hk
    rw [Op.exec_syncClocks (r.enabled (Nat.le_of_succ_le hk)) (r.step ho)]
    generalize r.ops[k] = o at ho
    have hih := ih (Nat.le_of_succ_le hk)
    have hold (hrel : ∀ t, o.releases ≠ some (t, a)) (her : o.erases ≠ some a) :
        (r.state k).syncClocks a = none ↔
          ∀ i < k + 1, ∀ t, r.ReleasesAt i t a → ¬r.KeepsSync a i (k + 1) := by
      rw [hih]
      constructor
      · intro h i hi t hr hkeep
        rcases Nat.lt_succ_iff_lt_or_eq.mp hi with hi | rfl
        · exact h i hi t hr fun m o' hm hmk ↦ hkeep hm (Nat.lt_succ_of_lt hmk)
        · obtain ⟨o', ho', hr⟩ := hr
          obtain rfl := Option.some.inj (ho.symm.trans ho')
          exact hrel t hr
      · exact fun h i hi t hr hkeep ↦ h i (Nat.lt_succ_of_lt hi) t hr (hkeep.succ ho her)
    by_cases her : o.erases = some a
    · rw [if_pos her]
      refine ⟨fun _ i hi t hr hkeep ↦ ?_, fun _ ↦ rfl⟩
      rcases Nat.lt_succ_iff_lt_or_eq.mp hi with hi | rfl
      · exact hkeep hi (Nat.lt_succ_self k) ho her
      · obtain ⟨o', ho', hr⟩ := hr
        obtain rfl := Option.some.inj (ho.symm.trans ho')
        cases o <;> simp_all [Op.erases, Op.releases]
    · rw [if_neg her]
      cases hrel : o.releases with
      | none => exact hold (fun t h ↦ by rw [hrel] at h; cases h) her
      | some tb =>
        obtain ⟨t, b⟩ := tb
        by_cases hb : b = a
        · subst hb
          simp only [↓reduceIte, reduceCtorEq, false_iff]
          exact fun h ↦ h k (Nat.lt_succ_self k) t ⟨o, ho, hrel⟩ fun m _ hm hmk ↦ by omega
        · simp only [hb, ↓reduceIte]
          exact hold (fun u h ↦ hb (Prod.mk.inj (Option.some.inj (hrel.symm.trans h))).2) her

/-- Destroying a buffer removes all of its cells. -/
theorem Destroys.cellAt {d p : ℕ} (h : r.Destroys d p) (byte : ℕ) (c : Fin kShadowCellsPerByte) :
    (r.state (d + 1)).cellAt p byte c = {} := by
  have he := r.enabled (lt_length_of_getElem? h).le
  rw [r.state_succ h rfl]
  simp [Detector.removeShadow, he, Detector.cellAt]

/-- No access is reported against an access before the destruction. -/
theorem Destroys.recorded_lt {d p : ℕ} (h : r.Destroys d p) {i k byte : ℕ} {t : Tid} {w : Bool}
    (hk : d < k) (hrec : r.Recorded i k p byte t w) : d < i := by
  rcases lt_trichotomy i d with hi | rfl | hi
  · have hcell := hrec.inPlace (Nat.lt_succ_of_lt hi) hk
    rw [h.cellAt] at hcell
    have hv := congrArg ShadowCell.valid hcell
    cases hv
  · obtain ⟨_, _, _, ho, -⟩ := hrec.access
    cases h.symm.trans ho
  · exact hi

/-- An acquire that joins an old clock takes over what its thread knew. -/
theorem JoinsOld.clock_le {d k a : ℕ} {u : Tid} (h : r.JoinsOld d k a) (hdk : d < k)
    (ha : r.AcquiresAt k u a) : ∃ i < d, ∃ t, r.ReleasesAt i t a ∧
      (r.state i).threadClocks t ≤ (r.state (k + 1)).threadClocks u := by
  obtain ⟨-, i, hi, t, hr, hkeep⟩ := h
  have hk : k ≤ r.ops.length := by
    obtain ⟨o, ho, -⟩ := ha
    exact (lt_length_of_getElem? ho).le
  exact ⟨i, hi, t, hr, (hr.clock_le (hi.trans hdk) hk hkeep).trans ha.clock_le⟩

/-- An acquire after the destruction takes over an old clock exactly if one was left there and no
mutex operation has named the address since. -/
theorem joinsOld_iff {d p : ℕ} (h : r.Destroys d p) {k a : ℕ} {u : Tid} (hk : d < k)
    (ha : r.AcquiresAt k u a) :
    r.JoinsOld d k a ↔ (r.state d).syncClocks a ≠ none ∧ r.KeepsSync a d k := by
  have hd := (lt_length_of_getElem? h).le
  rw [ne_eq, syncClocks_eq_none_iff hd]
  push Not
  constructor
  · rintro ⟨-, i, hi, t, hr, hkeep⟩
    exact ⟨⟨i, hi, t, hr, fun m o hm hmd ↦ hkeep hm (hmd.trans hk)⟩,
      fun m o hm ↦ hkeep (hi.trans hm)⟩
  · rintro ⟨⟨i, hi, t, hr, hkeep⟩, hkeep'⟩
    refine ⟨⟨u, ha⟩, i, hi, t, hr, fun m o hm hmk ho ↦ ?_⟩
    rcases lt_trichotomy m d with hmd | rfl | hmd
    · exact hkeep hm hmd ho
    · rw [Option.some.inj (ho.symm.trans h)]
      nofun
    · exact hkeep' hmd hmk ho

/-- What a new buffer at the address of a destroyed one inherits.

Its accesses are never reported against accesses to the old buffer. An acquire on it takes over a
clock that was released on the old buffer exactly if the location had a clock when the old buffer
was destroyed, and no mutex has been created or destroyed at this address since. The first race at a
site of the new buffer is reported exactly if no race with the key of this site was ever counted. -/
theorem bufferReuse (r : Run) {d p : ℕ} (h : r.Destroys d p) :
    (∀ {k len off size : ℕ} {u : Tid} {w : Bool} {report : RaceReport}, d < k →
      r.ops[k]? = some (.memoryAccess p len off size u w) →
      Op.found (r.state k) (.memoryAccess p len off size u w) = some report →
      ∃ i, d < i ∧ r.Recorded i k p report.sabOffset report.tid1 report.isWrite1) ∧
    (∀ {k a : ℕ} {u : Tid}, d < k → r.AcquiresAt k u a →
      (¬r.JoinsOld d k a ↔ (r.state d).syncClocks a = none ∨ ¬r.KeepsSync a d k) ∧
        (r.JoinsOld d k a → ∃ i < d, ∃ t, r.ReleasesAt i t a ∧
          (r.state i).threadClocks t ≤ (r.state (k + 1)).threadClocks u)) ∧
    ∀ {k : ℕ} {site : Site}, site.backingStore = p → r.FirstRace d k site →
      (r.CountsAt k site ↔ ∀ j < k, ∀ site', r.CountsAt j site' → site'.key ≠ site.key) := by
  refine ⟨fun hk ho hf ↦ ?_, fun hk ha ↦ ?_, fun _ hf ↦ ?_⟩
  · obtain ⟨i, hrec, -⟩ := exists_recorded_of_found ho hf
    exact ⟨i, h.recorded_lt hk hrec, hrec⟩
  · refine ⟨?_, fun hj ↦ hj.clock_le hk ha⟩
    rw [joinsOld_iff h hk ha, not_and_or, not_not]
  · rw [countsAt_iff]
    exact ⟨fun hc ↦ hc.2, fun hc ↦ ⟨hf.2.1, hc⟩⟩

/-- A buffer is written by one thread and destroyed. Two threads race on the new buffer at its
address. -/
def cleanReuse : Run :=
  .ofOps [.threadCreate uint32Max, .threadCreate uint32Max, .memoryAccess 4096 64 8 1 0 true,
    .removeShadow 4096, .acquire 1 4096, .memoryAccess 4096 64 8 1 0 true,
    .memoryAccess 4096 64 8 1 1 true] (by decide)

theorem cleanReuse_firstRace : cleanReuse.FirstRace 3 6 ⟨4096, 1⟩ := by
  refine ⟨by decide, ⟨_, rfl, by decide⟩, ?_⟩
  rintro j hj hj' ⟨o, ho, hraced⟩
  interval_cases j <;> obtain rfl := Option.some.inj ho <;> revert hraced <;> decide

theorem cleanReuse_fresh : (∃ i, 3 < i ∧ cleanReuse.Recorded i 6 4096 8 0 true) ∧
    ¬cleanReuse.JoinsOld 3 4 4096 ∧ cleanReuse.CountsAt 6 ⟨4096, 1⟩ := by
  have hdestroys : cleanReuse.Destroys 3 4096 := rfl
  have hreuse := cleanReuse.bufferReuse hdestroys
  refine ⟨?_, ?_, ?_⟩
  · have hfound : Op.found (cleanReuse.state 6) (.memoryAccess 4096 64 8 1 1 true) =
        some ⟨8, 4096, 64, 0, true, 1, 1, true, 1⟩ := by decide
    exact hreuse.1 (by decide) rfl hfound
  · exact (hreuse.2.1 (by decide) ⟨_, rfl, rfl⟩).1.mpr (.inl (by decide))
  · refine (hreuse.2.2 rfl cleanReuse_firstRace).mpr ?_
    rintro j hj site' ⟨o, ho, hcounted⟩ -
    have hnone : o.counted (cleanReuse.state j) = none := by
      interval_cases j <;> obtain rfl := Option.some.inj ho <;> decide
    rw [hnone] at hcounted
    cases hcounted

/-- Two threads race on a buffer, and one of them stores to an atomic location in it. After the
buffer is destroyed, the other thread loads the location at this address in a new buffer, and the
two race on the same byte. -/
def staleReuse : Run :=
  .ofOps [.threadCreate uint32Max, .threadCreate uint32Max, .memoryAccess 4096 64 8 1 0 true,
    .memoryAccess 4096 64 8 1 1 true, .release 0 4096, .removeShadow 4096, .acquire 1 4096,
    .memoryAccess 4096 64 8 1 0 true, .memoryAccess 4096 64 8 1 1 true] (by decide)

/-- A new buffer inherits a clock that was released on the old one, and the first race at a site of
the new buffer is suppressed. -/
theorem exists_inherited : ∃ (r : Run) (d p len k a k' : ℕ) (site : Site), r.Destroys d p ∧ d < k ∧
    p ≤ a ∧ a < p + len ∧ r.JoinsOld d k a ∧ site.backingStore = p ∧ r.FirstRace d k' site ∧
      ¬r.CountsAt k' site := by
  refine ⟨staleReuse, 5, 4096, 64, 6, 4096, 8, ⟨4096, 1⟩, rfl, by decide, le_rfl, by decide,
    ⟨⟨1, _, rfl, rfl⟩, 4, by decide, 0, ⟨_, rfl, rfl⟩, ?_⟩, rfl,
    ⟨by decide, ⟨_, rfl, by decide⟩, ?_⟩, ?_⟩
  · intro m o hm hmk ho
    obtain rfl : m = 5 := by omega
    obtain rfl := Option.some.inj ho
    nofun
  · rintro j hj hj' ⟨o, ho, hraced⟩
    interval_cases j <;> obtain rfl := Option.some.inj ho <;> revert hraced <;> decide
  · rintro ⟨o, ho, hcounted⟩
    obtain rfl := Option.some.inj ho
    revert hcounted
    decide

end Run

end WebTSan
