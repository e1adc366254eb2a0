import WebTSan.Access

/-!
# The per-site filter

`MemoryAccess` counts a race and passes it on only if the key of its site is new. A site is an
8-byte bucket of a buffer, and its key is the exclusive or of the address of the buffer and the
offset of the bucket. Along a run the reported keys are those of the races counted so far. A first
race is therefore counted exactly if no race at another site with the same key was counted before.
Keys coincide for disjoint buffers in general, but not if every buffer starts at a multiple of a
power of two that is at least its length.

## Main definitions

* `WebTSan.Site`, `WebTSan.Site.key`.
* `WebTSan.Op.raced`, `WebTSan.Op.counted`: the site of the race that a call finds, and counts.
* `WebTSan.Run.RacesAt`, `WebTSan.Run.CountsAt`.
* `WebTSan.Run.Layout`: the address ranges of the buffers of a run.

## Main results

* `WebTSan.Run.mem_reportedRaceSites_iff`, `WebTSan.Run.countsAt_iff`.
* `WebTSan.Run.dedup_iff`: when exactly the filter suppresses only repeats.
* `WebTSan.Run.exists_suppressed_firstRace`: a first race that is suppressed.
-/

namespace WebTSan

/-- An 8-byte bucket of a buffer. -/
structure Site where
  backingStore : ℕ
  bucket : ℕ
deriving DecidableEq

/-- The key of a site in `reported_race_sites_`. -/
def Site.key (site : Site) : ℕ := Detector.siteKey site.backingStore (site.bucket * 8)

namespace Detector

theorem siteKey_bucket (backingStore sabOffset : ℕ) :
    (Site.mk backingStore (sabOffset / 8)).key = siteKey backingStore sabOffset := by
  rw [Site.key, siteKey, siteKey, Nat.mul_div_cancel _ (by decide)]

/-- In an aligned buffer the key of a site is the address of the bucket. -/
theorem siteKey_eq_add {backingStore sabOffset e : ℕ} (hbs : 2 ^ e ∣ backingStore)
    (hoff : sabOffset < 2 ^ e) :
    siteKey backingStore sabOffset = backingStore + sabOffset / 8 * 8 := by
  have hlt : sabOffset / 8 * 8 < 2 ^ e := (Nat.div_mul_le_self _ _).trans_lt hoff
  have hdiv : siteKey backingStore sabOffset / 2 ^ e = backingStore / 2 ^ e := by
    rw [siteKey, Nat.xor_div_two_pow, Nat.div_eq_of_lt hlt, Nat.xor_zero]
  have hmod : siteKey backingStore sabOffset % 2 ^ e = sabOffset / 8 * 8 := by
    rw [siteKey, Nat.xor_mod_two_pow, Nat.mod_eq_zero_of_dvd hbs, Nat.zero_xor,
      Nat.mod_eq_of_lt hlt]
  calc siteKey backingStore sabOffset
      = 2 ^ e * (siteKey backingStore sabOffset / 2 ^ e) + siteKey backingStore sabOffset % 2 ^ e :=
        (Nat.div_add_mod _ _).symm
    _ = backingStore + sabOffset / 8 * 8 := by rw [hdiv, hmod, Nat.mul_div_cancel' hbs]

/-- What the filter does to a race: the race passes exactly if its key is new, and a race that
passes is counted. -/
theorem memoryAccess_reported {s : Detector} (he : s.enabled = true)
    (backingStore sabByteLength offset size : ℕ) (tid : Tid) (isWrite : Bool) :
    let res := s.memoryAccess backingStore sabByteLength offset size tid isWrite
    let key (report : RaceReport) := siteKey backingStore report.sabOffset
    res.1.reported = res.1.found.filter (fun report ↦ key report ∉ s.reportedRaceSites) ∧
      res.2.reportedRaceSites =
        res.1.reported.elim s.reportedRaceSites
          (fun report ↦ insert (key report) s.reportedRaceSites) ∧
      res.2.racesDetected = res.1.reported.elim s.racesDetected fun _ ↦ bump s.racesDetected := by
  dsimp only [memoryAccess]
  rw [if_neg (by simp [he])]
  split
  · exact ⟨rfl, rfl, rfl⟩
  · next shadow s' h =>
    obtain ⟨-, o, rfl⟩ := eq_of_shadowFor_eq_some _ h
    dsimp only [recordIn]
    split
    · exact ⟨rfl, rfl, rfl⟩
    · next report _ =>
      dsimp only [reportRace]
      by_cases hkey : siteKey backingStore report.sabOffset ∈ s.reportedRaceSites
      · simp [hkey, Option.filter]
      · simp [hkey, Option.filter]

end Detector

namespace Op

/-- The site of the race that a call finds. -/
def raced (s : Detector) : Op → Option Site
  | .memoryAccess backingStore sabByteLength offset size tid isWrite =>
    (s.memoryAccess backingStore sabByteLength offset size tid isWrite).1.found.map fun report ↦
      ⟨backingStore, report.sabOffset / 8⟩
  | _ => none

/-- The site of the race that a call counts in `races_detected_` and passes to the callback. -/
def counted (s : Detector) : Op → Option Site
  | .memoryAccess backingStore sabByteLength offset size tid isWrite =>
    (s.memoryAccess backingStore sabByteLength offset size tid isWrite).1.reported.map fun report ↦
      ⟨backingStore, report.sabOffset / 8⟩
  | _ => none

variable {s s' : Detector} {o : Op}

/-- A race is counted if its key is new. -/
theorem counted_eq (he : s.enabled = true) :
    o.counted s = (o.raced s).filter fun site ↦ site.key ∉ s.reportedRaceSites := by
  cases o with
  | memoryAccess bs len off size t w =>
    obtain ⟨hrep, -, -⟩ := Detector.memoryAccess_reported he bs len off size t w
    simp only [counted, raced, hrep]
    cases (s.memoryAccess bs len off size t w).1.found with
    | none => rfl
    | some report =>
      by_cases hkey : Detector.siteKey bs report.sabOffset ∈ s.reportedRaceSites <;>
        simp [Option.filter, Detector.siteKey_bucket, hkey]
  | _ => rfl

/-- Only counted races change the reported sites and the counter of races. -/
theorem exec_reportedRaceSites (he : s.enabled = true) (h : o.exec s = some s') :
    s'.reportedRaceSites =
        (o.counted s).elim s.reportedRaceSites (fun site ↦ insert site.key s.reportedRaceSites) ∧
      s'.racesDetected = (o.counted s).elim s.racesDetected fun _ ↦ bump s.racesDetected := by
  cases o with
  | removeShadow bs =>
    obtain rfl := Option.some.inj h
    simp [counted, Detector.removeShadow, he]
  | clearShadow bs off size =>
    obtain ⟨shadows, rfl⟩ := Detector.clearShadow_eq h
    exact ⟨rfl, rfl⟩
  | memoryAccess bs len off size t w =>
    obtain rfl := Option.some.inj h
    obtain ⟨-, hsites, hraces⟩ := Detector.memoryAccess_reported he bs len off size t w
    rw [hsites, hraces, counted]
    cases (s.memoryAccess bs len off size t w).1.reported with
    | none => exact ⟨rfl, rfl⟩
    | some report => exact ⟨by simp [Detector.siteKey_bucket], rfl⟩
  | _ =>
    obtain ⟨_, _, _, _, _, _, _, rfl⟩ := exec_eq_of_not_memory h rfl
    exact ⟨rfl, rfl⟩

end Op

namespace Run

variable {r : Run}

/-- The call at position `k` finds a race at the site. -/
def RacesAt (r : Run) (k : ℕ) (site : Site) : Prop :=
  ∃ o, r.ops[k]? = some o ∧ o.raced (r.state k) = some site

/-- The call at position `k` counts a race at the site. -/
def CountsAt (r : Run) (k : ℕ) (site : Site) : Prop :=
  ∃ o, r.ops[k]? = some o ∧ o.counted (r.state k) = some site

theorem CountsAt.site_eq {k : ℕ} {site site' : Site} (h : r.CountsAt k site)
    (h' : r.CountsAt k site') : site = site' := by
  obtain ⟨o, ho, hs⟩ := h
  obtain ⟨o', ho', hs'⟩ := h'
  obtain rfl := Option.some.inj (ho.symm.trans ho')
  exact Option.some.inj (hs.symm.trans hs')

/-- The reported keys are those of the races counted so far. -/
theorem mem_reportedRaceSites_iff {k : ℕ} (hk : k ≤ r.ops.length) {key : ℕ} :
    key ∈ (r.state k).reportedRaceSites ↔ ∃ j < k, ∃ site, r.CountsAt j site ∧ site.key = key := by
  induction k with
  | zero =>
    rw [r.state_zero]
    simp [Detector.initial]
  | succ k ih =>
    have ho := List.getElem?_eq_getElem hk
    have hih := ih (Nat.le_of_succ_le hk)
    rw [(Op.exec_reportedRaceSites (r.enabled (Nat.le_of_succ_le hk)) (r.step ho)).1]
    cases hc : r.ops[k].counted (r.state k) with
    | none =>
      rw [Option.elim_none, hih]
      constructor
      · rintro ⟨j, hj, site, hs, hkey⟩
        exact ⟨j, Nat.lt_succ_of_lt hj, site, hs, hkey⟩
      · rintro ⟨j, hj, site, hs, hkey⟩
        rcases Nat.lt_succ_iff_lt_or_eq.mp hj with hj | rfl
        · exact ⟨j, hj, site, hs, hkey⟩
        · obtain ⟨o, ho', hs⟩ := hs
          obtain rfl := Option.some.inj (ho.symm.trans ho')
          rw [hc] at hs
          cases hs
    | some site' =>
      have hcount : r.CountsAt k site' := ⟨_, ho, hc⟩
      rw [Option.elim_some, Finset.mem_insert, hih]
      constructor
      · rintro (rfl | ⟨j, hj, site, hs, hkey⟩)
        · exact ⟨k, Nat.lt_succ_self k, site', hcount, rfl⟩
        · exact ⟨j, Nat.lt_succ_of_lt hj, site, hs, hkey⟩
      · rintro ⟨j, hj, site, hs, rfl⟩
        rcases Nat.lt_succ_iff_lt_or_eq.mp hj with hj | rfl
        · exact .inr ⟨j, hj, site, hs, rfl⟩
        · exact .inl (by rw [hs.site_eq hcount])

/-- A race is counted exactly if no race with the same key was counted before. -/
theorem countsAt_iff {k : ℕ} {site : Site} :
    r.CountsAt k site ↔
      r.RacesAt k site ∧ ∀ j < k, ∀ site', r.CountsAt j site' → site'.key ≠ site.key := by
  have hmem {o : Op} (ho : r.ops[k]? = some o) :
      o.counted (r.state k) = some site ↔ o.raced (r.state k) = some site ∧
        ∀ j < k, ∀ site', r.CountsAt j site' → site'.key ≠ site.key := by
    have hk := (List.getElem?_eq_some_iff.mp ho).1.le
    rw [Op.counted_eq (r.enabled hk), Option.filter_eq_some_iff, decide_eq_true_iff,
      mem_reportedRaceSites_iff hk]
    simp only [not_exists, not_and]
  constructor
  · rintro ⟨o, ho, hc⟩
    obtain ⟨hraced, hnew⟩ := (hmem ho).mp hc
    exact ⟨⟨o, ho, hraced⟩, hnew⟩
  · rintro ⟨⟨o, ho, hraced⟩, hnew⟩
    exact ⟨o, ho, (hmem ho).mpr ⟨hraced, hnew⟩⟩

/-! ### Disjoint buffers -/

/-- Some call accesses the buffer. -/
def Touches (r : Run) (backingStore : ℕ) : Prop :=
  ∃ (k len off size : ℕ) (t : Tid) (w : Bool),
    r.ops[k]? = some (.memoryAccess backingStore len off size t w)

/-- The buffers that a run accesses have at most the given lengths and lie at disjoint addresses. -/
structure Layout (r : Run) (length : ℕ → ℕ) : Prop where
  length_le ⦃k backingStore len off size : ℕ⦄ ⦃t : Tid⦄ ⦃w : Bool⦄ :
    r.ops[k]? = some (.memoryAccess backingStore len off size t w) → len ≤ length backingStore
  disjoint ⦃bs bs' : ℕ⦄ : r.Touches bs → r.Touches bs' → bs ≠ bs' →
    bs + length bs ≤ bs' ∨ bs' + length bs' ≤ bs

theorem Layout.byteLength_le {length : ℕ → ℕ} (h : r.Layout length) {k : ℕ}
    (hk : k ≤ r.ops.length) {bs : ℕ} {shadow : ShadowBuffer}
    (hs : (r.state k).shadowBuffers bs = some shadow) : shadow.byteLength ≤ length bs := by
  induction k generalizing bs shadow with
  | zero =>
    rw [r.state_zero] at hs
    cases hs
  | succ k ih =>
    have ho := List.getElem?_eq_getElem hk
    have hk' := Nat.le_of_succ_le hk
    rcases Op.exec_shadowBuffers (r.enabled hk') (r.step ho) bs with hs' | hs' |
      ⟨sh, sh', _, _, hs', hc, hs''⟩ | ⟨len, off, size, t, w, hop, hs'⟩
    · exact ih hk' (hs' ▸ hs)
    · rw [hs'] at hs
      cases hs
    · rw [hs''] at hs
      obtain rfl := Option.some.inj hs
      rw [ShadowBuffer.clearRange_byteLength hc]
      exact ih hk' hs'
    · rw [hs'] at hs
      obtain rfl := Option.some.inj hs
      rw [ShadowBuffer.recordAccess_byteLength, Detector.shadowOf]
      cases hold : (r.state k).shadowBuffers bs with
      | none => exact h.length_le (hop ▸ ho)
      | some sh => exact ih hk' hold

theorem RacesAt.touches {k : ℕ} {site : Site} (h : r.RacesAt k site) :
    r.Touches site.backingStore := by
  obtain ⟨o, ho, hraced⟩ := h
  cases o with
  | memoryAccess bs len off size t w =>
    obtain ⟨report, -, rfl⟩ := Option.map_eq_some_iff.mp hraced
    exact ⟨k, len, off, size, t, w, ho⟩
  | _ => cases hraced

/-- Races are found inside of the buffers. -/
theorem RacesAt.lt_length {length : ℕ → ℕ} (hl : r.Layout length) {k : ℕ} {site : Site}
    (h : r.RacesAt k site) : site.bucket * 8 < length site.backingStore := by
  obtain ⟨o, ho, hraced⟩ := h
  have hk := (List.getElem?_eq_some_iff.mp ho).1.le
  cases o with
  | memoryAccess bs len off size t w =>
    obtain ⟨report, hf, rfl⟩ := Option.map_eq_some_iff.mp hraced
    rw [Detector.memoryAccess_found _ (r.enabled hk)] at hf
    obtain ⟨b, c, -, -, hlen, -, rfl⟩ := ShadowBuffer.exists_of_recordAccess_eq_some hf
    have hbyte : ((r.state k).shadowOf bs len).byteLength ≤ length bs := by
      rw [Detector.shadowOf]
      cases hs : (r.state k).shadowBuffers bs with
      | none => exact hl.length_le ho
      | some shadow => exact hl.byteLength_le hk hs
    exact (Nat.div_mul_le_self b 8).trans_lt (hlen.trans_le hbyte)
  | _ => cases hraced

/-- Every buffer starts at a multiple of a power of two that is at least its length. -/
def Aligned (r : Run) (length : ℕ → ℕ) : Prop :=
  ∀ ⦃bs⦄, r.Touches bs → ∃ e, length bs ≤ 2 ^ e ∧ 2 ^ e ∣ bs

/-- Aligned buffers at disjoint addresses have different keys. -/
theorem Aligned.site_eq {length : ℕ → ℕ} (ha : r.Aligned length) (hl : r.Layout length)
    {j k : ℕ} {site site' : Site} (h : r.RacesAt k site) (h' : r.RacesAt j site')
    (hkey : site'.key = site.key) : site' = site := by
  have hadd {i : ℕ} {x : Site} (hx : r.RacesAt i x) : x.key = x.backingStore + x.bucket * 8 := by
    obtain ⟨e, hlen, hdvd⟩ := ha hx.touches
    rw [Site.key, Detector.siteKey_eq_add hdvd ((hx.lt_length hl).trans_le hlen),
      Nat.mul_div_cancel _ (by decide)]
  rw [hadd h, hadd h'] at hkey
  have hlt := h.lt_length hl
  have hlt' := h'.lt_length hl
  obtain ⟨bs, b⟩ := site
  obtain ⟨bs', b'⟩ := site'
  dsimp only at hkey hlt hlt'
  by_cases hbs : bs' = bs
  · subst hbs
    obtain rfl : b' = b := by omega
    rfl
  · rcases hl.disjoint h'.touches h.touches hbs with hd | hd
    · dsimp only at hd
      omega
    · dsimp only at hd
      omega

/-- When a race that is found is counted exactly if no race at its site has been counted before:
when all races counted so far with the same key were at the same site. If every buffer starts at a
multiple of a power of two that is at least its length, this is always so. -/
theorem dedup_iff (r : Run) :
    (∀ {k : ℕ} {site : Site}, r.RacesAt k site →
      ((r.CountsAt k site ↔ ∀ j < k, ¬r.CountsAt j site) ↔
        ∀ j < k, ∀ site', r.CountsAt j site' → site'.key = site.key → site' = site)) ∧
    ∀ {length : ℕ → ℕ}, r.Layout length → r.Aligned length →
      ∀ {k : ℕ} {site : Site}, r.RacesAt k site →
        (r.CountsAt k site ↔ ∀ j < k, ¬r.CountsAt j site) := by
  have hiff {k : ℕ} {site : Site} (hk : r.RacesAt k site) :
      (r.CountsAt k site ↔ ∀ j < k, ¬r.CountsAt j site) ↔
        ∀ j < k, ∀ site', r.CountsAt j site' → site'.key = site.key → site' = site := by
    constructor
    · intro hfirst j hj site' hc hkey
      have hnot : ¬r.CountsAt k site := fun hck ↦ (countsAt_iff.mp hck).2 j hj site' hc hkey
      rw [hfirst] at hnot
      push Not at hnot
      obtain ⟨m, hm, hcm⟩ := hnot
      -- the races at `j` and `m` have one key, and both are counted
      rcases lt_trichotomy j m with hjm | rfl | hmj
      · exact absurd hkey ((countsAt_iff.mp hcm).2 j hjm site' hc)
      · exact hc.site_eq hcm
      · exact absurd hkey.symm ((countsAt_iff.mp hc).2 m hmj site hcm)
    · intro hsame
      rw [countsAt_iff]
      constructor
      · exact fun hc j hj hcj ↦ hc.2 j hj site hcj rfl
      · exact fun hc ↦ ⟨hk, fun j hj site' hcj hkey ↦ hc j hj (hsame j hj site' hcj hkey ▸ hcj)⟩
  refine ⟨hiff, fun hl ha k site hk ↦ (hiff hk).mpr fun j hj site' hc hkey ↦ ?_⟩
  exact ha.site_eq hl hk (countsAt_iff.mp hc).1 hkey

/-- Two threads write the same byte. -/
def twoWrites : Run :=
  .ofOps [.threadCreate uint32Max, .threadCreate uint32Max, .memoryAccess 4096 64 8 1 0 true,
    .memoryAccess 4096 64 8 1 1 true] (by decide)

theorem twoWrites_length_le {k bs len off size : ℕ} {t : Tid} {w : Bool}
    (ho : twoWrites.ops[k]? = some (.memoryAccess bs len off size t w)) : bs = 4096 ∧ len = 64 := by
  have hmem := List.mem_of_getElem? ho
  simp only [twoWrites, Execution.ofOps, List.mem_cons, List.not_mem_nil, reduceCtorEq,
    Op.memoryAccess.injEq, false_or, or_false] at hmem
  rcases hmem with ⟨rfl, rfl, -⟩ | ⟨rfl, rfl, -⟩ <;> exact ⟨rfl, rfl⟩

theorem twoWrites_layout : twoWrites.Layout fun _ ↦ 64 where
  length_le _ _ _ _ _ _ _ ho := (twoWrites_length_le ho).2.le
  disjoint bs bs' h h' hne := by
    obtain ⟨_, _, _, _, _, _, ho⟩ := h
    obtain ⟨_, _, _, _, _, _, ho'⟩ := h'
    exact absurd ((twoWrites_length_le ho).1.trans (twoWrites_length_le ho').1.symm) hne

theorem twoWrites_aligned : twoWrites.Aligned fun _ ↦ 64 := by
  rintro bs ⟨_, _, _, _, _, _, ho⟩
  rw [(twoWrites_length_le ho).1]
  exact ⟨6, by decide, by decide⟩

theorem twoWrites_counts :
    (twoWrites.CountsAt 3 ⟨4096, 1⟩ ↔ ∀ j < 3, ¬twoWrites.CountsAt j ⟨4096, 1⟩) ∧
      ∀ j < 3, ∀ site', twoWrites.CountsAt j site' → site'.key = (Site.mk 4096 1).key →
        site' = ⟨4096, 1⟩ := by
  have hraces : twoWrites.RacesAt 3 ⟨4096, 1⟩ := ⟨_, rfl, by decide⟩
  have hcount := twoWrites.dedup_iff.2 twoWrites_layout twoWrites_aligned hraces
  exact ⟨hcount, (twoWrites.dedup_iff.1 hraces).mp hcount⟩

/-- Two threads race on the first byte of a buffer of 4096 bytes, and on a byte of a buffer of 8192
bytes that starts right after it. -/
def adjacentBuffers : Run :=
  .ofOps [.threadCreate uint32Max, .threadCreate uint32Max,
    .memoryAccess 0x7f0000002000 0x1000 0 1 0 true, .memoryAccess 0x7f0000002000 0x1000 0 1 1 true,
    .memoryAccess 0x7f0000003000 0x2000 0x1000 1 0 true,
    .memoryAccess 0x7f0000003000 0x2000 0x1000 1 1 true] (by decide)

/-- The lengths of the two buffers. -/
def adjacentLength (bs : ℕ) : ℕ := if bs = 0x7f0000002000 then 0x1000 else 0x2000

theorem adjacentBuffers_touches {bs : ℕ} (h : adjacentBuffers.Touches bs) :
    bs = 0x7f0000002000 ∨ bs = 0x7f0000003000 := by
  obtain ⟨k, len, off, size, t, w, ho⟩ := h
  have hmem := List.mem_of_getElem? ho
  simp only [adjacentBuffers, Execution.ofOps, List.mem_cons, List.not_mem_nil,
    reduceCtorEq, Op.memoryAccess.injEq, false_or, or_false] at hmem
  omega

theorem adjacentBuffers_layout : adjacentBuffers.Layout adjacentLength where
  length_le k bs len off size t w ho := by
    have hmem := List.mem_of_getElem? ho
    simp only [adjacentBuffers, Execution.ofOps, List.mem_cons, List.not_mem_nil, reduceCtorEq,
      Op.memoryAccess.injEq, false_or, or_false] at hmem
    rcases hmem with ⟨rfl, rfl, -⟩ | ⟨rfl, rfl, -⟩ | ⟨rfl, rfl, -⟩ | ⟨rfl, rfl, -⟩ <;> decide
  disjoint bs bs' h h' hne := by
    rcases adjacentBuffers_touches h with rfl | rfl <;>
      rcases adjacentBuffers_touches h' with rfl | rfl
    · exact absurd rfl hne
    · decide
    · decide
    · exact absurd rfl hne

/-- In buffers at disjoint addresses, a race at a site where none has been counted before is
suppressed. -/
theorem exists_suppressed_firstRace : ∃ (r : Run) (length : ℕ → ℕ) (k : ℕ) (site : Site),
    r.Layout length ∧ r.RacesAt k site ∧ (∀ j < k, ¬r.RacesAt j site) ∧ ¬r.CountsAt k site := by
  refine ⟨adjacentBuffers, adjacentLength, 5, ⟨0x7f0000003000, 0x200⟩, adjacentBuffers_layout,
    ⟨_, rfl, by decide⟩, ?_, ?_⟩
  · rintro j hj ⟨o, ho, hraced⟩
    interval_cases j <;> obtain rfl := Option.some.inj ho <;> revert hraced <;> decide
  · rintro ⟨o, ho, hcounted⟩
    obtain rfl := Option.some.inj ho
    revert hcounted
    decide

end Run

end WebTSan
