import WebTSan.RaceSites

/-!
# Accesses to several bytes

`RecordAccess` walks over the bytes of an access and returns at the first one that races. The bytes
behind it are neither compared nor recorded. So an access to a range and the accesses to its bytes,
one after the other, leave the same shadow exactly if the bytes behind the first race hold this very
access already. The report names the first byte that races, and the filter of `MemoryAccess` sees
the site of this byte only.

## Main definitions

* `WebTSan.ShadowBuffer.recordEach`: one call of `RecordAccess` for every byte of a range.
* `WebTSan.ShadowBuffer.RacesOn`: an access races on a byte.

## Main results

* `WebTSan.ShadowBuffer.recordByte_eq_self_iff`, `WebTSan.ShadowBuffer.recordEach_eq_self_iff`.
* `WebTSan.ShadowBuffer.recordAccess_eq_recordEach`: the two agree up to the first race.
* `WebTSan.rangeAccess_iff`: when exactly an access to a range is the accesses to its bytes, and
  when exactly its races at unreported sites are reported.
-/

namespace WebTSan

namespace ShadowBuffer

/-- `RecordAccess` on every byte of a range, one call a byte. -/
def recordEach (sb : ShadowBuffer) (offset : ℕ) : (size : ℕ) → (tid : Tid) → (isWrite : Bool) →
    (clk : VClock) → ShadowBuffer
  | 0, _, _, _ => sb
  | size + 1, tid, isWrite, clk =>
    (sb.recordAccess offset 1 tid isWrite clk).2.recordEach (offset + 1) size tid isWrite clk

/-- An access races with some cell of the byte. -/
def RacesOn (sb : ShadowBuffer) (byte : ℕ) (tid : Tid) (isWrite : Bool) (clk : VClock) : Prop :=
  ∃ c, (sb.cell byte c).races tid isWrite clk = true

variable {sb : ShadowBuffer} {offset size byte : ℕ} {tid : Tid} {isWrite : Bool} {clk : VClock}

theorem recordByte_eq_none_iff_not_racesOn :
    (sb.recordByte byte tid isWrite clk).1 = none ↔ ¬sb.RacesOn byte tid isWrite clk := by
  simp [recordByte_eq_none_iff, RacesOn]

theorem recordByte_racesOn_of_lt {b : ℕ} (h : offset < b) :
    (sb.recordByte offset tid isWrite clk).2.RacesOn b tid isWrite clk ↔
      sb.RacesOn b tid isWrite clk := by
  simp only [RacesOn, recordByte_cell_of_lt h]

/-- Recording an access on a byte changes nothing exactly if the byte holds this access already. -/
theorem recordByte_eq_self_iff : (sb.recordByte byte tid isWrite clk).2 = sb ↔
    sb.cell byte (evictSlot tid) = ShadowCell.ofAccess tid isWrite clk := by
  constructor
  · intro h
    conv_lhs => rw [← h]
    rw [recordByte_cell, if_pos ⟨rfl, rfl⟩]
  · intro h
    cases hp : sb.pages (pageIndex byte) with
    | none => simp [cell, hp, ShadowCell.ofAccess] at h
    | some page =>
      simp only [cell, hp] at h
      simp only [recordByte, getOrCreatePage, hp, ← h, Function.update_eq_self]
      rw [← hp, Function.update_eq_self]

/-- A call on one byte outside of the buffer has no effect. -/
theorem recordEach_of_le (h : sb.byteLength ≤ offset) :
    sb.recordEach offset size tid isWrite clk = sb := by
  induction size generalizing offset with
  | zero => rfl
  | succ size ih => rw [recordEach, recordAccess_of_le h, ih (h.trans (Nat.le_succ _))]

theorem recordEach_succ (h : offset < sb.byteLength) :
    sb.recordEach offset (size + 1) tid isWrite clk =
      (sb.recordByte offset tid isWrite clk).2.recordEach (offset + 1) size tid isWrite clk := by
  rw [recordEach, recordAccess_one h]

/-- Every byte of the range stores the access. -/
theorem recordEach_cell {b : ℕ} (hb : offset ≤ b) (hb' : b < offset + size)
    (hlen : b < sb.byteLength) : (sb.recordEach offset size tid isWrite clk).cell b
      (evictSlot tid) = ShadowCell.ofAccess tid isWrite clk := by
  have hkeep (size : ℕ) {offset : ℕ} {sb : ShadowBuffer} (h : sb.cell b (evictSlot tid) =
      ShadowCell.ofAccess tid isWrite clk) : (sb.recordEach offset size tid isWrite clk).cell b
        (evictSlot tid) = ShadowCell.ofAccess tid isWrite clk := by
    induction size generalizing offset sb with
    | zero => exact h
    | succ size ih =>
      refine ih ?_
      rcases @recordAccess_cell sb offset 1 tid isWrite clk b (evictSlot tid) with hc | ⟨hc, -⟩
      · rw [hc, h]
      · exact hc
  induction size generalizing sb offset with
  | zero => omega
  | succ size ih =>
    rw [recordEach_succ (hb.trans_lt hlen)]
    rcases Nat.eq_or_lt_of_le hb with rfl | hlt
    · exact hkeep size (by rw [recordByte_cell, if_pos ⟨rfl, rfl⟩])
    · exact ih hlt (by omega) (by rwa [recordByte_byteLength])

/-- The calls on the bytes of a range change nothing exactly if each byte of it holds this access
already. -/
theorem recordEach_eq_self_iff : sb.recordEach offset size tid isWrite clk = sb ↔
    ∀ b, offset ≤ b → b < offset + size → b < sb.byteLength →
      sb.cell b (evictSlot tid) = ShadowCell.ofAccess tid isWrite clk := by
  constructor
  · intro h b hb hb' hlen
    rw [← recordEach_cell hb hb' hlen, h]
  · intro h
    induction size generalizing offset with
    | zero => rfl
    | succ size ih =>
      rcases Nat.lt_or_ge offset sb.byteLength with hlt | hge
      · rw [recordEach_succ hlt, recordByte_eq_self_iff.mpr (h offset le_rfl (by omega) hlt)]
        exact ih fun b hb hb' ↦ h b (by omega) (by omega)
      · exact recordEach_of_le hge

/-- An access to a range is the accesses to its bytes exactly if every byte behind one that races
holds this access already. -/
theorem recordAccess_eq_recordEach_iff : (sb.recordAccess offset size tid isWrite clk).2 =
      sb.recordEach offset size tid isWrite clk ↔
    ∀ b b', offset ≤ b → b < b' → b' < offset + size → b' < sb.byteLength →
      sb.RacesOn b tid isWrite clk →
        sb.cell b' (evictSlot tid) = ShadowCell.ofAccess tid isWrite clk := by
  induction size generalizing sb offset with
  | zero => exact iff_of_true rfl fun b b' hb hlt hb' ↦ by omega
  | succ size ih =>
    rcases Nat.lt_or_ge offset sb.byteLength with hlt | hge
    · rw [recordEach_succ hlt]
      cases hr : (sb.recordByte offset tid isWrite clk).1 with
      | some report =>
        -- the loop returns here, and the calls on the other bytes have to change nothing
        have hraces : sb.RacesOn offset tid isWrite clk := by
          by_contra h
          rw [recordByte_eq_none_iff_not_racesOn.mpr h] at hr
          cases hr
        rw [recordAccess_of_some hlt hr, eq_comm, recordEach_eq_self_iff]
        simp only [recordByte_byteLength]
        constructor
        · intro h b b' hb hbb' hb' hlen _
          rw [← recordByte_cell_of_lt (hb.trans_lt hbb'), h b' (by omega) (by omega) hlen]
        · intro h b hb hb' hlen
          rw [recordByte_cell_of_lt hb, h offset b le_rfl hb (by omega) hlen hraces]
      | none =>
        rw [recordAccess_of_none hlt hr, ih]
        simp only [recordByte_byteLength]
        constructor
        · intro h b b' hb hbb' hb' hlen hraces
          have hne : b ≠ offset := by
            rintro rfl
            exact recordByte_eq_none_iff_not_racesOn.mp hr hraces
          rw [← recordByte_cell_of_lt (hb.trans_lt hbb')]
          exact h b b' (by omega) hbb' (by omega) hlen
            ((recordByte_racesOn_of_lt (by omega)).mpr hraces)
        · intro h b b' hb hbb' hb' hlen hraces
          rw [recordByte_cell_of_lt (by omega)]
          exact h b b' (by omega) hbb' (by omega) hlen ((recordByte_racesOn_of_lt hb).mp hraces)
    · rw [recordAccess_of_le hge, recordEach_of_le hge]
      exact iff_of_true rfl fun b b' hb hlt _ hlen ↦ by omega

/-- The report names the first byte that races. -/
theorem sabOffset_of_recordAccess_eq_some {report : RaceReport}
    (h : (sb.recordAccess offset size tid isWrite clk).1 = some report) :
    offset ≤ report.sabOffset ∧ report.sabOffset < offset + size ∧
      report.sabOffset < sb.byteLength ∧ sb.RacesOn report.sabOffset tid isWrite clk ∧
      ∀ b, offset ≤ b → b < report.sabOffset → ¬sb.RacesOn b tid isWrite clk := by
  induction size generalizing sb offset with
  | zero => cases h
  | succ size ih =>
    rcases Nat.lt_or_ge offset sb.byteLength with hlt | hge
    · cases hr : (sb.recordByte offset tid isWrite clk).1 with
      | some report' =>
        rw [recordAccess_of_some hlt hr] at h
        obtain rfl : report' = report := Option.some.inj h
        obtain ⟨c, hraces, rfl⟩ := exists_of_recordByte_eq_some _ _ _ _ _ hr
        exact ⟨le_rfl, Nat.lt_add_of_pos_right (Nat.succ_pos _), hlt, ⟨c, hraces⟩,
          fun b hb hb' ↦ absurd (hb.trans_lt hb') (lt_irrefl _)⟩
      | none =>
        rw [recordAccess_of_none hlt hr] at h
        obtain ⟨hb, hb', hlen, hraces, hfirst⟩ := ih h
        rw [recordByte_byteLength] at hlen
        refine ⟨by omega, by omega, hlen, (recordByte_racesOn_of_lt hb).mp hraces, ?_⟩
        intro b hob hlt'
        rcases Nat.eq_or_lt_of_le hob with rfl | hob
        · exact recordByte_eq_none_iff_not_racesOn.mp hr
        · exact fun hb ↦ hfirst b hob hlt' ((recordByte_racesOn_of_lt hob).mpr hb)
    · rw [recordAccess_of_le hge] at h
      cases h

end ShadowBuffer

namespace Detector

variable (s : Detector) (backingStore sabByteLength offset size : ℕ) (tid : Tid) (isWrite : Bool)

/-- A call of `MemoryAccess` races on a byte of its range. -/
def RacesOn (byte : ℕ) : Prop :=
  offset ≤ byte ∧ byte < offset + size ∧
    byte < (s.shadowOf backingStore sabByteLength).byteLength ∧
    (s.shadowOf backingStore sabByteLength).RacesOn byte tid isWrite (s.threadClocks tid)

/-- The call races on the byte and on none before it. -/
def RacesFirstOn (byte : ℕ) : Prop :=
  s.RacesOn backingStore sabByteLength offset size tid isWrite byte ∧
    ∀ b < byte, ¬s.RacesOn backingStore sabByteLength offset size tid isWrite b

/-- The site of a byte has been reported. -/
def SiteReported (byte : ℕ) : Prop := siteKey backingStore byte ∈ s.reportedRaceSites

variable {s backingStore sabByteLength offset size tid isWrite}

/-- The report of a call names the first byte on which it races. -/
theorem racesFirstOn_of_found (he : s.enabled = true) {report : RaceReport}
    (h : (s.memoryAccess backingStore sabByteLength offset size tid isWrite).1.found =
      some report) :
    s.RacesFirstOn backingStore sabByteLength offset size tid isWrite report.sabOffset := by
  rw [memoryAccess_found s he] at h
  obtain ⟨hb, hb', hlen, hraces, hfirst⟩ := ShadowBuffer.sabOffset_of_recordAccess_eq_some h
  exact ⟨⟨hb, hb', hlen, hraces⟩, fun b hb hb' ↦ hfirst b hb'.1 hb hb'.2.2.2⟩

/-- A call that races reports a race exactly if the site of the first byte is unreported. -/
theorem reported_isSome_iff (he : s.enabled = true) {byte : ℕ}
    (h : s.RacesFirstOn backingStore sabByteLength offset size tid isWrite byte) :
    (s.memoryAccess backingStore sabByteLength offset size tid isWrite).1.reported.isSome = true ↔
      ¬s.SiteReported backingStore byte := by
  obtain ⟨⟨hb, hb', hlen, c, hraces⟩, hfirst⟩ := h
  have hfound : (s.memoryAccess backingStore sabByteLength offset size tid
      isWrite).1.found.isSome = true := by
    rw [memoryAccess_found s he]
    exact ShadowBuffer.recordAccess_isSome hb hb' hlen hraces
  obtain ⟨report, hreport⟩ := Option.isSome_iff_exists.mp hfound
  obtain ⟨hraces', hfirst'⟩ := racesFirstOn_of_found he hreport
  obtain rfl : report.sabOffset = byte := by
    refine le_antisymm (not_lt.mp fun hlt ↦ ?_) (not_lt.mp fun hlt ↦ hfirst _ hlt hraces')
    exact hfirst' byte hlt ⟨hb, hb', hlen, c, hraces⟩
  rw [(memoryAccess_reported he ..).1, hreport, SiteReported]
  by_cases hkey : siteKey backingStore report.sabOffset ∈ s.reportedRaceSites <;>
    simp [Option.filter, hkey]

/-- If a call races on some byte, there is a first one. -/
theorem exists_racesFirstOn {byte : ℕ}
    (h : s.RacesOn backingStore sabByteLength offset size tid isWrite byte) :
    ∃ b, s.RacesFirstOn backingStore sabByteLength offset size tid isWrite b := by
  classical
  exact ⟨Nat.find ⟨byte, h⟩, Nat.find_spec ⟨byte, h⟩, fun b hb ↦ Nat.find_min ⟨byte, h⟩ hb⟩

/-- A call that races at an unreported site reports a race exactly if the first byte lies at an
unreported site, unless all its sites are reported. -/
theorem reports_unreported_iff (he : s.enabled = true) :
    ((∃ b, s.RacesOn backingStore sabByteLength offset size tid isWrite b ∧
        ¬s.SiteReported backingStore b) →
      (s.memoryAccess backingStore sabByteLength offset size
        tid isWrite).1.reported.isSome = true) ↔
    ∀ b, s.RacesFirstOn backingStore sabByteLength offset size tid isWrite b →
      ¬s.SiteReported backingStore b ∨
        ∀ b', s.RacesOn backingStore sabByteLength offset size tid isWrite b' →
          s.SiteReported backingStore b' := by
  constructor
  · intro h b hfirst
    by_contra! hcond
    obtain ⟨hb, b', hraces, hb'⟩ := hcond
    exact (reported_isSome_iff he hfirst).mp (h ⟨b', hraces, hb'⟩) hb
  · rintro h ⟨b, hraces, hb⟩
    obtain ⟨b', hfirst⟩ := exists_racesFirstOn hraces
    exact (reported_isSome_iff he hfirst).mpr ((h b' hfirst).resolve_right fun hall ↦
      hb (hall b hraces))

end Detector

/-- When exactly an access to a range is the accesses to its bytes, and when exactly a call that
races at an unreported site reports a race. -/
theorem rangeAccess_iff (sb : ShadowBuffer) (offset size : ℕ) (tid : Tid) (isWrite : Bool)
    (clk : VClock) {s : Detector} (he : s.enabled = true) (backingStore sabByteLength : ℕ) :
    ((sb.recordAccess offset size tid isWrite clk).2 =
        sb.recordEach offset size tid isWrite clk ↔
      ∀ b b', offset ≤ b → b < b' → b' < offset + size → b' < sb.byteLength →
        sb.RacesOn b tid isWrite clk →
          sb.cell b' (ShadowBuffer.evictSlot tid) = ShadowCell.ofAccess tid isWrite clk) ∧
    (((∃ b, s.RacesOn backingStore sabByteLength offset size tid isWrite b ∧
          ¬s.SiteReported backingStore b) →
        (s.memoryAccess backingStore sabByteLength offset size tid
          isWrite).1.reported.isSome = true) ↔
      ∀ b, s.RacesFirstOn backingStore sabByteLength offset size tid isWrite b →
        ¬s.SiteReported backingStore b ∨
          ∀ b', s.RacesOn backingStore sabByteLength offset size tid isWrite b' →
            s.SiteReported backingStore b') :=
  ⟨ShadowBuffer.recordAccess_eq_recordEach_iff, Detector.reports_unreported_iff he⟩

/-- Thread 1 has written the second byte of a buffer, and then thread 0 the first one. -/
def secondByteRecorded : Detector :=
  (.ofOps [.threadCreate uint32Max, .threadCreate uint32Max, .memoryAccess 4096 16 1 1 1 true,
    .memoryAccess 4096 16 0 1 0 true] (by decide) : Run).state 4

/-- Thread 1 writes both bytes. The first byte races, at an unreported site, and the second one
holds this access already. -/
theorem secondByteRecorded_rangeAccess :
    (secondByteRecorded.shadowOf 4096 16).RacesOn 0 1 true (secondByteRecorded.threadClocks 1) ∧
      ((secondByteRecorded.shadowOf 4096 16).recordAccess 0 2 1 true
          (secondByteRecorded.threadClocks 1)).2 =
        (secondByteRecorded.shadowOf 4096 16).recordEach 0 2 1 true
          (secondByteRecorded.threadClocks 1) ∧
      (secondByteRecorded.memoryAccess 4096 16 0 2 1 true).1.reported.isSome = true := by
  obtain ⟨hrange, hsites⟩ := rangeAccess_iff (secondByteRecorded.shadowOf 4096 16) 0 2 1 true
    (secondByteRecorded.threadClocks 1) (s := secondByteRecorded) rfl 4096 16
  have hraces : (secondByteRecorded.shadowOf 4096 16).RacesOn 0 1 true
      (secondByteRecorded.threadClocks 1) := ⟨ShadowBuffer.evictSlot 0, by decide⟩
  have hnot (b : ℕ) : ¬secondByteRecorded.SiteReported 4096 b := Finset.notMem_empty _
  refine ⟨hraces, hrange.mpr ?_, hsites.mpr (fun b _ ↦ .inl (hnot b)) ?_⟩
  · intro b b' _ hlt hlt' _ _
    obtain rfl : b' = 1 := by omega
    rfl
  · exact ⟨0, ⟨le_rfl, by decide, by decide, hraces⟩, hnot 0⟩

/-- A buffer whose first two bytes thread 0 has written. -/
def twoBytesWritten : ShadowBuffer :=
  ((ShadowBuffer.new 4096 16).recordAccess 0 2 0 true (VClock.empty.increment 0)).2

/-- Thread 1 writes both bytes. Its access to the second byte is not recorded. -/
theorem twoBytesWritten_ne_recordEach :
    (twoBytesWritten.recordAccess 0 2 1 true (VClock.empty.increment 1)).2 ≠
      twoBytesWritten.recordEach 0 2 1 true (VClock.empty.increment 1) := by
  rw [Ne, ShadowBuffer.recordAccess_eq_recordEach_iff]
  intro h
  have hcell := h 0 1 le_rfl (by decide) (by decide) (by decide)
    ⟨ShadowBuffer.evictSlot 0, by decide⟩
  exact absurd hcell (by decide)

end WebTSan
