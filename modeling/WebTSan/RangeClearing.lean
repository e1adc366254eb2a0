import WebTSan.Growth
import WebTSan.Interleavings

/-!
# What `ClearRange` clears

`ClearRange` invalidates the cells of the bytes from `offset` to `clearEnd`. Its cursor walks over
the bytes of allocated pages and jumps over the other pages. Page boundaries are computed modulo
`2 ^ 64`, so the loop does not end if it reaches the last page of the address space; every other
range is cleared, and nothing else is touched.

After `ClearShadow`, a report on a byte of the range names an access that was made afterwards. On
the other bytes, the state with the cleared cells and the state without clearing find the same
races, however the page goes on.

## Main definitions

* `WebTSan.ShadowBuffer.clearEnd`, `WebTSan.ShadowBuffer.lastPage`.
* `WebTSan.ShadowBuffer.ClearRangeEnds`, `WebTSan.ShadowBuffer.Cleared`.
* `WebTSan.Detector.EqOutside`: two states with the same cells outside of a range.
* `WebTSan.Op.Apart`: an access to bytes outside of a range.

## Main results

* `WebTSan.ShadowBuffer.clearRangeEnds_iff`, `WebTSan.ShadowBuffer.cleared_of_clearRange`.
* `WebTSan.Run.lt_of_recorded_of_clearShadow`, `WebTSan.Op.exec_eqOutside`.
* `WebTSan.clearShadow_exact`.
-/

namespace WebTSan

namespace ShadowBuffer

variable {sb sb' : ShadowBuffer} {endByte byte fuel : ℕ}

/-- The first byte of the last page of the address space. -/
def lastPage : ℕ := 2 ^ 64 - kPageBytes

/-- The end of the bytes that `ClearRange` walks over. -/
def clearEnd (sb : ShadowBuffer) (offset size : ℕ) : ℕ :=
  if (offset + size) % 2 ^ 64 > sb.byteLength then sb.byteLength else (offset + size) % 2 ^ 64

theorem clearEnd_eq {offset size : ℕ} (h : offset + size < 2 ^ 64) :
    sb.clearEnd offset size = min (offset + size) sb.byteLength := by
  rw [clearEnd, Nat.mod_eq_of_lt h]
  split_ifs <;> omega

/-- Nothing behind the end of the buffer is cleared. -/
theorem clearEnd_le (sb : ShadowBuffer) (offset size : ℕ) :
    sb.clearEnd offset size ≤ sb.byteLength := by
  unfold clearEnd
  split_ifs <;> omega

theorem clearEnd_congr (h : sb.byteLength = sb'.byteLength) (offset size : ℕ) :
    sb.clearEnd offset size = sb'.clearEnd offset size := by
  rw [clearEnd, clearEnd, h]

theorem clearRange_eq_clearLoop (sb : ShadowBuffer) (offset size : ℕ) :
    sb.clearRange offset size =
      clearLoop (sb.clearEnd offset size) (sb.clearEnd offset size + 1) offset sb := rfl

/-- The loop of `ClearRange` ends after some number of rounds. -/
def ClearRangeEnds (sb : ShadowBuffer) (offset size : ℕ) : Prop :=
  ∃ fuel, (clearLoop (sb.clearEnd offset size) fuel offset sb).isSome = true

/-- The cells of a range have been cleared, and nothing else has changed. -/
structure Cleared (sb sb' : ShadowBuffer) (lo hi : ℕ) : Prop where
  valid {byte : ℕ} (hlo : lo ≤ byte) (hhi : byte < hi) (c : Fin kShadowCellsPerByte) :
    (sb'.cell byte c).valid = false
  cell_eq {byte : ℕ} (h : ¬(lo ≤ byte ∧ byte < hi)) (c : Fin kShadowCellsPerByte) :
    sb'.cell byte c = sb.cell byte c
  /-- No page has been created. -/
  pages (pageIdx : ℕ) : (sb'.pages pageIdx).isSome = (sb.pages pageIdx).isSome

/-! ### The loop over the pages -/

/-- Before the last page, the next page boundary is ahead. -/
theorem lt_nextPage (h : byte < lastPage) :
    byte < (pageIndex byte + 1) * kPageBytes % 2 ^ 64 := by
  simp only [lastPage, pageIndex, kPageBytes] at *
  omega

/-- No page boundary is behind the first byte of the last page. -/
theorem nextPage_le (byte : ℕ) : (pageIndex byte + 1) * kPageBytes % 2 ^ 64 ≤ lastPage := by
  simp only [lastPage, pageIndex, kPageBytes]
  omega

/-- A loop that stays in front of the last page moves on in every round. -/
theorem clearLoop_isSome (hend : endByte ≤ lastPage) (hfuel : endByte ≤ byte + fuel) :
    (clearLoop endByte fuel byte sb).isSome = true := by
  induction fuel generalizing byte sb with
  | zero => simpa [clearLoop] using hfuel
  | succ fuel ih =>
    simp only [clearLoop]
    split_ifs with hb
    · have hnext := lt_nextPage (hb.trans_le hend)
      cases sb.pages (pageIndex byte) with
      | none => exact ih (by omega)
      | some page => exact ih (by omega)
    · rfl

/-- A loop that reaches the last page never ends: on an allocated page it stays where it is, and
otherwise it starts again with the first byte. -/
theorem clearLoop_eq_none (hend : lastPage < endByte) (hb : byte < endByte) :
    clearLoop endByte fuel byte sb = none := by
  induction fuel generalizing byte sb with
  | zero => simp [clearLoop, hb]
  | succ fuel ih =>
    simp only [clearLoop, if_pos hb]
    have hnext := nextPage_le byte
    cases sb.pages (pageIndex byte) with
    | none => exact ih (by omega)
    | some page => exact ih (by omega)

/-- Clearing one byte of a page leaves the others alone. -/
theorem clearByte_of_ne {page : ShadowPage} {inPage i : Fin kPageBytes} (h : inPage ≠ i)
    (c : Fin kShadowCellsPerByte) :
    clearByte page inPage (inPageShadowIndex i c) = page (inPageShadowIndex i c) := by
  have hfold (cs : List (Fin kShadowCellsPerByte)) (page : ShadowPage) :
      cs.foldl (fun page c ↦ Function.update page (inPageShadowIndex inPage c)
        { page (inPageShadowIndex inPage c) with valid := false }) page (inPageShadowIndex i c) =
        page (inPageShadowIndex i c) := by
    induction cs generalizing page with
    | nil => rfl
    | cons d cs ih =>
      have hne : inPageShadowIndex i c ≠ inPageShadowIndex inPage d :=
        fun he ↦ h (inPageShadowIndex_inj.mp he).1.symm
      rw [List.foldl_cons, ih, Function.update_of_ne hne]
  exact hfold _ page

theorem clearBytes_of_ne {page : ShadowPage} {byte count : ℕ} {i : Fin kPageBytes}
    (h : ∀ d, byte ≤ d → d < byte + count → inPageOffset d ≠ i) (c : Fin kShadowCellsPerByte) :
    clearBytes page byte count (inPageShadowIndex i c) = page (inPageShadowIndex i c) := by
  induction count generalizing page byte with
  | zero => rfl
  | succ count ih =>
    rw [clearBytes, ih fun d hd hd' ↦ h d (by omega) (by omega),
      clearByte_of_ne (h byte le_rfl (by omega))]

/-- The bytes outside of the range keep their cells. -/
theorem clearLoop_cell_of_not_mem (hend : endByte ≤ lastPage)
    (h : clearLoop endByte fuel byte sb = some sb') {b : ℕ} (hb : ¬(byte ≤ b ∧ b < endByte))
    (c : Fin kShadowCellsPerByte) : sb'.cell b c = sb.cell b c := by
  induction fuel generalizing byte sb with
  | zero =>
    simp only [clearLoop] at h
    split_ifs at h
    rw [Option.some.inj h]
  | succ fuel ih =>
    simp only [clearLoop] at h
    split_ifs at h with hlt
    · have hnext := lt_nextPage (hlt.trans_le hend)
      cases hp : sb.pages (pageIndex byte) with
      | none =>
        rw [hp] at h
        exact ih h (by omega)
      | some page =>
        rw [hp] at h
        rw [ih h (by omega), cell_update_pages]
        split_ifs with hpage
        · have hcell : sb.cell b c = page (inPageShadowIndex (inPageOffset b) c) := by
            simp only [cell, hpage, hp]
          rw [hcell]
          refine clearBytes_of_ne (fun d hd hd' hoff ↦ hb ?_) c
          -- a byte that is cleared in this round lies on the same page
          have hd : pageIndex d = pageIndex byte := by
            simp only [pageIndex, kPageBytes] at *
            omega
          have hdb : d = b := eq_of_pageIndex_of_inPageOffset (hd.trans hpage.symm) hoff
          omega
        · rfl
    · rw [Option.some.inj h]

/-- No page is created or removed. -/
theorem clearLoop_pages (h : clearLoop endByte fuel byte sb = some sb') (pageIdx : ℕ) :
    (sb'.pages pageIdx).isSome = (sb.pages pageIdx).isSome := by
  refine clearLoop_invariant (P := fun sb' ↦ (sb'.pages pageIdx).isSome =
    (sb.pages pageIdx).isSome) h (fun sb₁ byte count page hp h₁ ↦ ?_) rfl
  by_cases hidx : pageIdx = pageIndex byte
  · subst hidx
    simpa [hp] using h₁
  · simpa [hidx] using h₁

/-! ### The whole call -/

section ClearRange

variable {offset size : ℕ}

/-- `ClearRange` ends exactly if it has nothing to clear, or does not reach the last page. -/
theorem clearRangeEnds_iff :
    sb.ClearRangeEnds offset size ↔
      sb.clearEnd offset size ≤ offset ∨ sb.clearEnd offset size ≤ lastPage := by
  constructor
  · rintro ⟨fuel, hfuel⟩
    by_contra! hcond
    rw [clearLoop_eq_none hcond.2 hcond.1] at hfuel
    cases hfuel
  · rintro (hempty | hend)
    · exact ⟨0, by simp [clearLoop, hempty]⟩
    · exact ⟨sb.clearEnd offset size, clearLoop_isSome hend (Nat.le_add_left ..)⟩

/-- The number of rounds of `clearRange` is enough. -/
theorem clearRange_isSome_iff :
    (sb.clearRange offset size).isSome = true ↔ sb.ClearRangeEnds offset size := by
  refine ⟨fun h ↦ ⟨_, h⟩, fun h ↦ ?_⟩
  rw [clearRange_eq_clearLoop]
  rcases clearRangeEnds_iff.mp h with hempty | hend
  · simp [clearLoop, not_lt.mpr hempty]
  · exact clearLoop_isSome hend (by omega)

/-- What `ClearRange` leaves when it returns. -/
theorem cleared_of_clearRange (h : sb.clearRange offset size = some sb') :
    sb.Cleared sb' offset (sb.clearEnd offset size) := by
  rw [clearRange_eq_clearLoop] at h
  refine ⟨fun hlo hhi c ↦ clearLoop_valid h hlo hhi c, fun {b} hb c ↦ ?_, clearLoop_pages h⟩
  have hends : sb.ClearRangeEnds offset size := ⟨_, Option.isSome_of_eq_some h⟩
  rcases clearRangeEnds_iff.mp hends with hempty | hend
  · simp only [clearLoop, if_neg (not_lt.mpr hempty)] at h
    rw [Option.some.inj h]
  · exact clearLoop_cell_of_not_mem hend h hb c

/-- The cells after `ClearRange`. -/
theorem clearRange_cell_eq (h : sb.clearRange offset size = some sb') (b : ℕ)
    (c : Fin kShadowCellsPerByte) :
    sb'.cell b c = if offset ≤ b ∧ b < sb.clearEnd offset size then
      { sb.cell b c with valid := false } else sb.cell b c := by
  have hcleared := cleared_of_clearRange h
  split_ifs with hb
  · have hvalid := hcleared.valid hb.1 hb.2 c
    rcases clearRange_cell h b c with hcell | hcell
    · rw [hcell] at hvalid ⊢
      rw [← hvalid]
    · exact hcell
  · exact hcleared.cell_eq hb c

end ClearRange

/-! ### Reports -/

/-- The report on a byte is about the first of its cells that races. -/
theorem recordByte_fst (sb : ShadowBuffer) (byte : ℕ) (tid : Tid) (isWrite : Bool) (clk : VClock) :
    (sb.recordByte byte tid isWrite clk).1 =
      ((List.finRange kShadowCellsPerByte).find? fun c ↦
        (sb.cell byte c).races tid isWrite clk).map fun c ↦
          sb.raceReport byte (sb.cell byte c) tid isWrite clk := by
  simp only [recordByte, getOrCreatePage_page]

/-- What an access reports depends on the cells of its bytes only. -/
theorem recordAccess_fst_congr {offset size : ℕ} {tid : Tid} {isWrite : Bool} {clk : VClock}
    (hstore : sb.backingStore = sb'.backingStore) (hlen : sb.byteLength = sb'.byteLength)
    (h : ∀ b c, offset ≤ b → b < offset + size → sb.cell b c = sb'.cell b c) :
    (sb.recordAccess offset size tid isWrite clk).1 =
      (sb'.recordAccess offset size tid isWrite clk).1 := by
  induction size generalizing sb sb' offset with
  | zero => rfl
  | succ size ih =>
    by_cases ho : offset < sb.byteLength
    · have ho' : offset < sb'.byteLength := hlen ▸ ho
      have hbyte : (sb.recordByte offset tid isWrite clk).1 =
          (sb'.recordByte offset tid isWrite clk).1 := by
        simp only [recordByte_fst, raceReport, hstore, hlen, h offset _ le_rfl (by omega)]
      cases hr : (sb.recordByte offset tid isWrite clk).1 with
      | some report =>
        rw [recordAccess_of_some ho hr, recordAccess_of_some ho' (hbyte ▸ hr)]
      | none =>
        rw [recordAccess_of_none ho hr, recordAccess_of_none ho' (hbyte ▸ hr)]
        refine ih (by simpa using hstore) (by simpa using hlen) fun b c hb hb' ↦ ?_
        rw [recordByte_cell, recordByte_cell, h b c (by omega) (by omega)]
    · rw [recordAccess_of_le (not_lt.mp ho), recordAccess_of_le (not_lt.mp (hlen ▸ ho))]

end ShadowBuffer

namespace Detector

variable {s s' m : Detector} {bs lo hi : ℕ}

/-- The state with the memory of another one. -/
def withMemory (s m : Detector) : Detector :=
  { s with
    shadowBuffers := m.shadowBuffers
    firstRaceLogged := m.firstRaceLogged
    racesDetected := m.racesDetected
    accessesChecked := m.accessesChecked
    accessesSuppressed := m.accessesSuppressed
    reportedRaceSites := m.reportedRaceSites }

/-- Two states with the same threads, clocks and edges, and with the same cells outside of a range
of bytes of a buffer. -/
structure EqOutside (bs lo hi : ℕ) (s s' : Detector) : Prop where
  enabled : s.enabled = true
  eq_withMemory : s' = s.withMemory s'
  attached : s.Attached
  attached' : s'.Attached
  byteLength_eq (bs' : ℕ) : (s'.shadowBuffers bs').map ShadowBuffer.byteLength =
    (s.shadowBuffers bs').map ShadowBuffer.byteLength
  cellAt_eq {bs' byte : ℕ} (h : ¬(bs' = bs ∧ lo ≤ byte ∧ byte < hi))
    (c : Fin kShadowCellsPerByte) : s'.cellAt bs' byte c = s.cellAt bs' byte c

end Detector

namespace Op

variable {s s₁ : Detector} {o : Op}

/-- A call that does not concern the memory does not read it either. -/
theorem exec_withMemory (s m : Detector) (ho : o.concernsMemory = false) :
    o.exec (s.withMemory m) = (o.exec s).map fun s₁ ↦ s₁.withMemory m := by
  have henabled : (s.withMemory m).enabled = s.enabled := rfl
  cases o with
  | removeShadow | clearShadow | memoryAccess => cases ho
  | threadDetach | mutexPreLock | mutexReadUnlock => rfl
  | threadCreate p =>
    have hslot : (s.withMemory m).findSlot = s.findSlot := rfl
    by_cases h : s.findSlot < kMaxThreads
    · simp only [exec, Detector.threadCreate, dif_pos h, hslot]
      rfl
    · simp only [exec, Detector.threadCreate, dif_neg h, hslot]
      rfl
  | happensAfter u id =>
    have hedges : (s.withMemory m).hbEdges id = s.hbEdges id := rfl
    simp only [exec, Detector.happensAfter, henabled, hedges]
    split_ifs
    · rfl
    · cases s.hbEdges id <;> rfl
  | acquire t a | mutexPostLock t a | mutexReadLock t a =>
    have hsync : (s.withMemory m).syncClocks a = s.syncClocks a := rfl
    simp only [exec, Detector.acquire, Detector.mutexPostLock, Detector.mutexReadLock,
      Detector.joinSync, henabled, hsync]
    split_ifs
    · rfl
    · cases s.syncClocks a <;> rfl
  | threadDestroy t =>
    simp only [exec, Detector.threadDestroy, henabled]
    by_cases he : s.enabled = true
    · simp only [if_pos he]
      rfl
    · simp only [if_neg he]
      rfl
  | _ =>
    simp only [exec, Detector.threadFinish, Detector.threadJoin, Detector.threadAbsorb,
      Detector.release, Detector.mutexCreate, Detector.mutexDestroy, Detector.mutexUnlock,
      Detector.happensBefore, henabled]
    split_ifs <;> rfl

/-- A call that concerns the memory changes nothing else. -/
theorem eq_withMemory_of_exec (he : s.enabled = true) (ho : o.concernsMemory = true)
    (h : o.exec s = some s₁) : s₁ = s.withMemory s₁ := by
  cases o with
  | removeShadow bs =>
    obtain rfl := Option.some.inj h
    simp [Detector.removeShadow, he, Detector.withMemory]
  | clearShadow bs off size =>
    obtain ⟨shadows, rfl⟩ := Detector.clearShadow_eq h
    rfl
  | memoryAccess bs len off size t w =>
    obtain rfl := Option.some.inj h
    obtain ⟨_, _, _, _, _, hs, -⟩ := s.memoryAccess_eq he bs len off size t w
    rw [hs]
    rfl
  | _ => cases ho

/-- The accesses that do not touch a range of bytes of a buffer; all other calls. -/
def Apart (bs lo hi : ℕ) : Op → Prop
  | .memoryAccess bs' _ off size _ _ => bs' ≠ bs ∨ off + size ≤ lo ∨ hi ≤ off
  | _ => True

/-- The accesses inside of a range of bytes of a buffer. -/
def Within (bs lo hi : ℕ) : Op → Prop
  | .memoryAccess bs' _ off size _ _ => bs' = bs ∧ lo ≤ off ∧ off + size ≤ hi
  | _ => False

end Op

namespace Detector

variable {s s' s₁ : Detector} {bs lo hi : ℕ}

theorem byteLength_shadowOf_of_eq_none (h : s.shadowBuffers bs = none) (len : ℕ) :
    (s.shadowOf bs len).byteLength = len := by
  rw [shadowOf, h]
  rfl

/-- The cells after `ClearShadow`. -/
theorem cellAt_clearShadow (he : s.enabled = true) {off size : ℕ}
    (h : s.clearShadow bs off size = some s₁) (bs' byte : ℕ) (c : Fin kShadowCellsPerByte) :
    s₁.cellAt bs' byte c =
      if bs' = bs ∧ off ≤ byte ∧ byte < (s.shadowOf bs 0).clearEnd off size then
        { s.cellAt bs' byte c with valid := false }
      else s.cellAt bs' byte c := by
  rw [clearShadow, if_neg (by simp [he])] at h
  cases hs : s.shadowBuffers bs with
  | none =>
    rw [hs] at h
    obtain rfl := Option.some.inj h
    rw [if_neg fun hc ↦ ?_]
    have hend := ShadowBuffer.clearEnd_le (s.shadowOf bs 0) off size
    rw [byteLength_shadowOf_of_eq_none hs] at hend
    omega
  | some shadow =>
    rw [hs] at h
    obtain ⟨shadow', hclear, rfl⟩ := Option.map_eq_some_iff.mp h
    by_cases hbs : bs' = bs
    · subst hbs
      simp [cellAt, shadowOf, hs, ShadowBuffer.clearRange_cell_eq hclear]
    · rw [if_neg fun hc ↦ hbs hc.1]
      exact cellAt_of_eq (Function.update_of_ne hbs ..) byte c

/-- `ClearShadow` returns exactly if `ClearRange` ends. -/
theorem clearShadow_isSome_iff (he : s.enabled = true) {off size : ℕ} :
    (s.clearShadow bs off size).isSome = true ↔ (s.shadowOf bs 0).ClearRangeEnds off size := by
  rw [clearShadow, if_neg (by simp [he])]
  cases hs : s.shadowBuffers bs with
  | none =>
    have hend := ShadowBuffer.clearEnd_le (s.shadowOf bs 0) off size
    rw [byteLength_shadowOf_of_eq_none hs] at hend
    simp only [ShadowBuffer.clearRangeEnds_iff, Option.isSome_some, true_iff]
    exact .inl (hend.trans (Nat.zero_le off))
  | some shadow =>
    simpa [shadowOf, hs] using ShadowBuffer.clearRange_isSome_iff

/-- The cells after `RemoveShadow`. -/
theorem cellAt_removeShadow (he : s.enabled = true) (bs' byte : ℕ) (c : Fin kShadowCellsPerByte) :
    (s.removeShadow bs).cellAt bs' byte c = if bs' = bs then {} else s.cellAt bs' byte c := by
  rw [removeShadow, if_neg (by simp [he])]
  split_ifs with hbs
  · simp [cellAt, hbs]
  · exact cellAt_of_eq (Function.update_of_ne hbs ..) byte c

namespace EqOutside

variable (h : s.EqOutside bs lo hi s')
include h

theorem enabled' : s'.enabled = true := by
  rw [h.eq_withMemory]
  exact h.enabled

theorem threadClocks_eq : s'.threadClocks = s.threadClocks := by
  rw [h.eq_withMemory]
  rfl

/-- The shadows that an access uses in the two states have the same length. -/
theorem byteLength_shadowOf (bs' len : ℕ) :
    (s'.shadowOf bs' len).byteLength = (s.shadowOf bs' len).byteLength := by
  have hlen := h.byteLength_eq bs'
  unfold shadowOf
  cases hs : s.shadowBuffers bs' <;> cases hs' : s'.shadowBuffers bs' <;>
    simp_all [ShadowBuffer.new]

/-- A call that returns from one of the states returns from the other. -/
theorem exists_exec {o : Op} (hexec : o.exec s = some s₁) : ∃ s₁', o.exec s' = some s₁' := by
  cases o with
  | clearShadow bs' off size =>
    refine Option.isSome_iff_exists.mp ((clearShadow_isSome_iff h.enabled').mpr ?_)
    have hends := (clearShadow_isSome_iff h.enabled).mp (Option.isSome_of_eq_some hexec)
    rw [ShadowBuffer.clearRangeEnds_iff] at hends ⊢
    rwa [ShadowBuffer.clearEnd_congr (h.byteLength_shadowOf bs' 0)]
  | threadCreate p =>
    rw [h.eq_withMemory, Op.exec_withMemory _ _ rfl, hexec]
    exact ⟨_, rfl⟩
  | _ => exact ⟨_, rfl⟩

theorem eq_withMemory_of_exec {o : Op} {s₁' : Detector} (hexec : o.exec s = some s₁)
    (hexec' : o.exec s' = some s₁') : s₁' = s₁.withMemory s₁' := by
  cases hmem : o.concernsMemory with
  | true =>
    have hs₁ := Op.eq_withMemory_of_exec h.enabled hmem hexec
    calc s₁' = s'.withMemory s₁' := Op.eq_withMemory_of_exec h.enabled' hmem hexec'
      _ = (s.withMemory s').withMemory s₁' := congrArg (withMemory · s₁') h.eq_withMemory
      _ = (s.withMemory s₁).withMemory s₁' := rfl
      _ = s₁.withMemory s₁' := congrArg (withMemory · s₁') hs₁.symm
  | false =>
    rw [h.eq_withMemory, Op.exec_withMemory _ _ hmem, hexec] at hexec'
    obtain rfl := Option.some.inj hexec'
    rfl

/-- The cells outside of the range stay the same. -/
theorem cellAt_of_exec {o : Op} {s₁' : Detector} (ho : o.Apart bs lo hi ∨ o.Within bs lo hi)
    (hexec : o.exec s = some s₁) (hexec' : o.exec s' = some s₁') {bs' byte : ℕ}
    (hb : ¬(bs' = bs ∧ lo ≤ byte ∧ byte < hi)) (c : Fin kShadowCellsPerByte) :
    s₁'.cellAt bs' byte c = s₁.cellAt bs' byte c := by
  have hcell := h.cellAt_eq hb c
  cases o with
  | removeShadow bs'' =>
    obtain rfl := Option.some.inj hexec
    obtain rfl := Option.some.inj hexec'
    rw [cellAt_removeShadow h.enabled, cellAt_removeShadow h.enabled', hcell]
  | clearShadow bs'' off size =>
    rw [cellAt_clearShadow h.enabled hexec, cellAt_clearShadow h.enabled' hexec', hcell,
      ShadowBuffer.clearEnd_congr (h.byteLength_shadowOf bs'' 0)]
  | memoryAccess bs'' len off size t w =>
    obtain rfl := Option.some.inj hexec
    obtain rfl := Option.some.inj hexec'
    rw [cellAt_memoryAccess h.enabled, cellAt_memoryAccess h.enabled', h.threadClocks_eq]
    split_ifs with hbs
    · subst hbs
      by_cases hin : off ≤ byte ∧ byte < off + size
      · -- an access to the byte does not touch the range
        have hapart : bs' ≠ bs ∨ off + size ≤ lo ∨ hi ≤ off := by
          rcases ho with ho | ⟨hbs, hlo, hhi⟩
          · exact ho
          · exact absurd ⟨hbs, by omega, by omega⟩ hb
        refine (ShadowBuffer.recordAccess_congr (h.byteLength_shadowOf bs' len)
          fun b c hlo hhi ↦ ?_).2 byte c hin.1 hin.2
        rw [shadowOf_cell, shadowOf_cell]
        exact h.cellAt_eq (by omega) c
      · rw [ShadowBuffer.recordAccess_cell_of_not_mem hin,
          ShadowBuffer.recordAccess_cell_of_not_mem hin, shadowOf_cell, shadowOf_cell, hcell]
    · exact hcell
  | _ =>
    have hs := congrFun (Op.exec_shadowBuffers_of_not_memory hexec rfl) bs'
    have hs' := congrFun (Op.exec_shadowBuffers_of_not_memory hexec' rfl) bs'
    rw [cellAt_of_eq hs, cellAt_of_eq hs', hcell]

/-- A call whose access lies inside or outside of the range keeps the states equal outside. -/
theorem exec {o : Op} (ho : o.Apart bs lo hi ∨ o.Within bs lo hi) (hexec : o.exec s = some s₁) :
    ∃ s₁', o.exec s' = some s₁' ∧ s₁.EqOutside bs lo hi s₁' := by
  obtain ⟨s₁', hexec'⟩ := h.exists_exec hexec
  exact ⟨s₁', hexec',
    { enabled := (Op.exec_enabled hexec).trans h.enabled
      eq_withMemory := h.eq_withMemory_of_exec hexec hexec'
      attached := Op.exec_attached h.enabled h.attached hexec
      attached' := Op.exec_attached h.enabled' h.attached' hexec'
      byteLength_eq := fun bs' ↦ by
        rw [Op.exec_byteLength h.enabled hexec, Op.exec_byteLength h.enabled' hexec',
          h.byteLength_eq]
      cellAt_eq := h.cellAt_of_exec ho hexec hexec' }⟩

/-- An access that does not touch the range finds the same in both states. -/
theorem found_eq {o : Op} (ho : o.Apart bs lo hi) : o.found s' = o.found s := by
  cases o with
  | memoryAccess bs' len off size t w =>
    simp only [Op.found, memoryAccess_found _ h.enabled, memoryAccess_found _ h.enabled',
      h.threadClocks_eq]
    have hstore := (h.attached.shadowOf bs' len).backingStore_eq
    have hstore' := (h.attached'.shadowOf bs' len).backingStore_eq
    refine ShadowBuffer.recordAccess_fst_congr (hstore'.trans hstore.symm)
      (h.byteLength_shadowOf bs' len) fun b c hlo hhi ↦ ?_
    rw [shadowOf_cell, shadowOf_cell]
    refine h.cellAt_eq (fun hb ↦ ?_) c
    simp only [Op.Apart] at ho
    omega
  | _ => rfl

end EqOutside

/-- Clearing a range keeps the rest. -/
theorem eqOutside_of_clearShadow (he : s.enabled = true) (ha : s.Attached) {off size : ℕ}
    (hsum : off + size < 2 ^ 64) (h : s.clearShadow bs off size = some s₁) :
    s.EqOutside bs off (off + size) s₁ where
  enabled := he
  eq_withMemory := Op.eq_withMemory_of_exec (o := .clearShadow bs off size) he rfl h
  attached := ha
  attached' := Op.exec_attached (o := .clearShadow bs off size) he ha h
  byteLength_eq := Op.exec_byteLength (o := .clearShadow bs off size) he h
  cellAt_eq {bs' byte} hb c := by
    rw [cellAt_clearShadow he h, if_neg]
    rintro ⟨hbs, hlo, hhi⟩
    rw [ShadowBuffer.clearEnd_eq hsum] at hhi
    exact hb ⟨hbs, hlo, hhi.trans_le (Nat.min_le_left ..)⟩

end Detector

namespace Run

/-- An access that is recorded on a cleared byte was made after clearing. -/
theorem lt_of_recorded_of_clearShadow (r : Run) {c bs off size i k byte : ℕ} {t : Tid} {w : Bool}
    (hsum : off + size < 2 ^ 64) (hc : r.ops[c]? = some (.clearShadow bs off size)) (hck : c < k)
    (h : r.Recorded i k bs byte t w) (hlo : off ≤ byte) (hhi : byte < off + size) : c < i := by
  have hlen := (lt_length_of_getElem? hc).le
  have he := r.enabled hlen
  by_contra! hic
  have hne : i ≠ c := by
    rintro rfl
    obtain ⟨_, _, _, ho, -⟩ := h.access
    rw [hc] at ho
    cases ho
  have hbefore := h.inPlace (hic.lt_of_ne hne) hck.le
  have hafter := h.inPlace (Nat.lt_succ_of_le hic) hck
  have hin : byte < ((r.state c).shadowOf bs 0).clearEnd off size := by
    rw [ShadowBuffer.clearEnd_eq hsum]
    exact lt_min hhi (r.lt_byteLength_of_valid hlen (congrArg ShadowCell.valid hbefore) 0)
  rw [Detector.cellAt_clearShadow he (r.step hc), if_pos ⟨rfl, hlo, hin⟩] at hafter
  exact absurd (congrArg ShadowCell.valid hafter) (by simp [recordOf, ShadowCell.ofAccess])

end Run

/-- A range at the end of the address space on which the loop of `ClearRange` never ends. -/
theorem ShadowBuffer.clearLoop_lastPage :
    (2 ^ 64 - 2) + 1 < 2 ^ 64 ∧
      ∀ fuel, clearLoop ((new 4096 (2 ^ 64 - 1)).clearEnd (2 ^ 64 - 2) 1) fuel (2 ^ 64 - 2)
        (new 4096 (2 ^ 64 - 1)) = none := by
  have hsum : (2 ^ 64 - 2) + 1 < 2 ^ 64 := by decide
  refine ⟨hsum, fun fuel ↦ ?_⟩
  rw [clearEnd_eq hsum]
  exact clearLoop_eq_none (by decide) (by decide)

/-- What clearing a range does. `ClearRange` ends exactly if the range is empty or does not reach
the last page of the address space. It then clears the cells of the range, changes no other cell
and creates no page. After `ClearShadow`, a report on a byte of the range names an access that was
made afterwards. Accesses outside of the range find the same as they would without clearing, in
every continuation whose accesses lie inside or outside of the range. -/
theorem clearShadow_exact (sb : ShadowBuffer) (r : Run) {off size c bs : ℕ}
    (hsum : off + size < 2 ^ 64) (hc : r.ops[c]? = some (.clearShadow bs off size)) :
    (sb.ClearRangeEnds off size ↔ min (off + size) sb.byteLength ≤ off ∨
      min (off + size) sb.byteLength ≤ ShadowBuffer.lastPage) ∧
    (sb.ClearRangeEnds off size → ∃ sb', sb.clearRange off size = some sb' ∧
      sb.Cleared sb' off (min (off + size) sb.byteLength)) ∧
    (∀ {k len off' size' : ℕ} {t : Tid} {w : Bool} {report : RaceReport}, c < k →
      r.ops[k]? = some (.memoryAccess bs len off' size' t w) →
      Op.found (r.state k) (.memoryAccess bs len off' size' t w) = some report →
      off ≤ report.sabOffset → report.sabOffset < off + size →
      (∃ i, r.Recorded i k bs report.sabOffset report.tid1 report.isWrite1 ∧
        report.epoch1 = (r.state i).threadClocks report.tid1 report.tid1) ∧
      ∀ {i : ℕ} {t' : Tid} {w' : Bool}, r.Recorded i k bs report.sabOffset t' w' → c < i) ∧
    ∀ e : Execution Op.exec (r.state c),
      (∀ o ∈ e.ops, o.Apart bs off (off + size) ∨ o.Within bs off (off + size)) →
      ∃ e' : Execution Op.exec (r.state (c + 1)), e'.ops = e.ops ∧
        ∀ {k : ℕ} {o : Op}, e.ops[k]? = some o → o.Apart bs off (off + size) →
          o.found (e'.state k) = o.found (e.state k) := by
  have hlen := (Run.lt_length_of_getElem? hc).le
  have he := r.enabled hlen
  rw [← ShadowBuffer.clearEnd_eq hsum]
  refine ⟨ShadowBuffer.clearRangeEnds_iff, fun hends ↦ ?_, fun hck ho hf hlo hhi ↦ ⟨?_, ?_⟩,
    fun e hops ↦ ?_⟩
  · obtain ⟨sb', hsb'⟩ := Option.isSome_iff_exists.mp
      (ShadowBuffer.clearRange_isSome_iff.mpr hends)
    exact ⟨sb', hsb', ShadowBuffer.cleared_of_clearRange hsb'⟩
  · obtain ⟨i, hrec, hepoch, -⟩ := Run.exists_recorded_of_found ho hf
    exact ⟨i, hrec, hepoch⟩
  · exact fun hrec ↦ r.lt_of_recorded_of_clearShadow hsum hc hck hrec hlo hhi
  · have h₀ := Detector.eqOutside_of_clearShadow he (r.attached hlen) hsum (r.step hc)
    obtain ⟨e', hops', hrel⟩ := e.exists_related h₀ fun ho h ↦
      h.exec (hops _ (List.mem_of_getElem? ho)) (e.step ho)
    refine ⟨e', hops', fun {k o} ho hapart ↦ ?_⟩
    exact (hrel k (List.getElem?_eq_some_iff.mp ho).1.le).found_eq hapart

/-- Thread 0 writes to a buffer of 8 bytes, and the first half of it is cleared. -/
def Run.clearedHalf : Run := .ofOps
  [.threadCreate uint32Max, .threadCreate uint32Max, .memoryAccess 4096 8 0 8 0 true,
    .clearShadow 4096 0 4] (by decide)

/-- Thread 1 finds the same in the second half as without clearing. -/
theorem clearShadow_exact_clearedHalf :
    (∃ sb', (ShadowBuffer.new 4096 8).clearRange 0 4 = some sb' ∧
      (ShadowBuffer.new 4096 8).Cleared sb' 0 4) ∧
    Op.found (Run.clearedHalf.state 4) (.memoryAccess 4096 8 4 4 1 true) =
      Op.found (Run.clearedHalf.state 3) (.memoryAccess 4096 8 4 4 1 true) := by
  have hc : Run.clearedHalf.ops[3]? = some (.clearShadow 4096 0 4) := rfl
  obtain ⟨hends, hcleared, -, hsame⟩ :=
    clearShadow_exact (ShadowBuffer.new 4096 8) Run.clearedHalf (by decide) hc
  refine ⟨hcleared (hends.mpr (.inr (by decide))), ?_⟩
  obtain ⟨e', -, hfound⟩ := hsame
    (.ofOps [.memoryAccess 4096 8 4 4 1 true] rfl) (by simp [Execution.ofOps, Op.Apart])
  rw [← e'.state_zero]
  exact hfound (k := 0) rfl (by simp [Op.Apart])

/-- Thread 1 writes the whole buffer, and thread 0 a byte of the second half. -/
def acrossClearedHalf : List Op :=
  [.memoryAccess 4096 8 0 8 1 true, .memoryAccess 4096 8 4 1 0 true]

/-- The access of thread 1 crosses the end of the cleared half: it stops at byte 0 without clearing,
and at byte 4 with it. So the access of thread 0, which does not touch the cleared half, finds a
race only after clearing. -/
theorem acrossClearedHalf_found_ne :
    ∃ (e : Execution Op.exec (Run.clearedHalf.state 3))
      (e' : Execution Op.exec (Run.clearedHalf.state 4)),
      e.ops = acrossClearedHalf ∧ e'.ops = acrossClearedHalf ∧
      ∃ o : Op, acrossClearedHalf[1]? = some o ∧ o.Apart 4096 0 4 ∧
        o.found (e.state 1) = none ∧ (o.found (e'.state 1)).isSome = true := by
  have hops : (execAll Op.exec (Run.clearedHalf.state 3) acrossClearedHalf).isSome = true := rfl
  have hops' : (execAll Op.exec (Run.clearedHalf.state 4) acrossClearedHalf).isSome = true := rfl
  refine ⟨.ofOps _ hops, .ofOps _ hops', rfl, rfl, _, rfl, .inr (.inr le_rfl), ?_, ?_⟩
  · decide +revert
  · decide +revert

end WebTSan
