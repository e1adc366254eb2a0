import WebTSan.PendingRace
import WebTSan.Spacing

/-!
# Bulk memory operations

`memory.init`, `memory.copy` and `memory.fill` are calls of C++ functions, which report their ranges
to the detector before they move the bytes. A range is not recorded byte by byte: up to 64 single
bytes of it are recorded, at a distance that is the size of the range divided by 64, rounded down.

The samples cover small ranges and ranges of many bytes. In between the rest of the division is
large compared with the distance, and the end of the range stays free. `memory.copy` and
`memory.fill` report exactly when they take effect, and `memory.init` does not report.

## Main definitions

* `WebTSan.bulkOffsets`: the loop of `MaybeReportTSanBulkRange` on machine words.
* `WebTSan.BulkCall.run`: the three wrappers, and what they do to the detector and to the memory.
* `WebTSan.BulkCall.ReportsExactly`: the ranges are reported when the call takes effect.

## Main results

* `WebTSan.bulkOffsets_eq_spacedPoints`: the samples are evenly spaced points.
* `WebTSan.bulkOffsets_spread_iff`: when exactly they are spread over the whole range.
* `WebTSan.BulkCall.reportsExactly_iff`: when exactly a call reports what it does.
-/

namespace WebTSan

/-! ### The samples -/

/-- The offsets that the loop of `MaybeReportTSanBulkRange` records, in the arithmetic of
`uintptr_t`. -/
def bulkOffsets (offset size : ℕ) : List ℕ :=
  if size = 0 then []
  else
    let n := if size < kMaxSamples then size else kMaxSamples
    let stride := if size / n = 0 then 1 else size / n
    ((List.range n).map fun i ↦ (offset + i * stride % 2 ^ 64) % 2 ^ 64).takeWhile fun o ↦
      o < (offset + size) % 2 ^ 64

section Samples

variable {offset size : ℕ}

/-- The number of samples. -/
def sampleCount (size : ℕ) : ℕ := if size < kMaxSamples then size else kMaxSamples

theorem sampleCount_pos (hs : 0 < size) : 0 < sampleCount size := by
  unfold sampleCount kMaxSamples
  split_ifs <;> omega

theorem sampleCount_le (size : ℕ) : sampleCount size ≤ size := by
  unfold sampleCount
  split_ifs <;> omega

/-- The samples lie in the range. -/
theorem mul_div_sampleCount_lt (hs : 0 < size) {i : ℕ} (hi : i < sampleCount size) :
    i * (size / sampleCount size) < size := by
  have hd : 0 < size / sampleCount size :=
    Nat.div_pos (sampleCount_le size) (sampleCount_pos hs)
  calc i * (size / sampleCount size)
      < sampleCount size * (size / sampleCount size) := Nat.mul_lt_mul_of_pos_right hi hd
    _ ≤ size := Nat.mul_div_le size (sampleCount size)

/-- The distance of the samples is never zero. -/
theorem sampleStride_eq (hs : 0 < size) :
    (if size / sampleCount size = 0 then 1 else size / sampleCount size) =
      size / sampleCount size :=
  if_neg (Nat.div_pos (sampleCount_le size) (sampleCount_pos hs)).ne'

/-- The samples are evenly spaced points. -/
theorem bulkSamples_eq_spacedPoints (hs : 0 < size) :
    bulkSamples offset size =
      spacedPoints offset (size / sampleCount size) (sampleCount size) := by
  rw [bulkSamples, if_neg hs.ne']
  change ((List.range (sampleCount size)).map fun i ↦ offset + i *
    (if size / sampleCount size = 0 then 1 else size / sampleCount size)).takeWhile _ = _
  rw [sampleStride_eq hs]
  refine List.takeWhile_eq_self_iff.mpr fun o ho ↦ ?_
  obtain ⟨i, hi, rfl⟩ := List.mem_map.mp ho
  have hlt := mul_div_sampleCount_lt hs (List.mem_range.mp hi)
  exact decide_eq_true (Nat.add_lt_add_left hlt offset)

/-- If the end of the range does not wrap around, then no sample does. -/
theorem bulkOffsets_eq_bulkSamples (h : offset + size < 2 ^ 64) :
    bulkOffsets offset size = bulkSamples offset size := by
  rcases Nat.eq_zero_or_pos size with rfl | hs
  · rfl
  · have hpoint (i : ℕ) (hi : i ∈ List.range (sampleCount size)) :
        (offset + i * (size / sampleCount size) % 2 ^ 64) % 2 ^ 64 =
          offset + i * (size / sampleCount size) := by
      have hlt := mul_div_sampleCount_lt hs (List.mem_range.mp hi)
      rw [Nat.mod_eq_of_lt (a := i * _) (by omega), Nat.mod_eq_of_lt (by omega)]
    rw [bulkOffsets, bulkSamples, if_neg hs.ne', if_neg hs.ne', Nat.mod_eq_of_lt h]
    change ((List.range (sampleCount size)).map fun i ↦ (offset + i *
      (if size / sampleCount size = 0 then 1 else size / sampleCount size) % 2 ^ 64) %
        2 ^ 64).takeWhile _ = ((List.range (sampleCount size)).map fun i ↦ offset + i *
      (if size / sampleCount size = 0 then 1 else size / sampleCount size)).takeWhile _
    rw [sampleStride_eq hs, List.map_congr_left hpoint]

theorem bulkOffsets_eq_spacedPoints (hs : 0 < size) (h : offset + size < 2 ^ 64) :
    bulkOffsets offset size =
      spacedPoints offset (size / sampleCount size) (sampleCount size) := by
  rw [bulkOffsets_eq_bulkSamples h, bulkSamples_eq_spacedPoints hs]

/-- The samples are distinct, lie in the range, are at most 64 and all of a range of at most 64
bytes. They leave no long run of bytes between them exactly if the rest of the division of the size
by 64 is small. -/
theorem bulkOffsets_spread_iff (hs : 0 < size) (h : offset + size < 2 ^ 64) :
    ((bulkOffsets offset size).Nodup ∧ (bulkOffsets offset size).length ≤ 64 ∧
      (∀ o ∈ bulkOffsets offset size, offset ≤ o ∧ o < offset + size) ∧
      (size ≤ 64 → ∀ o, offset ≤ o → o < offset + size → o ∈ bulkOffsets offset size)) ∧
    ((∀ lo len, offset ≤ lo → lo + len ≤ offset + size →
        (∀ b, lo ≤ b → b < lo + len → b ∉ bulkOffsets offset size) →
          len < 2 * ((size + 63) / 64)) ↔
      size ≤ 64 ∨ size % 64 ≤ size / 64 + 2) := by
  have hn := sampleCount_pos hs
  have hd : 0 < size / sampleCount size := Nat.div_pos (sampleCount_le size) hn
  have hcount : size < 64 ∧ sampleCount size = size ∧ size / sampleCount size = 1 ∨
      64 ≤ size ∧ sampleCount size = 64 ∧ size / sampleCount size = size / 64 := by
    unfold sampleCount kMaxSamples
    by_cases hlt : size < 64
    · exact .inl ⟨hlt, if_pos hlt, by rw [if_pos hlt, Nat.div_self hs]⟩
    · exact .inr ⟨not_lt.mp hlt, if_neg hlt, by rw [if_neg hlt]⟩
  have hmem := bulkOffsets_eq_bulkSamples h ▸ @mem_bulkSamples offset size
  rw [bulkOffsets_eq_spacedPoints hs h] at hmem ⊢
  refine ⟨⟨nodup_spacedPoints hd, ?_, fun o ho ↦ hmem ho, fun hle o ho ho' ↦ ?_⟩, ?_⟩
  · rw [length_spacedPoints]
    omega
  · obtain ⟨i, rfl⟩ := Nat.exists_eq_add_of_le ho
    have hstride : size / sampleCount size = 1 ∧ sampleCount size = size := by omega
    rw [hstride.1, hstride.2]
    exact mem_spacedPoints.mpr ⟨i, by omega, by omega⟩
  · refine (forall_isGap_lt_iff hn hd (by omega) ?_).trans ?_
    · exact mul_div_sampleCount_lt hs (by omega)
    · rcases hcount with ⟨hlt, hc, hd⟩ | ⟨hge, hc, hd⟩ <;> rw [hd, hc] <;> omega

end Samples

/-- Of a range of 128 bytes every second one is recorded. -/
theorem bulkOffsets_spread_128 : (bulkOffsets 4096 128).Nodup ∧
    ∀ lo len, 4096 ≤ lo → lo + len ≤ 4096 + 128 →
      (∀ b, lo ≤ b → b < lo + len → b ∉ bulkOffsets 4096 128) → len < 4 := by
  have hiff := bulkOffsets_spread_iff (show 0 < 128 by decide) (show 4096 + 128 < 2 ^ 64 by decide)
  exact ⟨hiff.1.1, hiff.2.mpr (.inr (by decide))⟩

/-- Of a range of 127 bytes the second half is not recorded. -/
theorem bulkOffsets_not_spread_127 : ¬∀ lo len, 4096 ≤ lo → lo + len ≤ 4096 + 127 →
    (∀ b, lo ≤ b → b < lo + len → b ∉ bulkOffsets 4096 127) → len < 2 * ((127 + 63) / 64) := by
  intro h
  have hgap : IsGap 4096 1 64 (4096 + 63 * 1 + 1) 63 := isGap_tail 63
  have hlen := h 4160 63 (by decide) (by decide) fun b hb hb' ↦ by
    rw [bulkOffsets_eq_spacedPoints (by decide) (by decide)]
    exact hgap b hb hb'
  exact absurd hlen (by decide)

/-! ### The wrappers -/

/-- The backing store of a memory. -/
structure BackingStore where
  bufferStart : ℕ
  byteLength : ℕ
  isShared : Bool

/-- The range of a data segment in the bytes of its module. -/
structure WireBytesRef where
  offset : ℕ
  length : ℕ

/-- What the wrappers read of an instance. -/
structure TrustedData where
  memorySize : ℕ → ℕ
  memorySize_lt (memIndex : ℕ) : memorySize memIndex < 2 ^ 64
  backingStore : ℕ → Option BackingStore
  /-- The bytes of the memories. -/
  memory : ℕ → ℕ → UInt8
  dataSegments : ℕ → WireBytesRef
  wireBytes : ℕ → UInt8

/-- The flag and the callbacks that `MaybeReportTSanBulkRange` looks at. -/
structure BulkHooks where
  wasmTsan : Bool
  /-- `record_range` is registered. -/
  recordRange : Bool
  /-- What `get_current_tid` returns, if it is registered. -/
  getCurrentTid : Option ℕ

/-- What a wrapper does: it reports an access, or it stores bytes to a memory. -/
inductive BulkEffect
  | recordRange (backingStore byteLength offset size tid : ℕ) (isWrite : Bool)
  | store (memIndex dst : ℕ) (bytes : List UInt8)
deriving DecidableEq

def kMemOpSuccess : ℕ := 1

def kOutOfBounds : ℕ := 0

/-- `base::IsInBounds`. -/
def isInBounds (index length max : ℕ) : Bool := length ≤ max && index ≤ max - length

namespace TrustedData

variable (hooks : BulkHooks) (data : TrustedData)

/-- `MaybeReportTSanBulkRange`, with the checks before the loop. -/
def maybeReportTSanBulkRange (memIndex offset size : ℕ) (isWrite : Bool) : List BulkEffect :=
  if !hooks.wasmTsan then []
  else if size = 0 then []
  else
    match hooks.recordRange, hooks.getCurrentTid, data.backingStore memIndex with
    | true, some tid, some backing =>
      if !backing.isShared then []
      else if tid = uint32Max then []
      else
        (bulkOffsets offset size).map fun o ↦
          .recordRange backing.bufferStart backing.byteLength o 1 tid isWrite
    | _, _, _ => []

/-- `memory_init_wrapper`: the result and what is done. -/
def memoryInitWrapper (memIndex dst src segIndex size : ℕ) : ℕ × List BulkEffect :=
  let memSize := data.memorySize memIndex
  if !isInBounds dst size memSize then (kOutOfBounds, [])
  else
    let segmentSource := data.dataSegments segIndex
    if !isInBounds src size segmentSource.length then (kOutOfBounds, [])
    else
      let start := segmentSource.offset + src
      (kMemOpSuccess, [.store memIndex dst ((List.range size).map fun i ↦
        data.wireBytes (start + i))])

/-- `memory_copy_wrapper`. -/
def memoryCopyWrapper (dstMemIndex srcMemIndex dst src size : ℕ) : ℕ × List BulkEffect :=
  let dstMemSize := data.memorySize dstMemIndex
  let srcMemSize := data.memorySize srcMemIndex
  if !isInBounds dst size dstMemSize then (kOutOfBounds, [])
  else if !isInBounds src size srcMemSize then (kOutOfBounds, [])
  else
    (kMemOpSuccess, data.maybeReportTSanBulkRange hooks srcMemIndex src size false ++
      data.maybeReportTSanBulkRange hooks dstMemIndex dst size true ++
      [.store dstMemIndex dst ((List.range size).map fun i ↦ data.memory srcMemIndex (src + i))])

/-- `memory_fill_wrapper`. -/
def memoryFillWrapper (memIndex dst : ℕ) (value : UInt8) (size : ℕ) : ℕ × List BulkEffect :=
  let memSize := data.memorySize memIndex
  if !isInBounds dst size memSize then (kOutOfBounds, [])
  else
    (kMemOpSuccess, data.maybeReportTSanBulkRange hooks memIndex dst size true ++
      [.store memIndex dst (List.replicate size value)])

end TrustedData

/-- A call of one of the wrappers. -/
inductive BulkCall
  | memoryInit (memIndex dst src segIndex size : ℕ)
  | memoryCopy (dstMemIndex srcMemIndex dst src size : ℕ)
  | memoryFill (memIndex dst : ℕ) (value : UInt8) (size : ℕ)

/-- A range of a memory. -/
structure MemoryRange where
  memIndex : ℕ
  offset : ℕ
  size : ℕ

namespace BulkCall

variable (hooks : BulkHooks) (data : TrustedData)

/-- The result of a call and what it does. -/
def run : BulkCall → ℕ × List BulkEffect
  | memoryInit memIndex dst src segIndex size =>
    data.memoryInitWrapper memIndex dst src segIndex size
  | memoryCopy dstMemIndex srcMemIndex dst src size =>
    data.memoryCopyWrapper hooks dstMemIndex srcMemIndex dst src size
  | memoryFill memIndex dst value size => data.memoryFillWrapper hooks memIndex dst value size

/-- The range that a call writes. -/
def destination : BulkCall → MemoryRange
  | memoryInit memIndex dst _ _ size => ⟨memIndex, dst, size⟩
  | memoryCopy dstMemIndex _ dst _ size => ⟨dstMemIndex, dst, size⟩
  | memoryFill memIndex dst _ size => ⟨memIndex, dst, size⟩

/-- The range of a memory that a call reads, if it reads one. -/
def source : BulkCall → Option MemoryRange
  | memoryCopy _ srcMemIndex _ src size => some ⟨srcMemIndex, src, size⟩
  | _ => none

end BulkCall

namespace TrustedData

variable (data : TrustedData)

/-- The memory has a shared backing store. -/
def IsShared (memIndex : ℕ) : Prop := ∃ b, data.backingStore memIndex = some b ∧ b.isShared = true

/-- The effect reports an access to one byte of the range. -/
def ReportsByte (range : MemoryRange) (isWrite : Bool) (e : BulkEffect) : Prop :=
  ∃ b o tid, data.backingStore range.memIndex = some b ∧ range.offset ≤ o ∧
    o < range.offset + range.size ∧ e = .recordRange b.bufferStart b.byteLength o 1 tid isWrite

end TrustedData

/-- The effect reports an access. -/
def BulkEffect.IsReport : BulkEffect → Prop
  | recordRange .. => True
  | store .. => False

/-- `--wasm_tsan` is on, the callbacks are registered, and the thread has a tid. -/
structure BulkHooks.Active (hooks : BulkHooks) (tid : ℕ) : Prop where
  wasmTsan : hooks.wasmTsan = true
  recordRange : hooks.recordRange = true
  getCurrentTid : hooks.getCurrentTid = some tid
  tid_ne : tid ≠ uint32Max

/-- The contract of the three calls. A call that is out of bounds reports nothing. A call that
changes memory reports first, for each shared range that it writes or reads, an access to a byte of
it. Nothing else is reported. -/
structure BulkCall.ReportsExactly (hooks : BulkHooks) (data : TrustedData) (call : BulkCall) :
    Prop where
  outOfBounds : (call.run hooks data).1 = kOutOfBounds →
    ∀ e ∈ (call.run hooks data).2, ¬e.IsReport
  success : (call.run hooks data).1 = kMemOpSuccess → 0 < call.destination.size →
    ∃ reports memIndex dst bytes, (call.run hooks data).2 = reports ++ [.store memIndex dst bytes] ∧
      (∀ e ∈ reports, e.IsReport) ∧
      (data.IsShared call.destination.memIndex →
        ∃ e ∈ reports, data.ReportsByte call.destination true e) ∧
      ∀ range ∈ call.source, data.IsShared range.memIndex →
        ∃ e ∈ reports, data.ReportsByte range false e
  inRange : ∀ e ∈ (call.run hooks data).2, e.IsReport →
    data.ReportsByte call.destination true e ∨
      ∃ range ∈ call.source, data.ReportsByte range false e

theorem isInBounds_iff {index length max : ℕ} :
    isInBounds index length max = true ↔ index + length ≤ max := by
  simp only [isInBounds, Bool.and_eq_true, decide_eq_true_eq]
  omega

namespace TrustedData

variable {hooks : BulkHooks} {data : TrustedData} {memIndex offset size tid : ℕ} {isWrite : Bool}
  {e : BulkEffect}

theorem ReportsByte.isReport {range : MemoryRange} (h : data.ReportsByte range isWrite e) :
    e.IsReport := by
  obtain ⟨_, _, _, -, -, -, rfl⟩ := h
  trivial

/-- The end of a range in bounds does not wrap around. -/
theorem add_lt_of_isInBounds (h : isInBounds offset size (data.memorySize memIndex) = true) :
    offset + size < 2 ^ 64 :=
  (isInBounds_iff.mp h).trans_lt (data.memorySize_lt memIndex)

/-- What is reported are bytes of the range. -/
theorem reportsByte_of_mem (h : offset + size < 2 ^ 64)
    (he : e ∈ data.maybeReportTSanBulkRange hooks memIndex offset size isWrite) :
    data.ReportsByte ⟨memIndex, offset, size⟩ isWrite e := by
  unfold maybeReportTSanBulkRange at he
  split_ifs at he with hflag hsize
  · cases he
  · cases he
  · split at he
    · next tid backing _ _ hbacking =>
      split_ifs at he with hshared htid
      · cases he
      · cases he
      · obtain ⟨o, ho, rfl⟩ := List.mem_map.mp he
        rw [bulkOffsets_eq_bulkSamples h] at ho
        obtain ⟨hle, hlt⟩ := mem_bulkSamples ho
        exact ⟨backing, o, tid, hbacking, hle, hlt, rfl⟩
    · cases he

/-- Some byte of a shared range is reported. -/
theorem exists_mem_reports (isWrite : Bool) (hh : hooks.Active tid)
    (hshared : data.IsShared memIndex) (hs : 0 < size) (h : offset + size < 2 ^ 64) :
    ∃ e ∈ data.maybeReportTSanBulkRange hooks memIndex offset size isWrite,
      data.ReportsByte ⟨memIndex, offset, size⟩ isWrite e := by
  obtain ⟨b, hb, hbs⟩ := hshared
  have hmem : BulkEffect.recordRange b.bufferStart b.byteLength offset 1 tid isWrite ∈
      data.maybeReportTSanBulkRange hooks memIndex offset size isWrite := by
    have hoff : offset ∈ bulkOffsets offset size := by
      rw [bulkOffsets_eq_spacedPoints hs h]
      exact mem_spacedPoints.mpr ⟨0, sampleCount_pos hs, by omega⟩
    simp only [maybeReportTSanBulkRange, hh.wasmTsan, hh.recordRange, hh.getCurrentTid, hb, hbs,
      hs.ne', hh.tid_ne, Bool.not_true, Bool.false_eq_true, if_false]
    exact List.mem_map_of_mem hoff
  exact ⟨_, hmem, reportsByte_of_mem h hmem⟩

end TrustedData

namespace BulkCall

variable {hooks : BulkHooks} {data : TrustedData} {tid : ℕ}

/-- A call that is out of bounds has no effect. -/
theorem reportsExactly_of_run_eq {call : BulkCall} (h : call.run hooks data = (kOutOfBounds, [])) :
    call.ReportsExactly hooks data where
  outOfBounds _ e he := by
    rw [h] at he
    cases he
  success hr := by
    rw [h] at hr
    cases hr
  inRange e he := by
    rw [h] at he
    cases he

/-- A call that reports its ranges and then changes memory. -/
theorem reportsExactly_of_store {call : BulkCall} {reports : List BulkEffect} {memIndex dst : ℕ}
    {bytes : List UInt8}
    (h : call.run hooks data = (kMemOpSuccess, reports ++ [.store memIndex dst bytes]))
    (hreports : ∀ e ∈ reports, data.ReportsByte call.destination true e ∨
      ∃ range ∈ call.source, data.ReportsByte range false e)
    (hdst : 0 < call.destination.size → data.IsShared call.destination.memIndex →
      ∃ e ∈ reports, data.ReportsByte call.destination true e)
    (hsrc : 0 < call.destination.size → ∀ range ∈ call.source, data.IsShared range.memIndex →
      ∃ e ∈ reports, data.ReportsByte range false e) : call.ReportsExactly hooks data where
  outOfBounds hr := by
    rw [h] at hr
    cases hr
  success _ hsize := by
    refine ⟨reports, memIndex, dst, bytes, by rw [h], fun e he ↦ ?_, hdst hsize, hsrc hsize⟩
    rcases hreports e he with hb | ⟨range, -, hb⟩ <;> exact hb.isReport
  inRange e he hrep := by
    rw [h] at he
    rcases List.mem_append.mp he with he | he
    · exact hreports e he
    · obtain rfl := List.mem_singleton.mp he
      exact hrep.elim

/-- `memory.copy` reports both ranges before it copies. -/
theorem memoryCopy_reportsExactly (hh : hooks.Active tid)
    (dstMemIndex srcMemIndex dst src size : ℕ) :
    (memoryCopy dstMemIndex srcMemIndex dst src size).ReportsExactly hooks data := by
  by_cases hdst : isInBounds dst size (data.memorySize dstMemIndex) = true
  · by_cases hsrc : isInBounds src size (data.memorySize srcMemIndex) = true
    · have hd := data.add_lt_of_isInBounds hdst
      have hs := data.add_lt_of_isInBounds hsrc
      have hrun : (memoryCopy dstMemIndex srcMemIndex dst src size).run hooks data =
          (kMemOpSuccess, (data.maybeReportTSanBulkRange hooks srcMemIndex src size false ++
            data.maybeReportTSanBulkRange hooks dstMemIndex dst size true) ++
            [.store dstMemIndex dst
              ((List.range size).map fun i ↦ data.memory srcMemIndex (src + i))]) := by
        simp [run, TrustedData.memoryCopyWrapper, hdst, hsrc]
      refine reportsExactly_of_store hrun (fun e he ↦ ?_) (fun hsize hshared ↦ ?_) ?_
      · rcases List.mem_append.mp he with he | he
        · exact .inr ⟨_, rfl, TrustedData.reportsByte_of_mem hs he⟩
        · exact .inl (TrustedData.reportsByte_of_mem hd he)
      · obtain ⟨e, he, hb⟩ := TrustedData.exists_mem_reports true hh hshared hsize hd
        exact ⟨e, List.mem_append_right _ he, hb⟩
      · rintro hsize range ⟨⟩ hshared
        obtain ⟨e, he, hb⟩ := TrustedData.exists_mem_reports false hh hshared hsize hs
        exact ⟨e, List.mem_append_left _ he, hb⟩
    · exact reportsExactly_of_run_eq (by simp [run, TrustedData.memoryCopyWrapper, hdst, hsrc])
  · exact reportsExactly_of_run_eq (by simp [run, TrustedData.memoryCopyWrapper, hdst])

/-- `memory.fill` reports its range before it fills. -/
theorem memoryFill_reportsExactly (hh : hooks.Active tid) (memIndex dst : ℕ) (value : UInt8)
    (size : ℕ) : (memoryFill memIndex dst value size).ReportsExactly hooks data := by
  by_cases hdst : isInBounds dst size (data.memorySize memIndex) = true
  · have hd := data.add_lt_of_isInBounds hdst
    have hrun : (memoryFill memIndex dst value size).run hooks data =
        (kMemOpSuccess, data.maybeReportTSanBulkRange hooks memIndex dst size true ++
          [.store memIndex dst (List.replicate size value)]) := by
      simp [run, TrustedData.memoryFillWrapper, hdst]
    refine reportsExactly_of_store hrun
      (fun e he ↦ .inl (TrustedData.reportsByte_of_mem hd he))
      (fun hsize hshared ↦ TrustedData.exists_mem_reports true hh hshared hsize hd) ?_
    rintro _ _ ⟨⟩
  · exact reportsExactly_of_run_eq (by simp [run, TrustedData.memoryFillWrapper, hdst])

/-- `memory.init` never reports, which is right if it changes no byte of a shared memory. -/
theorem memoryInit_reportsExactly_iff (memIndex dst src segIndex size : ℕ) :
    (memoryInit memIndex dst src segIndex size).ReportsExactly hooks data ↔
      (isInBounds dst size (data.memorySize memIndex) = true →
        isInBounds src size (data.dataSegments segIndex).length = true →
          size = 0 ∨ ¬data.IsShared memIndex) := by
  by_cases hdst : isInBounds dst size (data.memorySize memIndex) = true
  · by_cases hsrc : isInBounds src size (data.dataSegments segIndex).length = true
    · have hrun : (memoryInit memIndex dst src segIndex size).run hooks data =
          (kMemOpSuccess, [] ++ [.store memIndex dst ((List.range size).map fun i ↦
            data.wireBytes ((data.dataSegments segIndex).offset + src + i))]) := by
        simp [run, TrustedData.memoryInitWrapper, hdst, hsrc]
      constructor
      · intro h _ _
        by_contra! hcond
        obtain ⟨hsize, hshared⟩ := hcond
        obtain ⟨reports, _, _, _, heff, -, hdst', -⟩ :=
          h.success (by rw [hrun]) (Nat.pos_of_ne_zero hsize)
        obtain ⟨e, he, -⟩ := hdst' hshared
        rw [hrun] at heff
        obtain ⟨rfl, -⟩ := List.append_inj' heff rfl
        cases he
      · intro h
        refine reportsExactly_of_store hrun (fun e he ↦ by cases he) (fun hsize hshared ↦ ?_) ?_
        · rcases h hdst hsrc with rfl | hnot
          · exact absurd hsize (lt_irrefl 0)
          · exact absurd hshared hnot
        · rintro _ _ ⟨⟩
    · refine iff_of_true (reportsExactly_of_run_eq ?_) fun _ h ↦ absurd h hsrc
      simp [run, TrustedData.memoryInitWrapper, hdst, hsrc]
  · refine iff_of_true (reportsExactly_of_run_eq ?_) fun h ↦ absurd h hdst
    simp [run, TrustedData.memoryInitWrapper, hdst]

/-- A call reports exactly what it does, unless it is a call of `memory.init` that changes a shared
memory. -/
theorem reportsExactly_iff (hh : hooks.Active tid) (call : BulkCall) :
    call.ReportsExactly hooks data ↔
      ∀ memIndex dst src segIndex size, call = memoryInit memIndex dst src segIndex size →
        isInBounds dst size (data.memorySize memIndex) = true →
          isInBounds src size (data.dataSegments segIndex).length = true →
            size = 0 ∨ ¬data.IsShared memIndex := by
  cases call with
  | memoryInit memIndex dst src segIndex size =>
    rw [memoryInit_reportsExactly_iff]
    constructor
    · rintro h _ _ _ _ _ ⟨⟩
      exact h
    · exact fun h ↦ h _ _ _ _ _ rfl
  | memoryCopy dstMemIndex srcMemIndex dst src size =>
    refine iff_of_true (memoryCopy_reportsExactly hh ..) ?_
    rintro _ _ _ _ _ ⟨⟩
  | memoryFill memIndex dst value size =>
    refine iff_of_true (memoryFill_reportsExactly hh ..) ?_
    rintro _ _ _ _ _ ⟨⟩

/-- An instance with a shared memory of one page and a data segment of four bytes. -/
def sharedInstance : TrustedData where
  memorySize _ := 65536
  memorySize_lt _ := by decide
  backingStore _ := some ⟨0x7f0000000000, 65536, true⟩
  memory _ _ := 0
  dataSegments _ := ⟨0, 4⟩
  wireBytes _ := 1

/-- The hooks of a thread with tid 0. -/
def threadHooks : BulkHooks where
  wasmTsan := true
  recordRange := true
  getCurrentTid := some 0

theorem threadHooks_active : threadHooks.Active 0 := ⟨rfl, rfl, rfl, by decide⟩

theorem memoryFill_shared_reportsExactly :
    (memoryFill 0 16 7 4).ReportsExactly threadHooks sharedInstance :=
  (reportsExactly_iff threadHooks_active _).mpr (by rintro _ _ _ _ _ ⟨⟩)

/-- `memory.init` writes four bytes of a shared memory and reports nothing. -/
theorem memoryInit_shared_not_reportsExactly :
    ¬(memoryInit 0 16 0 0 4).ReportsExactly threadHooks sharedInstance := by
  rw [memoryInit_reportsExactly_iff]
  intro h
  rcases h (by decide) (by decide) with hsize | hnot
  · cases hsize
  · exact hnot ⟨_, rfl, rfl⟩

end BulkCall

end WebTSan
