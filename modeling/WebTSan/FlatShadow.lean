import WebTSan.Shadow
import WebTSan.Transducer

/-!
# The flat shadow of the tests

The tests do not run the shadow of `Shadow.lean` but a copy of it, which has one flat array of cells
and one mutex for every stripe of 64 bytes. This file puts the two side by side, with all indices
that they compute: the stripe of a byte, its cell in a page, and its cell in the flat array. An
index that is out of range and a remainder by zero leave the access without a result. All index
arithmetic is that of `size_t`.

## Main definitions

* `WebTSan.ShadowBuffer.stripeCount`, `WebTSan.ShadowBuffer.recordIndexed`: the shadow with pages
  and all its indices.
* `WebTSan.FlatShadow`, `WebTSan.FlatShadow.recordAccess`: the copy of the tests.
* `WebTSan.FlatShadow.Matches`: a shadow with pages and a flat one hold the same cells.

## Main results

* `WebTSan.ShadowBuffer.recordIndexed_eq`: the indices of the shadow with pages are in range.
* `WebTSan.FlatShadow.shadow_refines`: the two give the same reports.
* `WebTSan.FlatShadow.exists_wrap`: for lengths near the size of the address space they do not.
-/

namespace WebTSan

/-- One call of `RecordAccess`. -/
structure ShadowAccess where
  offset : ℕ
  size : ℕ
  tid : Tid
  isWrite : Bool
  threadClock : VClock

namespace ShadowBuffer

/-! ### All indices of the shadow with pages -/

def kStripeBytes : ℕ := 64

def kMaxStripes : ℕ := 65536

variable (sb : ShadowBuffer)

/-- The size of `stripe_locks_`. -/
def stripeCount : ℕ := min ((sb.byteLength + kStripeBytes - 1) % 2 ^ 64 / kStripeBytes) kMaxStripes

/-- `StripeIndex`, without a value if it is a remainder by zero. -/
def stripeIndex (byteOffset : ℕ) : Option ℕ :=
  if sb.stripeCount = 0 then none else some (byteOffset / kStripeBytes % sb.stripeCount)

/-- An index into the cells of a page. -/
def pageSlot (index : ℕ) : Option (Fin kPageCells) :=
  if h : index < kPageCells then some ⟨index, h⟩ else none

/-- The inner loop of `RecordAccess` over the remaining cells of a byte: the first that races. -/
def firstRace (page : ShadowPage) (inPage : ℕ) (tid : Tid) (isWrite : Bool) (clk : VClock) :
    List ℕ → Option (Option ShadowCell)
  | [] => some none
  | c :: cs => do
    let i ← pageSlot (inPage * kShadowCellsPerByte + c)
    if (page i).races tid isWrite clk then some (some (page i))
    else firstRace page inPage tid isWrite clk cs

/-- The body of the outer loop of `RecordAccess`, with its indices. -/
def recordByteIndexed (byte : ℕ) (tid : Tid) (isWrite : Bool) (clk : VClock) :
    Option (Option RaceReport × ShadowBuffer) := do
  let stripe ← sb.stripeIndex byte
  if stripe < sb.stripeCount then
    let created := sb.getOrCreatePage (pageIndex byte)
    let page := created.1
    let inPage := byte % kPageBytes
    let race ← firstRace page inPage tid isWrite clk (List.range kShadowCellsPerByte)
    let evict ← pageSlot (inPage * kShadowCellsPerByte + tid % kShadowCellsPerByte)
    let page' := Function.update page evict (ShadowCell.ofAccess tid isWrite clk)
    some (race.map fun cell ↦ sb.raceReport byte cell tid isWrite clk,
      { created.2 with pages := Function.update created.2.pages (pageIndex byte) (some page') })
  else none

/-- `RecordAccess` on `size` bytes from `offset`, with all its indices. -/
def recordBytesIndexed (sb : ShadowBuffer) (offset : ℕ) : (size : ℕ) → (tid : Tid) →
    (isWrite : Bool) → (clk : VClock) → Option (Option RaceReport × ShadowBuffer)
  | 0, _, _, _ => some (none, sb)
  | size + 1, tid, isWrite, clk =>
    if offset < sb.byteLength then
      match sb.recordByteIndexed offset tid isWrite clk with
      | none => none
      | some (some report, sb') => some (some report, sb')
      | some (none, sb') => sb'.recordBytesIndexed (offset + 1) size tid isWrite clk
    else some (none, sb)

def recordIndexed (access : ShadowAccess) : Option (Option RaceReport × ShadowBuffer) :=
  sb.recordBytesIndexed access.offset access.size access.tid access.isWrite access.threadClock

end ShadowBuffer

/-! ### The flat shadow -/

/-- The shadow of the tests. -/
structure FlatShadow where
  backingStore : ℕ
  byteLength : ℕ
  /-- The array `shadow_`, of `shadowSize` cells. -/
  shadow : ℕ → ShadowCell

namespace FlatShadow

/-- The constructor, with an array of invalid cells. -/
def new (backingStore byteLength : ℕ) : FlatShadow :=
  { backingStore := backingStore, byteLength := byteLength, shadow := fun _ ↦ {} }

variable (sb : FlatShadow)

/-- The size of `shadow_`. -/
def shadowSize : ℕ := sb.byteLength * kShadowCellsPerByte % 2 ^ 64

/-- The size of `stripe_mutexes_`. -/
def mutexCount : ℕ := (sb.byteLength + 63) % 2 ^ 64 / 64

/-- An index into `shadow_`, without a value if it is out of range. -/
def index (byte c : ℕ) : Option ℕ :=
  let idx := (byte * kShadowCellsPerByte + c) % 2 ^ 64
  if idx < sb.shadowSize then some idx else none

/-- The access is stored. -/
def store (byte : ℕ) (tid : Tid) (isWrite : Bool) (clk : VClock) : Option FlatShadow := do
  let si ← sb.index byte (tid % kShadowCellsPerByte)
  some { sb with shadow := Function.update sb.shadow si (ShadowCell.ofAccess tid isWrite clk) }

def raceReport (byte : ℕ) (cell : ShadowCell) (tid : Tid) (isWrite : Bool) (clk : VClock) :
    RaceReport :=
  { sabOffset := byte
    sabBackingStore := sb.backingStore
    sabByteLength := sb.byteLength
    tid1 := cell.tid
    isWrite1 := cell.isWrite
    epoch1 := cell.epoch
    tid2 := tid
    isWrite2 := isWrite
    epoch2 := clk tid }

/-- The rest of the body of the outer loop, from the remaining cells of the byte on. It stores the
access and returns at the first race, or stores it after the last cell. -/
def recordCells (byte : ℕ) (tid : Tid) (isWrite : Bool) (clk : VClock) :
    List ℕ → Option (Option RaceReport × FlatShadow)
  | [] => do
    let sb' ← sb.store byte tid isWrite clk
    some (none, sb')
  | c :: cs => do
    let idx ← sb.index byte c
    let cell := sb.shadow idx
    if cell.races tid isWrite clk then
      let sb' ← sb.store byte tid isWrite clk
      some (some (sb.raceReport byte cell tid isWrite clk), sb')
    else recordCells byte tid isWrite clk cs

/-- The body of the outer loop. -/
def recordByte (byte : ℕ) (tid : Tid) (isWrite : Bool) (clk : VClock) :
    Option (Option RaceReport × FlatShadow) :=
  let stripe := byte / 64
  if stripe < sb.mutexCount then
    sb.recordCells byte tid isWrite clk (List.range kShadowCellsPerByte)
  else none

/-- `RecordAccess` of the tests, on `size` bytes from `offset`. -/
def recordBytes (sb : FlatShadow) (offset : ℕ) : (size : ℕ) → (tid : Tid) → (isWrite : Bool) →
    (clk : VClock) → Option (Option RaceReport × FlatShadow)
  | 0, _, _, _ => some (none, sb)
  | size + 1, tid, isWrite, clk =>
    if offset < sb.byteLength then
      match sb.recordByte offset tid isWrite clk with
      | none => none
      | some (some report, sb') => some (some report, sb')
      | some (none, sb') => sb'.recordBytes (offset + 1) size tid isWrite clk
    else some (none, sb)

def recordAccess (access : ShadowAccess) : Option (Option RaceReport × FlatShadow) :=
  sb.recordBytes access.offset access.size access.tid access.isWrite access.threadClock

end FlatShadow

/-! ### The indices of the shadow with pages -/

namespace ShadowBuffer

variable {sb : ShadowBuffer} {byte offset size : ℕ} {tid : Tid} {isWrite : Bool} {clk : VClock}

/-- There is no stripe lock if the buffer is empty, or so long that the computation wraps around. -/
theorem stripeCount_eq_zero_iff (h : sb.byteLength < 2 ^ 64) :
    sb.stripeCount = 0 ↔ sb.byteLength = 0 ∨ 2 ^ 64 - 64 < sb.byteLength := by
  rw [stripeCount, kStripeBytes, kMaxStripes]
  omega

/-- The index of a cell of a byte is in range. -/
theorem pageSlot_eq (byte : ℕ) (c : Fin kShadowCellsPerByte) :
    pageSlot (byte % kPageBytes * kShadowCellsPerByte + c) =
      some (inPageShadowIndex (inPageOffset byte) c) :=
  dif_pos (inPageShadowIndex (inPageOffset byte) c).isLt

theorem firstRace_cons (page : ShadowPage) (c : Fin kShadowCellsPerByte) (cs : List ℕ) :
    firstRace page (byte % kPageBytes) tid isWrite clk (c :: cs) =
      if (page (inPageShadowIndex (inPageOffset byte) c)).races tid isWrite clk then
        some (some (page (inPageShadowIndex (inPageOffset byte) c)))
      else firstRace page (byte % kPageBytes) tid isWrite clk cs := by
  rw [firstRace, pageSlot_eq]
  rfl

/-- The search for a race among the cells of a byte. -/
theorem firstRace_eq (page : ShadowPage) (cs : List (Fin kShadowCellsPerByte)) :
    firstRace page (byte % kPageBytes) tid isWrite clk (cs.map Fin.val) =
      some ((cs.find? fun c ↦
        (page (inPageShadowIndex (inPageOffset byte) c)).races tid isWrite clk).map fun c ↦
          page (inPageShadowIndex (inPageOffset byte) c)) := by
  induction cs with
  | nil => rfl
  | cons c cs ih =>
    rw [List.map_cons, firstRace_cons, List.find?_cons, ih]
    cases (page (inPageShadowIndex (inPageOffset byte) c)).races tid isWrite clk <;> rfl

/-- With a stripe lock, the indices on one byte are in range. -/
theorem recordByteIndexed_eq (h : sb.stripeCount ≠ 0) :
    sb.recordByteIndexed byte tid isWrite clk = some (sb.recordByte byte tid isWrite clk) := by
  have hstripe : byte / kStripeBytes % sb.stripeCount < sb.stripeCount :=
    Nat.mod_lt _ (Nat.pos_of_ne_zero h)
  have hrange : List.range kShadowCellsPerByte =
      (List.finRange kShadowCellsPerByte).map Fin.val := by rw [List.map_coe_finRange_eq_range]
  have hevict : pageSlot (byte % kPageBytes * kShadowCellsPerByte + tid % kShadowCellsPerByte) =
      some (inPageShadowIndex (inPageOffset byte) (evictSlot tid)) :=
    pageSlot_eq byte (evictSlot tid)
  simp only [recordByteIndexed, stripeIndex, h, if_false, Option.bind_eq_bind, Option.bind_some,
    hstripe, if_true, hrange, firstRace_eq, hevict, Option.map_map]
  rfl

/-- The indices of an access are in range if there is a stripe lock for its bytes. -/
theorem recordBytesIndexed_eq (h : sb.byteLength ≤ 2 ^ 64 - 64) :
    sb.recordBytesIndexed offset size tid isWrite clk =
      some (sb.recordAccess offset size tid isWrite clk) := by
  induction size generalizing sb offset with
  | zero => rfl
  | succ size ih =>
    by_cases ho : offset < sb.byteLength
    · have hcount : sb.stripeCount ≠ 0 := by
        rw [Ne, stripeCount_eq_zero_iff (by omega)]
        omega
      rw [recordBytesIndexed, if_pos ho, recordByteIndexed_eq hcount]
      cases hr : (sb.recordByte offset tid isWrite clk).1 with
      | none =>
        rw [recordAccess_of_none ho hr, ← ih (by rwa [recordByte_byteLength])]
        generalize sb.recordByte offset tid isWrite clk = res at hr ⊢
        obtain ⟨_, sb'⟩ := res
        subst hr
        rfl
      | some report =>
        rw [recordAccess_of_some ho hr]
        generalize sb.recordByte offset tid isWrite clk = res at hr ⊢
        obtain ⟨_, sb'⟩ := res
        subst hr
        rfl
    · rw [recordBytesIndexed, if_neg ho, recordAccess_of_le (not_lt.mp ho)]

/-- The indices of the shadow with pages are in range, for every buffer that is at least 64 bytes
shorter than the address space. -/
theorem recordIndexed_eq (h : sb.byteLength ≤ 2 ^ 64 - 64) (access : ShadowAccess) :
    sb.recordIndexed access = some (sb.recordAccess access.offset access.size access.tid
      access.isWrite access.threadClock) := recordBytesIndexed_eq h

end ShadowBuffer

/-! ### The two shadows -/

namespace FlatShadow

/-- A shadow with pages and a flat one belong to the same buffer and hold the same cells. -/
structure Matches (sb : ShadowBuffer) (flat : FlatShadow) : Prop where
  backingStore : flat.backingStore = sb.backingStore
  byteLength : flat.byteLength = sb.byteLength
  shadow {byte : ℕ} (c : Fin kShadowCellsPerByte) : byte < sb.byteLength →
    flat.shadow (byte * kShadowCellsPerByte + c) = sb.cell byte c

variable {sb : ShadowBuffer} {flat : FlatShadow} {byte offset size : ℕ} {tid : Tid} {isWrite : Bool}
  {clk : VClock}

theorem matches_new (bs len : ℕ) : Matches (ShadowBuffer.new bs len) (new bs len) where
  backingStore := rfl
  byteLength := rfl
  shadow _ _ := rfl

/-- The flat shadow after an access is stored. -/
def stored (flat : FlatShadow) (byte : ℕ) (tid : Tid) (isWrite : Bool) (clk : VClock) :
    FlatShadow :=
  { flat with
    shadow := Function.update flat.shadow (byte * kShadowCellsPerByte + ShadowBuffer.evictSlot tid)
      (ShadowCell.ofAccess tid isWrite clk) }

/-- The indices of two cells are different. -/
theorem index_inj {b : ℕ} {c d : Fin kShadowCellsPerByte} :
    byte * kShadowCellsPerByte + (c : ℕ) = b * kShadowCellsPerByte + d ↔ byte = b ∧ c = d := by
  have hc := c.isLt
  have hd := d.isLt
  simp only [kShadowCellsPerByte] at hc hd
  simp only [kShadowCellsPerByte]
  omega

namespace Matches

variable (hm : Matches sb flat)
include hm

/-- The array has a cell for every cell of a byte, if its size does not wrap around. -/
theorem index_eq (hlen : sb.byteLength < 2 ^ 63) (hb : byte < sb.byteLength)
    (c : Fin kShadowCellsPerByte) :
    flat.index byte c = some (byte * kShadowCellsPerByte + c) := by
  have hc := c.isLt
  simp only [kShadowCellsPerByte] at hc
  have hsize : flat.shadowSize = sb.byteLength * kShadowCellsPerByte := by
    rw [shadowSize, hm.byteLength]
    exact Nat.mod_eq_of_lt (by simp only [kShadowCellsPerByte]; omega)
  have hidx : (byte * kShadowCellsPerByte + c) % 2 ^ 64 = byte * kShadowCellsPerByte + c :=
    Nat.mod_eq_of_lt (by simp only [kShadowCellsPerByte]; omega)
  rw [index, hsize, hidx]
  exact if_pos (by simp only [kShadowCellsPerByte]; omega)

theorem store_eq (hlen : sb.byteLength < 2 ^ 63) (hb : byte < sb.byteLength) :
    flat.store byte tid isWrite clk = some (flat.stored byte tid isWrite clk) := by
  have hidx : flat.index byte (tid % kShadowCellsPerByte) =
      some (byte * kShadowCellsPerByte + ShadowBuffer.evictSlot tid) :=
    hm.index_eq hlen hb (ShadowBuffer.evictSlot tid)
  rw [store, hidx]
  rfl

theorem raceReport_eq (cell : ShadowCell) :
    flat.raceReport byte cell tid isWrite clk = sb.raceReport byte cell tid isWrite clk := by
  rw [raceReport, hm.backingStore, hm.byteLength]
  rfl

/-- The loop over the cells of a byte finds the first one that races, and stores the access in any
case. -/
theorem recordCells_eq (hlen : sb.byteLength < 2 ^ 63) (hb : byte < sb.byteLength)
    (cs : List (Fin kShadowCellsPerByte)) :
    flat.recordCells byte tid isWrite clk (cs.map Fin.val) =
      some ((cs.find? fun c ↦ (sb.cell byte c).races tid isWrite clk).map fun c ↦
        sb.raceReport byte (sb.cell byte c) tid isWrite clk, flat.stored byte tid isWrite clk) := by
  induction cs with
  | nil =>
    rw [List.map_nil, recordCells, hm.store_eq hlen hb]
    rfl
  | cons c cs ih =>
    rw [List.map_cons, recordCells, hm.index_eq hlen hb, List.find?_cons, ih, hm.store_eq hlen hb]
    simp only [Option.bind_eq_bind, Option.bind_some, hm.shadow c hb, hm.raceReport_eq]
    cases (sb.cell byte c).races tid isWrite clk <;> rfl

/-- One byte of an access: the two loops find the same race. -/
theorem recordByte_eq (hlen : sb.byteLength < 2 ^ 63) (hb : byte < sb.byteLength) :
    flat.recordByte byte tid isWrite clk =
      some ((sb.recordByte byte tid isWrite clk).1, flat.stored byte tid isWrite clk) := by
  have hmutex : byte / 64 < flat.mutexCount := by
    rw [mutexCount, hm.byteLength]
    omega
  rw [recordByte, if_pos hmutex, ← List.map_coe_finRange_eq_range, hm.recordCells_eq hlen hb]
  simp only [ShadowBuffer.recordByte, ShadowBuffer.getOrCreatePage_page]

/-- The shadows match after the access is stored. -/
theorem stored : Matches (sb.recordByte byte tid isWrite clk).2
    (flat.stored byte tid isWrite clk) where
  backingStore := hm.backingStore.trans (ShadowBuffer.recordByte_backingStore ..).symm
  byteLength := hm.byteLength.trans (ShadowBuffer.recordByte_byteLength ..).symm
  shadow {b} c hb := by
    rw [ShadowBuffer.recordByte_byteLength] at hb
    rw [ShadowBuffer.recordByte_cell, FlatShadow.stored]
    dsimp only
    rw [Function.update_apply, hm.shadow c hb]
    exact if_congr index_inj rfl rfl

/-- A whole access: the two shadows give the same report, and match afterwards. -/
theorem exists_recordBytes (hlen : sb.byteLength < 2 ^ 63) :
    ∃ flat', flat.recordBytes offset size tid isWrite clk =
        some ((sb.recordAccess offset size tid isWrite clk).1, flat') ∧
      Matches (sb.recordAccess offset size tid isWrite clk).2 flat' := by
  induction size generalizing sb flat offset with
  | zero => exact ⟨flat, rfl, hm⟩
  | succ size ih =>
    by_cases ho : offset < sb.byteLength
    · rw [recordBytes, hm.byteLength, if_pos ho, hm.recordByte_eq hlen ho]
      cases hr : (sb.recordByte offset tid isWrite clk).1 with
      | none =>
        rw [ShadowBuffer.recordAccess_of_none ho hr]
        exact ih hm.stored (by rwa [ShadowBuffer.recordByte_byteLength])
      | some report =>
        rw [ShadowBuffer.recordAccess_of_some ho hr]
        exact ⟨_, rfl, hm.stored⟩
    · rw [recordBytes, hm.byteLength, if_neg ho, ShadowBuffer.recordAccess_of_le (not_lt.mp ho)]
      exact ⟨flat, rfl, hm⟩

end Matches

/-- The shadow with pages refines the flat one. For every buffer that is at least 64 bytes shorter
than the address space and every sequence of accesses, all its indices are in range; if moreover the
number of cells does not wrap around, so are those of the flat shadow, and the two give the same
reports. Different cells are never stored at the same place of the same page. -/
theorem shadow_refines (bs len : ℕ) :
    (len ≤ 2 ^ 64 - 64 → ∀ accesses, ∃ reports sb,
      runAll ShadowBuffer.recordIndexed (ShadowBuffer.new bs len) accesses = some (reports, sb)) ∧
    (len < 2 ^ 63 → ∀ accesses, ∃ reports sb flat,
      runAll ShadowBuffer.recordIndexed (ShadowBuffer.new bs len) accesses = some (reports, sb) ∧
        runAll recordAccess (new bs len) accesses = some (reports, flat)) ∧
    ∀ byte byte' c c', (ShadowBuffer.pageIndex byte,
        ShadowBuffer.inPageShadowIndex (ShadowBuffer.inPageOffset byte) c) =
      (ShadowBuffer.pageIndex byte',
        ShadowBuffer.inPageShadowIndex (ShadowBuffer.inPageOffset byte') c') →
      byte = byte' ∧ c = c' := by
  refine ⟨fun hlen accesses ↦ ?_, fun hlen accesses ↦ ?_, fun byte byte' c c' h ↦ ?_⟩
  · have hstep {sb : ShadowBuffer} (access : ShadowAccess) (h : sb.byteLength ≤ 2 ^ 64 - 64) :
        ∃ report sb', sb.recordIndexed access = some (report, sb') ∧
          sb'.byteLength ≤ 2 ^ 64 - 64 :=
      ⟨_, _, ShadowBuffer.recordIndexed_eq h access, by rwa [ShadowBuffer.recordAccess_byteLength]⟩
    obtain ⟨reports, sb, hrun, -⟩ := exists_runAll_of_invariant
      (P := fun sb : ShadowBuffer ↦ sb.byteLength ≤ 2 ^ 64 - 64) hstep
      (s := ShadowBuffer.new bs len) hlen accesses
    exact ⟨reports, sb, hrun⟩
  · have hstep {sb : ShadowBuffer} {flat : FlatShadow} (access : ShadowAccess)
        (h : Matches sb flat ∧ sb.byteLength < 2 ^ 63) :
        ∃ report sb' flat', sb.recordIndexed access = some (report, sb') ∧
          flat.recordAccess access = some (report, flat') ∧
            Matches sb' flat' ∧ sb'.byteLength < 2 ^ 63 := by
      obtain ⟨flat', hflat, hm⟩ := h.1.exists_recordBytes h.2
      exact ⟨_, _, flat', ShadowBuffer.recordIndexed_eq (by omega) access, hflat, hm,
        by rw [ShadowBuffer.recordAccess_byteLength]; exact h.2⟩
    obtain ⟨reports, sb, flat, hrun, hrun', -⟩ := exists_runAll_of_simulation
      (R := fun sb flat ↦ Matches sb flat ∧ sb.byteLength < 2 ^ 63) hstep
      ⟨matches_new bs len, hlen⟩ accesses
    exact ⟨reports, sb, flat, hrun, hrun'⟩
  · obtain ⟨hpage, hcell⟩ := Prod.mk.inj h
    obtain ⟨hoffset, hc⟩ := ShadowBuffer.inPageShadowIndex_inj.mp hcell
    exact ⟨ShadowBuffer.eq_of_pageIndex_of_inPageOffset hpage hoffset, hc⟩

/-- Thread 0 writes the first two bytes of the second page, and thread 1 four bytes across its
start. -/
def acrossPages : List ShadowAccess :=
  [⟨4096, 2, 0, true, VClock.empty.increment 0⟩, ⟨4094, 4, 1, true, VClock.empty.increment 1⟩]

/-- The race of the two threads, in a buffer of length `len`. -/
def acrossPagesReports (len : ℕ) : List (Option RaceReport) :=
  [none, some ⟨4096, 65536, len, 0, true, 1, 1, true, 1⟩]

/-- Both shadows of a buffer of two pages report the race behind the page boundary, as does the
shadow with pages of a buffer that fills half of the address space. Bytes 4095 and 8191 have the
same place in their pages, and different cells. -/
theorem acrossPages_refines :
    (∃ sb, runAll ShadowBuffer.recordIndexed (ShadowBuffer.new 65536 (2 ^ 63)) acrossPages =
      some (acrossPagesReports (2 ^ 63), sb)) ∧
    (∃ sb flat, runAll ShadowBuffer.recordIndexed (ShadowBuffer.new 65536 8192) acrossPages =
        some (acrossPagesReports 8192, sb) ∧
      runAll recordAccess (new 65536 8192) acrossPages =
        some (acrossPagesReports 8192, flat)) ∧
    ShadowBuffer.inPageOffset 4095 = ShadowBuffer.inPageOffset 8191 ∧
    ∀ c, (ShadowBuffer.pageIndex 4095,
        ShadowBuffer.inPageShadowIndex (ShadowBuffer.inPageOffset 4095) c) ≠
      (ShadowBuffer.pageIndex 8191,
        ShadowBuffer.inPageShadowIndex (ShadowBuffer.inPageOffset 8191) c) := by
  have hfound (len : ℕ) (h : len = 2 ^ 63 ∨ len = 8192) :
      (runAll ShadowBuffer.recordIndexed (ShadowBuffer.new 65536 len) acrossPages).map Prod.fst =
        some (acrossPagesReports len) := by
    rcases h with rfl | rfl <;> rfl
  refine ⟨?_, ?_, rfl, fun c h ↦ ?_⟩
  · obtain ⟨reports, sb, hrun⟩ := (shadow_refines 65536 (2 ^ 63)).1 (by decide) acrossPages
    have hreports := hfound (2 ^ 63) (.inl rfl)
    rw [hrun, Option.map_some, Option.some.injEq] at hreports
    exact ⟨sb, hreports ▸ hrun⟩
  · obtain ⟨reports, sb, flat, hrun, hrun'⟩ :=
      (shadow_refines 65536 8192).2.1 (by decide) acrossPages
    have hreports := hfound 8192 (.inr rfl)
    rw [hrun, Option.map_some, Option.some.injEq] at hreports
    exact ⟨sb, flat, hreports ▸ hrun, hreports ▸ hrun'⟩
  · exact absurd ((shadow_refines 65536 8192).2.2 4095 8191 c c h).1 (by decide)

/-- For a buffer that fills the address space the number of stripe locks wraps around to zero, and
the first access computes a remainder by zero. For a buffer that fills half of it the number of
cells of the flat shadow wraps around to zero, and only the shadow with pages can record an access.
-/
theorem exists_wrap :
    (∃ len access, len < 2 ^ 64 ∧
      runAll ShadowBuffer.recordIndexed (ShadowBuffer.new 4096 len) [access] = none) ∧
    ∃ len access, len < 2 ^ 64 ∧
      (∃ reports sb, runAll ShadowBuffer.recordIndexed (ShadowBuffer.new 4096 len) [access] =
        some (reports, sb)) ∧ runAll recordAccess (new 4096 len) [access] = none := by
  refine ⟨⟨2 ^ 64 - 1, ⟨0, 1, 0, true, VClock.empty⟩, by decide, ?_⟩,
    ⟨2 ^ 63, ⟨0, 1, 0, true, VClock.empty⟩, by decide, ?_, ?_⟩⟩
  · have hcount : (ShadowBuffer.new 4096 (2 ^ 64 - 1)).stripeCount = 0 :=
      (ShadowBuffer.stripeCount_eq_zero_iff (by decide)).mpr (.inr (by decide))
    have hlen : 0 < (ShadowBuffer.new 4096 (2 ^ 64 - 1)).byteLength := by decide
    have hstripe : (ShadowBuffer.new 4096 (2 ^ 64 - 1)).stripeIndex 0 = none := if_pos hcount
    rw [runAll, ShadowBuffer.recordIndexed, ShadowBuffer.recordBytesIndexed, if_pos hlen,
      ShadowBuffer.recordByteIndexed, hstripe]
    rfl
  · have hlen : (ShadowBuffer.new 4096 (2 ^ 63)).byteLength ≤ 2 ^ 64 - 64 := by decide
    exact ⟨_, _, runAll_cons (ShadowBuffer.recordIndexed_eq hlen _) rfl⟩
  · have hlen : 0 < (new 4096 (2 ^ 63)).byteLength := by decide
    have hindex : (new 4096 (2 ^ 63)).index 0 0 = none := by
      rw [index]
      exact if_neg (by decide)
    have hrange : List.range kShadowCellsPerByte = [0, 1] := rfl
    have hbyte : (new 4096 (2 ^ 63)).recordByte 0 0 true VClock.empty = none := by
      rw [recordByte, if_pos (by decide), hrange, recordCells, hindex]
      rfl
    rw [runAll, recordAccess, recordBytes, if_pos hlen, hbyte]
    rfl

end FlatShadow

end WebTSan
