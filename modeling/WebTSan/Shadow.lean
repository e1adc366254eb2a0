import WebTSan.VClock

/-!
# The shadow of one shared buffer

Every byte of a shared buffer has `kShadowCellsPerByte` shadow cells, each remembering one recent
access. The shadow is sparse: pages of cells are allocated when a byte of them is first accessed.
`ShadowBuffer.recordAccess` walks over the bytes of an access, compares each with its cells,
stores the access in the cell `tid % kShadowCellsPerByte` and stops after the first byte that
races. The locks of the source order concurrent calls and do not appear here.

`ShadowBuffer.cell` reads the shadow as a flat table of cells. The lemmas about `recordAccess` and
`clearRange` are stated for this table, so that later files never look at pages.

## Main definitions

* `WebTSan.ShadowCell.races`: the comparison of an access with one cell.
* `WebTSan.ShadowBuffer.recordAccess`, `WebTSan.ShadowBuffer.clearRange`.
* `WebTSan.ShadowBuffer.cell`: the cell table.

## Main results

* `WebTSan.ShadowBuffer.recordByte_cell`, `WebTSan.ShadowBuffer.recordByte_eq_none_iff`.
* `WebTSan.ShadowBuffer.recordAccess_isSome_iff`: a race is found exactly when some cell of some
  accessed byte races.
* `WebTSan.ShadowBuffer.recordAccess_cell`, `WebTSan.ShadowBuffer.clearRange_cell`: the cells after
  an access and after clearing.
* `WebTSan.ShadowBuffer.recordAccess_congr`: an access depends on the cells of its bytes only.
-/

namespace WebTSan

/-- Metadata about one recent access to a byte. -/
structure ShadowCell where
  /-- The thread that performed the access. -/
  tid : Tid := 0
  /-- The thread's own counter at the access. -/
  epoch : ℕ := 0
  isWrite : Bool := false
  valid : Bool := false
deriving DecidableEq, Repr

/-- What the detector knows about a race, the stored access first. -/
structure RaceReport where
  sabOffset : ℕ
  sabBackingStore : ℕ
  sabByteLength : ℕ
  tid1 : Tid
  isWrite1 : Bool
  epoch1 : ℕ
  tid2 : Tid
  isWrite2 : Bool
  epoch2 : ℕ
deriving DecidableEq, Repr

namespace ShadowCell

/-- The body of the inner loop of `RecordAccess`: whether an access by `tid` with the clock `clk`
races with the access stored in the cell. -/
def races (cell : ShadowCell) (tid : Tid) (isWrite : Bool) (clk : VClock) : Bool :=
  if !cell.valid then false
  else if cell.tid = tid then false
  else if !cell.isWrite && !isWrite then false
  else if clk cell.tid ≥ cell.epoch then false
  else true

theorem races_iff {cell : ShadowCell} {tid : Tid} {isWrite : Bool} {clk : VClock} :
    cell.races tid isWrite clk = true ↔ cell.valid = true ∧ cell.tid ≠ tid ∧
      (cell.isWrite = true ∨ isWrite = true) ∧ clk cell.tid < cell.epoch := by
  unfold races
  cases cell.isWrite <;> cases isWrite <;> split_ifs <;> simp_all

/-- The cell that an access leaves behind. -/
def ofAccess (tid : Tid) (isWrite : Bool) (clk : VClock) : ShadowCell :=
  { tid := tid, epoch := clk tid, isWrite := isWrite, valid := true }

end ShadowCell

/-- Bytes covered by one shadow page. -/
def kPageBytes : ℕ := 4096

/-- Cells of one shadow page. -/
def kPageCells : ℕ := kPageBytes * kShadowCellsPerByte

/-- The cells of one page. -/
abbrev ShadowPage := Fin kPageCells → ShadowCell

/-- The shadow state of a shared buffer. -/
structure ShadowBuffer where
  backingStore : ℕ
  byteLength : ℕ
  /-- The page table; only touched pages are allocated. -/
  pages : ℕ → Option ShadowPage

namespace ShadowBuffer

/-- The constructor, without any page. -/
def new (backingStore byteLength : ℕ) : ShadowBuffer :=
  { backingStore := backingStore, byteLength := byteLength, pages := fun _ ↦ none }

def pageIndex (byteOffset : ℕ) : ℕ := byteOffset / kPageBytes

def inPageOffset (byteOffset : ℕ) : Fin kPageBytes :=
  ⟨byteOffset % kPageBytes, Nat.mod_lt _ (by decide)⟩

def inPageShadowIndex (inPage : Fin kPageBytes) (c : Fin kShadowCellsPerByte) : Fin kPageCells :=
  ⟨inPage * kShadowCellsPerByte + c, by
    have h₁ := inPage.isLt
    have h₂ := c.isLt
    simp only [kPageBytes, kShadowCellsPerByte, kPageCells] at *
    omega⟩

/-- The cell of a byte in which an access by `tid` is stored. -/
def evictSlot (tid : Tid) : Fin kShadowCellsPerByte :=
  ⟨tid % kShadowCellsPerByte, Nat.mod_lt _ (by decide)⟩

/-- The page of the given index, allocated if it is missing. -/
def getOrCreatePage (sb : ShadowBuffer) (pageIdx : ℕ) : ShadowPage × ShadowBuffer :=
  match sb.pages pageIdx with
  | some page => (page, sb)
  | none => (fun _ ↦ {}, { sb with pages := Function.update sb.pages pageIdx (some fun _ ↦ {}) })

/-- The report that `RecordAccess` fills in for a racing cell. -/
def raceReport (sb : ShadowBuffer) (byte : ℕ) (cell : ShadowCell) (tid : Tid) (isWrite : Bool)
    (clk : VClock) : RaceReport :=
  { sabOffset := byte
    sabBackingStore := sb.backingStore
    sabByteLength := sb.byteLength
    tid1 := cell.tid
    isWrite1 := cell.isWrite
    epoch1 := cell.epoch
    tid2 := tid
    isWrite2 := isWrite
    epoch2 := clk tid }

/-- The body of the outer loop of `RecordAccess`: compare one byte with its cells, then store the
access. -/
def recordByte (sb : ShadowBuffer) (byte : ℕ) (tid : Tid) (isWrite : Bool) (clk : VClock) :
    Option RaceReport × ShadowBuffer :=
  let created := sb.getOrCreatePage (pageIndex byte)
  let page := created.1
  let inPage := inPageOffset byte
  let race := (List.finRange kShadowCellsPerByte).find? fun c ↦
    (page (inPageShadowIndex inPage c)).races tid isWrite clk
  let page' := Function.update page (inPageShadowIndex inPage (evictSlot tid))
    (ShadowCell.ofAccess tid isWrite clk)
  (race.map fun c ↦ sb.raceReport byte (page (inPageShadowIndex inPage c)) tid isWrite clk,
    { created.2 with pages := Function.update created.2.pages (pageIndex byte) (some page') })

/-- `RecordAccess` on `size` bytes from `offset`: the report when a race is found, and the shadow
afterwards. The loop stops at the end of the buffer, so that `offset + i` cannot wrap around. -/
def recordAccess (sb : ShadowBuffer) (offset : ℕ) : (size : ℕ) → (tid : Tid) → (isWrite : Bool) →
    (clk : VClock) → Option RaceReport × ShadowBuffer
  | 0, _, _, _ => (none, sb)
  | size + 1, tid, isWrite, clk =>
    if offset < sb.byteLength then
      match sb.recordByte offset tid isWrite clk with
      | (some report, sb') => (some report, sb')
      | (none, sb') => sb'.recordAccess (offset + 1) size tid isWrite clk
    else (none, sb)

/-- Invalidate the cells of one byte of a page. -/
def clearByte (page : ShadowPage) (inPage : Fin kPageBytes) : ShadowPage :=
  (List.finRange kShadowCellsPerByte).foldl (fun page c ↦
    Function.update page (inPageShadowIndex inPage c)
      { page (inPageShadowIndex inPage c) with valid := false }) page

/-- The inner loop of `ClearRange`, over `count` bytes from `byte`. -/
def clearBytes (page : ShadowPage) (byte : ℕ) : (count : ℕ) → ShadowPage
  | 0 => page
  | count + 1 => clearBytes (clearByte page (inPageOffset byte)) (byte + 1) count

/-- The outer loop of `ClearRange`, which skips pages that are not allocated. Page boundaries are
computed modulo `2 ^ 64`; without a result the loop does not end within `fuel` rounds. -/
def clearLoop (endByte : ℕ) : (fuel : ℕ) → (byte : ℕ) → ShadowBuffer → Option ShadowBuffer
  | 0, byte, sb => if byte < endByte then none else some sb
  | fuel + 1, byte, sb =>
    if byte < endByte then
      let pageIdx := pageIndex byte
      let nextPage := (pageIdx + 1) * kPageBytes % 2 ^ 64
      match sb.pages pageIdx with
      | none => clearLoop endByte fuel nextPage sb
      | some page =>
        let pageEnd := min endByte nextPage
        let page' := clearBytes page byte (pageEnd - byte)
        clearLoop endByte fuel (max byte pageEnd)
          { sb with pages := Function.update sb.pages pageIdx (some page') }
    else some sb

/-- `ClearRange`. Every round moves on by at least one byte, unless a page boundary wraps around
and the loop never ends; so `endByte + 1` rounds decide. -/
def clearRange (sb : ShadowBuffer) (offset size : ℕ) : Option ShadowBuffer :=
  let sum := (offset + size) % 2 ^ 64
  let endByte := if sum > sb.byteLength then sb.byteLength else sum
  clearLoop endByte (endByte + 1) offset sb

/-! ### The cell table -/

/-- The cell `c` of a byte, invalid where no page is allocated. -/
def cell (sb : ShadowBuffer) (byte : ℕ) (c : Fin kShadowCellsPerByte) : ShadowCell :=
  match sb.pages (pageIndex byte) with
  | some page => page (inPageShadowIndex (inPageOffset byte) c)
  | none => {}

theorem inPageShadowIndex_inj {i j : Fin kPageBytes} {c d : Fin kShadowCellsPerByte} :
    inPageShadowIndex i c = inPageShadowIndex j d ↔ i = j ∧ c = d := by
  have hc := c.isLt
  have hd := d.isLt
  simp only [kShadowCellsPerByte] at hc hd
  simp only [inPageShadowIndex, kShadowCellsPerByte, Fin.ext_iff]
  omega

theorem eq_of_pageIndex_of_inPageOffset {a b : ℕ} (h₁ : pageIndex a = pageIndex b)
    (h₂ : inPageOffset a = inPageOffset b) : a = b := by
  simp only [pageIndex, inPageOffset, kPageBytes, Fin.mk.injEq] at h₁ h₂
  omega

/-- Storing a page changes the cells of the bytes of that page only. -/
theorem cell_update_pages (sb : ShadowBuffer) (pageIdx : ℕ) (page : ShadowPage) (byte : ℕ)
    (c : Fin kShadowCellsPerByte) :
    ({ sb with pages := Function.update sb.pages pageIdx (some page) } : ShadowBuffer).cell byte c =
      if pageIndex byte = pageIdx then page (inPageShadowIndex (inPageOffset byte) c)
      else sb.cell byte c := by
  by_cases h : pageIndex byte = pageIdx
  · simp [cell, h]
  · simp [cell, h]

theorem getOrCreatePage_page (sb : ShadowBuffer) (byte : ℕ) (c : Fin kShadowCellsPerByte) :
    (sb.getOrCreatePage (pageIndex byte)).1 (inPageShadowIndex (inPageOffset byte) c) =
      sb.cell byte c := by
  unfold getOrCreatePage cell
  cases sb.pages (pageIndex byte) <;> rfl

theorem getOrCreatePage_cell (sb : ShadowBuffer) (pageIdx byte : ℕ)
    (c : Fin kShadowCellsPerByte) :
    (sb.getOrCreatePage pageIdx).2.cell byte c = sb.cell byte c := by
  unfold getOrCreatePage
  cases h : sb.pages pageIdx with
  | some page => rfl
  | none =>
    rw [cell_update_pages]
    split_ifs with hp
    · simp [cell, hp, h]
    · rfl

@[simp] theorem getOrCreatePage_byteLength (sb : ShadowBuffer) (pageIdx : ℕ) :
    (sb.getOrCreatePage pageIdx).2.byteLength = sb.byteLength := by
  unfold getOrCreatePage
  cases sb.pages pageIdx <;> rfl

@[simp] theorem getOrCreatePage_backingStore (sb : ShadowBuffer) (pageIdx : ℕ) :
    (sb.getOrCreatePage pageIdx).2.backingStore = sb.backingStore := by
  unfold getOrCreatePage
  cases sb.pages pageIdx <;> rfl

/-! ### One byte of an access -/

section RecordByte

variable (sb : ShadowBuffer) (byte : ℕ) (tid : Tid) (isWrite : Bool) (clk : VClock)

@[simp] theorem recordByte_byteLength :
    (sb.recordByte byte tid isWrite clk).2.byteLength = sb.byteLength :=
  getOrCreatePage_byteLength ..

@[simp] theorem recordByte_backingStore :
    (sb.recordByte byte tid isWrite clk).2.backingStore = sb.backingStore :=
  getOrCreatePage_backingStore ..

/-- The access is stored in its slot of the byte, and nothing else changes. -/
theorem recordByte_cell (b : ℕ) (c : Fin kShadowCellsPerByte) :
    (sb.recordByte byte tid isWrite clk).2.cell b c =
      if b = byte ∧ c = evictSlot tid then ShadowCell.ofAccess tid isWrite clk
      else sb.cell b c := by
  simp only [recordByte, cell_update_pages, getOrCreatePage_cell]
  by_cases hp : pageIndex b = pageIndex byte
  · rw [if_pos hp]
    by_cases h : inPageOffset b = inPageOffset byte ∧ c = evictSlot tid
    · have hb : b = byte := eq_of_pageIndex_of_inPageOffset hp h.1
      rw [if_pos ⟨hb, h.2⟩, h.1, h.2, Function.update_self]
    · have hb : ¬(b = byte ∧ c = evictSlot tid) := fun hb ↦ h ⟨hb.1 ▸ rfl, hb.2⟩
      rw [if_neg hb, Function.update_of_ne (mt inPageShadowIndex_inj.mp h), ← hp,
        getOrCreatePage_page]
  · have hb : ¬(b = byte ∧ c = evictSlot tid) := fun hb ↦ hp (hb.1 ▸ rfl)
    rw [if_neg hp, if_neg hb]

/-- A report on a byte is about a cell of this byte that races. -/
theorem exists_of_recordByte_eq_some {report : RaceReport}
    (h : (sb.recordByte byte tid isWrite clk).1 = some report) :
    ∃ c, (sb.cell byte c).races tid isWrite clk = true ∧
      report = sb.raceReport byte (sb.cell byte c) tid isWrite clk := by
  simp only [recordByte, getOrCreatePage_page, Option.map_eq_some_iff] at h
  obtain ⟨c, hc, rfl⟩ := h
  have hraces := List.find?_some hc
  exact ⟨c, hraces, rfl⟩

/-- No race is reported on a byte exactly when none of its cells races. -/
theorem recordByte_eq_none_iff : (sb.recordByte byte tid isWrite clk).1 = none ↔
    ∀ c, (sb.cell byte c).races tid isWrite clk = false := by
  simp [recordByte, getOrCreatePage_page]

end RecordByte

/-! ### Whole accesses -/

section RecordAccess

variable {sb : ShadowBuffer} {offset size : ℕ} {tid : Tid} {isWrite : Bool} {clk : VClock}

theorem recordAccess_of_le (h : sb.byteLength ≤ offset) :
    sb.recordAccess offset size tid isWrite clk = (none, sb) := by
  cases size with
  | zero => rfl
  | succ size => rw [recordAccess, if_neg (not_lt.mpr h)]

theorem recordAccess_of_some (h : offset < sb.byteLength) {report : RaceReport}
    (hr : (sb.recordByte offset tid isWrite clk).1 = some report) :
    sb.recordAccess offset (size + 1) tid isWrite clk =
      (some report, (sb.recordByte offset tid isWrite clk).2) := by
  rw [recordAccess, if_pos h]
  generalize sb.recordByte offset tid isWrite clk = res at hr ⊢
  obtain ⟨_, sb'⟩ := res
  subst hr
  rfl

theorem recordAccess_of_none (h : offset < sb.byteLength)
    (hr : (sb.recordByte offset tid isWrite clk).1 = none) :
    sb.recordAccess offset (size + 1) tid isWrite clk =
      (sb.recordByte offset tid isWrite clk).2.recordAccess (offset + 1) size tid isWrite clk := by
  rw [recordAccess, if_pos h]
  generalize sb.recordByte offset tid isWrite clk = res at hr ⊢
  obtain ⟨_, sb'⟩ := res
  subst hr
  rfl

/-- An access to one byte of the buffer. -/
theorem recordAccess_one (h : offset < sb.byteLength) :
    sb.recordAccess offset 1 tid isWrite clk = sb.recordByte offset tid isWrite clk := by
  cases hr : (sb.recordByte offset tid isWrite clk).1 with
  | some report => rw [recordAccess_of_some h hr, ← hr]
  | none => rw [recordAccess_of_none h hr, recordAccess, ← hr]

/-- The cells after the first byte of an access, seen from a later byte. -/
theorem recordByte_cell_of_lt {b : ℕ} (h : offset < b) (c : Fin kShadowCellsPerByte) :
    (sb.recordByte offset tid isWrite clk).2.cell b c = sb.cell b c := by
  rw [recordByte_cell, if_neg fun hb ↦ h.ne' hb.1]

/-- What recording one byte preserves is preserved by an access. -/
theorem recordAccess_invariant {P : ShadowBuffer → Prop}
    (hstep : ∀ sb offset, P sb → P (sb.recordByte offset tid isWrite clk).2) (h : P sb) :
    P (sb.recordAccess offset size tid isWrite clk).2 := by
  induction size generalizing sb offset with
  | zero => exact h
  | succ size ih =>
    by_cases ho : offset < sb.byteLength
    · cases hr : (sb.recordByte offset tid isWrite clk).1 with
      | none =>
        rw [recordAccess_of_none ho hr]
        exact ih (hstep sb offset h)
      | some report =>
        rw [recordAccess_of_some ho hr]
        exact hstep sb offset h
    · rwa [recordAccess_of_le (not_lt.mp ho)]

@[simp] theorem recordAccess_byteLength :
    (sb.recordAccess offset size tid isWrite clk).2.byteLength = sb.byteLength :=
  recordAccess_invariant (P := fun sb' ↦ sb'.byteLength = sb.byteLength)
    (fun _ _ h ↦ by rw [recordByte_byteLength, h]) rfl

@[simp] theorem recordAccess_backingStore :
    (sb.recordAccess offset size tid isWrite clk).2.backingStore = sb.backingStore :=
  recordAccess_invariant (P := fun sb' ↦ sb'.backingStore = sb.backingStore)
    (fun _ _ h ↦ by rw [recordByte_backingStore, h]) rfl

/-- A report is about an accessed byte and one of its cells, as they were before the access. -/
theorem exists_of_recordAccess_eq_some {report : RaceReport}
    (h : (sb.recordAccess offset size tid isWrite clk).1 = some report) :
    ∃ b c, offset ≤ b ∧ b < offset + size ∧ b < sb.byteLength ∧
      (sb.cell b c).races tid isWrite clk = true ∧
      report = sb.raceReport b (sb.cell b c) tid isWrite clk := by
  induction size generalizing sb offset with
  | zero => cases h
  | succ size ih =>
    by_cases ho : offset < sb.byteLength
    · cases hr : (sb.recordByte offset tid isWrite clk).1 with
      | none =>
        rw [recordAccess_of_none ho hr] at h
        obtain ⟨b, c, hb, hb', hlen, hraces, hreport⟩ := ih h
        rw [recordByte_cell_of_lt hb] at hraces hreport
        rw [recordByte_byteLength] at hlen
        refine ⟨b, c, by omega, by omega, hlen, hraces, hreport.trans ?_⟩
        simp only [raceReport, recordByte_backingStore, recordByte_byteLength]
      | some report' =>
        rw [recordAccess_of_some ho hr] at h
        obtain rfl : report' = report := Option.some.inj h
        obtain ⟨c, hraces, hreport⟩ := exists_of_recordByte_eq_some _ _ _ _ _ hr
        exact ⟨offset, c, le_rfl, by omega, ho, hraces, hreport⟩
    · rw [recordAccess_of_le (not_lt.mp ho)] at h
      cases h

/-- If a cell of an accessed byte races, a race is found. -/
theorem recordAccess_isSome {b : ℕ} {c : Fin kShadowCellsPerByte} (hb : offset ≤ b)
    (hb' : b < offset + size) (hlen : b < sb.byteLength)
    (hraces : (sb.cell b c).races tid isWrite clk = true) :
    (sb.recordAccess offset size tid isWrite clk).1.isSome = true := by
  induction size generalizing sb offset with
  | zero => omega
  | succ size ih =>
    have ho : offset < sb.byteLength := hb.trans_lt hlen
    cases hr : (sb.recordByte offset tid isWrite clk).1 with
    | some report => rw [recordAccess_of_some ho hr]; rfl
    | none =>
      have hne : b ≠ offset := by
        rintro rfl
        rw [(recordByte_eq_none_iff ..).mp hr c] at hraces
        cases hraces
      have hlt : offset < b := lt_of_le_of_ne hb hne.symm
      rw [recordAccess_of_none ho hr]
      refine ih hlt (by omega) ?_ ?_
      · rwa [recordByte_byteLength]
      · rwa [recordByte_cell_of_lt hlt]

/-- A race is found exactly when some cell of some accessed byte races. -/
theorem recordAccess_isSome_iff : (sb.recordAccess offset size tid isWrite clk).1.isSome = true ↔
    ∃ b c, offset ≤ b ∧ b < offset + size ∧ b < sb.byteLength ∧
      (sb.cell b c).races tid isWrite clk = true := by
  constructor
  · intro h
    obtain ⟨report, hreport⟩ := Option.isSome_iff_exists.mp h
    obtain ⟨b, c, hb, hb', hlen, hraces, -⟩ := exists_of_recordAccess_eq_some hreport
    exact ⟨b, c, hb, hb', hlen, hraces⟩
  · rintro ⟨b, c, hb, hb', hlen, hraces⟩
    exact recordAccess_isSome hb hb' hlen hraces

/-- After an access every cell is as before, or holds this access on one of its bytes. -/
theorem recordAccess_cell (b : ℕ) (c : Fin kShadowCellsPerByte) :
    (sb.recordAccess offset size tid isWrite clk).2.cell b c = sb.cell b c ∨
      (sb.recordAccess offset size tid isWrite clk).2.cell b c =
          ShadowCell.ofAccess tid isWrite clk ∧
        offset ≤ b ∧ b < offset + size ∧ b < sb.byteLength ∧ c = evictSlot tid := by
  induction size generalizing sb offset with
  | zero => exact .inl rfl
  | succ size ih =>
    by_cases ho : offset < sb.byteLength
    · have hbyte : (sb.recordByte offset tid isWrite clk).2.cell b c = sb.cell b c ∨
          (sb.recordByte offset tid isWrite clk).2.cell b c =
            ShadowCell.ofAccess tid isWrite clk ∧ b = offset ∧ c = evictSlot tid := by
        rw [recordByte_cell]
        split_ifs with h
        · exact .inr ⟨rfl, h⟩
        · exact .inl rfl
      cases hr : (sb.recordByte offset tid isWrite clk).1 with
      | some report =>
        rw [recordAccess_of_some ho hr]
        rcases hbyte with h | ⟨h, rfl, hc⟩
        · exact .inl h
        · exact .inr ⟨h, le_rfl, by omega, ho, hc⟩
      | none =>
        rw [recordAccess_of_none ho hr]
        rcases @ih (sb.recordByte offset tid isWrite clk).2 (offset + 1) with
          h | ⟨h, hb, hb', hlen, hc⟩
        · rcases hbyte with h' | ⟨h', rfl, hc⟩
          · exact .inl (h.trans h')
          · exact .inr ⟨h.trans h', le_rfl, by omega, ho, hc⟩
        · rw [recordByte_byteLength] at hlen
          exact .inr ⟨h, by omega, by omega, hlen, hc⟩
    · rw [recordAccess_of_le (not_lt.mp ho)]
      exact .inl rfl

/-- The first byte of an access always stores it. -/
theorem recordAccess_cell_offset (h : offset < sb.byteLength) :
    (sb.recordAccess offset (size + 1) tid isWrite clk).2.cell offset (evictSlot tid) =
      ShadowCell.ofAccess tid isWrite clk := by
  have hbyte : (sb.recordByte offset tid isWrite clk).2.cell offset (evictSlot tid) =
      ShadowCell.ofAccess tid isWrite clk := by
    rw [recordByte_cell, if_pos ⟨rfl, rfl⟩]
  cases hr : (sb.recordByte offset tid isWrite clk).1 with
  | some report => rw [recordAccess_of_some h hr, hbyte]
  | none =>
    rw [recordAccess_of_none h hr]
    rcases @recordAccess_cell (sb.recordByte offset tid isWrite clk).2 (offset + 1) size tid isWrite
      clk offset (evictSlot tid) with hc | ⟨hc, -⟩
    · rw [hc, hbyte]
    · exact hc

/-- The other bytes are left alone. -/
theorem recordAccess_cell_of_not_mem {b : ℕ} (hb : ¬(offset ≤ b ∧ b < offset + size))
    (c : Fin kShadowCellsPerByte) :
    (sb.recordAccess offset size tid isWrite clk).2.cell b c = sb.cell b c := by
  rcases recordAccess_cell b c with h | ⟨-, hle, hlt, -⟩
  · exact h
  · exact absurd ⟨hle, hlt⟩ hb

/-- What an access finds and what it leaves on its bytes depends on the cells of its bytes only. -/
theorem recordAccess_congr {sb' : ShadowBuffer} (hlen : sb.byteLength = sb'.byteLength)
    (h : ∀ b c, offset ≤ b → b < offset + size → sb.cell b c = sb'.cell b c) :
    (sb.recordAccess offset size tid isWrite clk).1.isSome =
        (sb'.recordAccess offset size tid isWrite clk).1.isSome ∧
      ∀ b c, offset ≤ b → b < offset + size →
        (sb.recordAccess offset size tid isWrite clk).2.cell b c =
          (sb'.recordAccess offset size tid isWrite clk).2.cell b c := by
  induction size generalizing sb sb' offset with
  | zero => exact ⟨rfl, h⟩
  | succ size ih =>
    by_cases ho : offset < sb.byteLength
    · have ho' : offset < sb'.byteLength := hlen ▸ ho
      have hcell (b : ℕ) (c : Fin kShadowCellsPerByte) (hb : offset ≤ b)
          (hb' : b < offset + (size + 1)) :
          (sb.recordByte offset tid isWrite clk).2.cell b c =
            (sb'.recordByte offset tid isWrite clk).2.cell b c := by
        rw [recordByte_cell, recordByte_cell, h b c hb hb']
      have hnone : (sb.recordByte offset tid isWrite clk).1 = none ↔
          (sb'.recordByte offset tid isWrite clk).1 = none := by
        rw [recordByte_eq_none_iff, recordByte_eq_none_iff]
        exact forall_congr' fun c ↦ by rw [h offset c le_rfl (by omega)]
      cases hr : (sb.recordByte offset tid isWrite clk).1 with
      | some report =>
        have hne : (sb'.recordByte offset tid isWrite clk).1 ≠ none := fun hr' ↦ by
          rw [hnone.mpr hr'] at hr
          cases hr
        obtain ⟨report', hr'⟩ := Option.ne_none_iff_exists'.mp hne
        rw [recordAccess_of_some ho hr, recordAccess_of_some ho' hr']
        exact ⟨rfl, hcell⟩
      | none =>
        rw [recordAccess_of_none ho hr, recordAccess_of_none ho' (hnone.mp hr)]
        obtain ⟨hfound, hrest⟩ := @ih (sb.recordByte offset tid isWrite clk).2 (offset + 1)
          (sb'.recordByte offset tid isWrite clk).2 (by simpa using hlen)
          fun b c hb hb' ↦ hcell b c (by omega) (by omega)
        refine ⟨hfound, fun b c hb hb' ↦ ?_⟩
        rcases Nat.eq_or_lt_of_le hb with rfl | hlt
        · rw [recordAccess_cell_of_not_mem (by omega), recordAccess_cell_of_not_mem (by omega)]
          exact hcell offset c le_rfl hb'
        · exact hrest b c hlt (by omega)
    · rw [recordAccess_of_le (not_lt.mp ho), recordAccess_of_le (not_lt.mp (hlen ▸ ho))]
      exact ⟨rfl, h⟩

end RecordAccess

/-! ### Clearing -/

theorem clearByte_apply (page : ShadowPage) (inPage : Fin kPageBytes) (i : Fin kPageCells) :
    clearByte page inPage i = page i ∨
      clearByte page inPage i = { page i with valid := false } := by
  simp only [clearByte, List.finRange, kShadowCellsPerByte, List.ofFn_succ, List.ofFn_zero,
    List.foldl_cons, List.foldl_nil, Function.update_apply]
  split_ifs <;> simp_all

theorem clearBytes_apply (page : ShadowPage) (byte count : ℕ) (i : Fin kPageCells) :
    clearBytes page byte count i = page i ∨
      clearBytes page byte count i = { page i with valid := false } := by
  induction count generalizing page byte with
  | zero => exact .inl rfl
  | succ count ih =>
    rcases ih (clearByte page (inPageOffset byte)) (byte + 1) with h | h <;>
      rcases clearByte_apply page (inPageOffset byte) i with h' | h' <;> simp [clearBytes, h, h']

/-- What clearing bytes of one page preserves is preserved by the loop over the pages. -/
theorem clearLoop_invariant {P : ShadowBuffer → Prop} {endByte fuel byte : ℕ}
    {sb sb' : ShadowBuffer} (h : clearLoop endByte fuel byte sb = some sb')
    (hstep : ∀ (sb : ShadowBuffer) (byte count : ℕ) {page : ShadowPage},
      sb.pages (pageIndex byte) = some page → P sb → P { sb with
        pages := Function.update sb.pages (pageIndex byte) (some (clearBytes page byte count)) })
    (hsb : P sb) : P sb' := by
  induction fuel generalizing byte sb with
  | zero =>
    simp only [clearLoop] at h
    split_ifs at h
    exact Option.some.inj h ▸ hsb
  | succ fuel ih =>
    simp only [clearLoop] at h
    split_ifs at h
    · cases hp : sb.pages (pageIndex byte) with
      | none =>
        rw [hp] at h
        exact ih h hsb
      | some page =>
        rw [hp] at h
        exact ih h (hstep sb byte _ hp hsb)
    · exact Option.some.inj h ▸ hsb

theorem clearLoop_cell {endByte fuel byte : ℕ} {sb sb' : ShadowBuffer}
    (h : clearLoop endByte fuel byte sb = some sb') (b : ℕ) (c : Fin kShadowCellsPerByte) :
    sb'.cell b c = sb.cell b c ∨ sb'.cell b c = { sb.cell b c with valid := false } := by
  refine clearLoop_invariant (P := fun sb' ↦ sb'.cell b c = sb.cell b c ∨
    sb'.cell b c = { sb.cell b c with valid := false }) h (fun sb₁ byte count page hp h₁ ↦ ?_)
    (.inl rfl)
  rw [cell_update_pages]
  split_ifs with hb
  · have hcell : sb₁.cell b c = page (inPageShadowIndex (inPageOffset b) c) := by
      simp only [cell, hb, hp]
    rw [hcell] at h₁
    rcases clearBytes_apply page byte count (inPageShadowIndex (inPageOffset b) c) with h' | h'
    · rwa [h']
    · rw [h']
      rcases h₁ with h₁ | h₁ <;> simp [h₁]
  · exact h₁

theorem clearByte_valid (page : ShadowPage) (inPage : Fin kPageBytes)
    (c : Fin kShadowCellsPerByte) :
    (clearByte page inPage (inPageShadowIndex inPage c)).valid = false := by
  -- a cell is cleared when the loop reaches it and stays invalid from then on
  have hfold (cs : List (Fin kShadowCellsPerByte)) (page : ShadowPage)
      (hc : c ∈ cs ∨ (page (inPageShadowIndex inPage c)).valid = false) :
      (cs.foldl (fun page c ↦ Function.update page (inPageShadowIndex inPage c)
        { page (inPageShadowIndex inPage c) with valid := false }) page
        (inPageShadowIndex inPage c)).valid = false := by
    induction cs generalizing page with
    | nil => simpa using hc
    | cons d cs ih =>
      rw [List.foldl_cons]
      refine ih _ ?_
      by_cases hd : c = d
      · exact .inr (by rw [hd, Function.update_self])
      · rw [Function.update_of_ne fun h ↦ hd (inPageShadowIndex_inj.mp h).2]
        simpa [hd] using hc
  exact hfold _ page (.inl (List.mem_finRange c))

/-- The cells of the bytes that `clearBytes` walks over are invalid afterwards. -/
theorem clearBytes_valid (page : ShadowPage) {byte count b : ℕ} (hb : byte ≤ b)
    (hb' : b < byte + count) (c : Fin kShadowCellsPerByte) :
    (clearBytes page byte count (inPageShadowIndex (inPageOffset b) c)).valid = false := by
  induction count generalizing page byte with
  | zero => omega
  | succ count ih =>
    rw [clearBytes]
    rcases Nat.eq_or_lt_of_le hb with rfl | hlt
    · rcases clearBytes_apply (clearByte page (inPageOffset byte)) (byte + 1) count
        (inPageShadowIndex (inPageOffset byte) c) with h | h
      · rw [h, clearByte_valid]
      · rw [h]
    · exact ih _ hlt (by omega)

/-- A cell that is invalid before clearing is invalid afterwards. -/
theorem clearLoop_valid_of_not_valid {endByte fuel byte : ℕ} {sb sb' : ShadowBuffer}
    (h : clearLoop endByte fuel byte sb = some sb') {b : ℕ} {c : Fin kShadowCellsPerByte}
    (hc : (sb.cell b c).valid = false) : (sb'.cell b c).valid = false := by
  rcases clearLoop_cell h b c with h' | h'
  · rw [h', hc]
  · rw [h']

/-- The cells of the bytes that `clearLoop` walks over are invalid afterwards. A page boundary that
wraps around only lets it start again. -/
theorem clearLoop_valid {endByte fuel byte : ℕ} {sb sb' : ShadowBuffer}
    (h : clearLoop endByte fuel byte sb = some sb') {b : ℕ} (hb : byte ≤ b) (hb' : b < endByte)
    (c : Fin kShadowCellsPerByte) : (sb'.cell b c).valid = false := by
  induction fuel generalizing byte sb with
  | zero => simp [clearLoop, hb.trans_lt hb'] at h
  | succ fuel ih =>
    have hpage {nextPage : ℕ} (hnext : nextPage ≤ (pageIndex byte + 1) * kPageBytes)
        (hlt : b < nextPage) : pageIndex b = pageIndex byte := by
      simp only [pageIndex, kPageBytes] at *
      omega
    simp only [clearLoop, if_pos (hb.trans_lt hb')] at h
    cases hp : sb.pages (pageIndex byte) with
    | none =>
      rw [hp] at h
      rcases Nat.lt_or_ge b ((pageIndex byte + 1) * kPageBytes % 2 ^ 64) with hlt | hge
      · exact clearLoop_valid_of_not_valid h (by simp [cell, hpage (Nat.mod_le _ _) hlt, hp])
      · exact ih h hge
    | some page =>
      rw [hp] at h
      rcases Nat.lt_or_ge b (min endByte ((pageIndex byte + 1) * kPageBytes % 2 ^ 64)) with
        hlt | hge
      · have hb := hpage (Nat.mod_le _ _) (hlt.trans_le (min_le_right _ _))
        refine clearLoop_valid_of_not_valid h ?_
        rw [cell_update_pages, if_pos hb]
        exact clearBytes_valid page ‹byte ≤ b› (by omega) c
      · exact ih h (max_le hb hge)

theorem clearLoop_byteLength_backingStore {endByte fuel byte : ℕ} {sb sb' : ShadowBuffer}
    (h : clearLoop endByte fuel byte sb = some sb') :
    sb'.byteLength = sb.byteLength ∧ sb'.backingStore = sb.backingStore :=
  clearLoop_invariant
    (P := fun sb' ↦ sb'.byteLength = sb.byteLength ∧ sb'.backingStore = sb.backingStore) h
    (fun _ _ _ _ _ h ↦ h) ⟨rfl, rfl⟩

theorem clearRange_byteLength {sb sb' : ShadowBuffer} {offset size : ℕ}
    (h : sb.clearRange offset size = some sb') : sb'.byteLength = sb.byteLength :=
  (clearLoop_byteLength_backingStore h).1

theorem clearRange_backingStore {sb sb' : ShadowBuffer} {offset size : ℕ}
    (h : sb.clearRange offset size = some sb') : sb'.backingStore = sb.backingStore :=
  (clearLoop_byteLength_backingStore h).2

/-- Clearing a range leaves every cell as it is or invalidates it. -/
theorem clearRange_cell {sb sb' : ShadowBuffer} {offset size : ℕ}
    (h : sb.clearRange offset size = some sb') (b : ℕ) (c : Fin kShadowCellsPerByte) :
    sb'.cell b c = sb.cell b c ∨ sb'.cell b c = { sb.cell b c with valid := false } :=
  clearLoop_cell h b c

/-- The cells of a byte that is cleared are invalid afterwards. -/
theorem clearRange_valid {sb sb' : ShadowBuffer} {offset size : ℕ}
    (h : sb.clearRange offset size = some sb') {b : ℕ} (hb : offset ≤ b)
    (hb' : b < (offset + size) % 2 ^ 64) (hlen : b < sb.byteLength) (c : Fin kShadowCellsPerByte) :
    (sb'.cell b c).valid = false :=
  clearLoop_valid h hb (by split_ifs <;> assumption) c

end ShadowBuffer

end WebTSan
