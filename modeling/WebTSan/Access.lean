import WebTSan.Run

/-!
# Memory accesses along a run

The specification of `MemoryAccess` for the enabled detector, in terms of the shadow cells of the
accessed bytes: when it finds a race, what the report says, and which cells it leaves behind.
Along a run, a valid cell of a byte was stored there by an access and has not been touched since.
This access is the first one of a later report.

## Main definitions

* `WebTSan.Detector.cellAt`: a shadow cell of a byte of a buffer.
* `WebTSan.Op.found`: the race that a call finds.
* `WebTSan.Run.Accesses`, `WebTSan.Run.Recorded`: an access to a byte, and that its cell is still
  in place.

## Main results

* `WebTSan.Detector.memoryAccess_found_isSome_iff`, `WebTSan.Detector.exists_of_memoryAccess_found`.
* `WebTSan.Op.exec_cellAt`: what a call does to a cell.
* `WebTSan.Run.exists_recorded`: every valid cell was stored by an earlier access.
-/

namespace WebTSan

/-- What every shadow of the detector satisfies: it belongs to its backing store, and only bytes
inside of the buffer have valid cells. -/
structure ShadowBuffer.Attached (shadow : ShadowBuffer) (backingStore : ℕ) : Prop where
  backingStore_eq : shadow.backingStore = backingStore
  lt_byteLength {byte : ℕ} {c : Fin kShadowCellsPerByte} :
    (shadow.cell byte c).valid = true → byte < shadow.byteLength

namespace ShadowBuffer.Attached

variable {shadow : ShadowBuffer} {bs : ℕ}

theorem new (bs len : ℕ) : (ShadowBuffer.new bs len).Attached bs where
  backingStore_eq := rfl
  lt_byteLength h := by cases h

theorem recordAccess (h : shadow.Attached bs) (offset size : ℕ) (tid : Tid) (isWrite : Bool)
    (clk : VClock) : (shadow.recordAccess offset size tid isWrite clk).2.Attached bs where
  backingStore_eq := recordAccess_backingStore.trans h.backingStore_eq
  lt_byteLength {byte c} hv := by
    rw [recordAccess_byteLength]
    rcases @recordAccess_cell shadow offset size tid isWrite clk byte c with hc | ⟨-, -, -, hlen, -⟩
    · rw [hc] at hv
      exact h.lt_byteLength hv
    · exact hlen

theorem clearRange (h : shadow.Attached bs) {offset size : ℕ} {shadow' : ShadowBuffer}
    (hc : shadow.clearRange offset size = some shadow') : shadow'.Attached bs where
  backingStore_eq := (clearRange_backingStore hc).trans h.backingStore_eq
  lt_byteLength {byte c} hv := by
    rw [clearRange_byteLength hc]
    rcases clearRange_cell hc byte c with hcell | hcell <;> rw [hcell] at hv
    · exact h.lt_byteLength hv
    · cases hv

end ShadowBuffer.Attached

namespace Detector

variable (s : Detector)

/-- The shadow cell `c` of a byte, invalid where the buffer has no shadow. -/
def cellAt (backingStore byte : ℕ) (c : Fin kShadowCellsPerByte) : ShadowCell :=
  match s.shadowBuffers backingStore with
  | some shadow => shadow.cell byte c
  | none => {}

/-- Every shadow belongs to its backing store. -/
def Attached : Prop := ∀ bs shadow, s.shadowBuffers bs = some shadow → shadow.Attached bs

/-- The shadow that an access uses belongs to its backing store. -/
theorem Attached.shadowOf {s : Detector} (h : s.Attached) (bs len : ℕ) :
    (s.shadowOf bs len).Attached bs := by
  unfold Detector.shadowOf
  cases hs : s.shadowBuffers bs with
  | none => exact .new bs len
  | some shadow => exact h bs shadow hs

theorem shadowOf_cell (backingStore sabByteLength byte : ℕ) (c : Fin kShadowCellsPerByte) :
    (s.shadowOf backingStore sabByteLength).cell byte c = s.cellAt backingStore byte c := by
  unfold shadowOf cellAt
  cases s.shadowBuffers backingStore <;> rfl

/-- Shadows that are replaced elsewhere leave a cell alone. -/
theorem cellAt_of_eq {s s' : Detector} {backingStore : ℕ}
    (h : s'.shadowBuffers backingStore = s.shadowBuffers backingStore) (byte : ℕ)
    (c : Fin kShadowCellsPerByte) :
    s'.cellAt backingStore byte c = s.cellAt backingStore byte c := by
  unfold cellAt
  rw [h]

section MemoryAccess

variable {s} (he : s.enabled = true) {backingStore sabByteLength offset size : ℕ} {tid : Tid}
  {isWrite : Bool}
include he

/-- `MemoryAccess` finds a race exactly when some cell of some accessed byte races. -/
theorem memoryAccess_found_isSome_iff :
    (s.memoryAccess backingStore sabByteLength offset size tid isWrite).1.found.isSome = true ↔
      ∃ b c, offset ≤ b ∧ b < offset + size ∧
        b < (s.shadowOf backingStore sabByteLength).byteLength ∧
        (s.cellAt backingStore b c).races tid isWrite (s.threadClocks tid) = true := by
  rw [memoryAccess_found s he, ShadowBuffer.recordAccess_isSome_iff]
  simp only [shadowOf_cell]

/-- What a report says: it names an accessed byte, a cell of this byte that races, and the current
access. -/
theorem exists_of_memoryAccess_found {report : RaceReport}
    (h : (s.memoryAccess backingStore sabByteLength offset size tid isWrite).1.found =
      some report) :
    ∃ b c, offset ≤ b ∧ b < offset + size ∧
      (s.cellAt backingStore b c).races tid isWrite (s.threadClocks tid) = true ∧
      report = (s.shadowOf backingStore sabByteLength).raceReport b (s.cellAt backingStore b c) tid
        isWrite (s.threadClocks tid) := by
  rw [memoryAccess_found s he] at h
  obtain ⟨b, c, hb, hb', -, hraces, hreport⟩ := ShadowBuffer.exists_of_recordAccess_eq_some h
  rw [shadowOf_cell] at hraces hreport
  exact ⟨b, c, hb, hb', hraces, hreport⟩

/-- The first byte of an access stores it. -/
theorem memoryAccess_cellAt_offset
    (hlen : offset < (s.shadowOf backingStore sabByteLength).byteLength) :
    (s.memoryAccess backingStore sabByteLength offset (size + 1) tid isWrite).2.cellAt backingStore
      offset (ShadowBuffer.evictSlot tid) = .ofAccess tid isWrite (s.threadClocks tid) := by
  obtain ⟨o, _, _, _, _, hs, ho⟩ :=
    s.memoryAccess_eq he backingStore sabByteLength offset (size + 1) tid isWrite
  rw [hs, cellAt]
  rcases ho with ⟨-, hnone, rfl⟩ | rfl
  · rw [shadowOf, hnone] at hlen
    exact absurd hlen (Nat.not_lt_zero _)
  · simp only [Function.update_self]
    exact ShadowBuffer.recordAccess_cell_offset hlen

end MemoryAccess

/-- What `ClearShadow` does to the shadow of a buffer. -/
theorem shadowBuffers_of_clearShadow {s s' : Detector} (he : s.enabled = true) {bs off size : ℕ}
    (h : s.clearShadow bs off size = some s') (bs' : ℕ) :
    s'.shadowBuffers bs' = s.shadowBuffers bs' ∨ bs' = bs ∧ ∃ shadow shadow',
      s.shadowBuffers bs = some shadow ∧ shadow.clearRange off size = some shadow' ∧
        s'.shadowBuffers bs = some shadow' := by
  simp only [clearShadow, he, Bool.not_true, Bool.false_eq_true, ↓reduceIte] at h
  split at h
  · obtain rfl := Option.some.inj h
    exact .inl rfl
  · next shadow hs =>
    obtain ⟨shadow', hc, rfl⟩ := Option.map_eq_some_iff.mp h
    by_cases hbs : bs' = bs
    · exact .inr ⟨hbs, shadow, shadow', hs, hc, Function.update_self ..⟩
    · exact .inl (Function.update_of_ne hbs ..)

end Detector

/-- The race that a call finds. -/
def Op.found (s : Detector) : Op → Option RaceReport
  | .memoryAccess backingStore sabByteLength offset size tid isWrite =>
    (s.memoryAccess backingStore sabByteLength offset size tid isWrite).1.found
  | _ => none

namespace Op

variable {s s' : Detector} {o : Op}

/-- What a call does to the shadow of a buffer. -/
theorem exec_shadowBuffers (he : s.enabled = true) (h : o.exec s = some s') (bs : ℕ) :
    s'.shadowBuffers bs = s.shadowBuffers bs ∨ s'.shadowBuffers bs = none ∨
      (∃ shadow shadow' off size, s.shadowBuffers bs = some shadow ∧
        shadow.clearRange off size = some shadow' ∧ s'.shadowBuffers bs = some shadow') ∨
      ∃ len off size t w, o = .memoryAccess bs len off size t w ∧ s'.shadowBuffers bs =
        some ((s.shadowOf bs len).recordAccess off size t w (s.threadClocks t)).2 := by
  cases o with
  | removeShadow bs' =>
    obtain rfl := Option.some.inj h
    by_cases hbs : bs = bs'
    · subst hbs
      exact .inr (.inl (by simp [Detector.removeShadow, he]))
    · exact .inl (by simp [Detector.removeShadow, he, hbs])
  | clearShadow bs' off size =>
    rcases Detector.shadowBuffers_of_clearShadow he h bs with
      hs | ⟨rfl, shadow, shadow', hs, hc, hs'⟩
    · exact .inl hs
    · exact .inr (.inr (.inl ⟨shadow, shadow', off, size, hs, hc, hs'⟩))
  | memoryAccess bs' len off size t w =>
    obtain rfl := Option.some.inj h
    obtain ⟨o, _, _, _, _, hs, ho⟩ := s.memoryAccess_eq he bs' len off size t w
    rw [hs]
    by_cases hbs : bs = bs'
    · subst hbs
      rcases ho with ⟨rfl, -⟩ | rfl
      · exact .inr (.inl (Function.update_self ..))
      · exact .inr (.inr (.inr ⟨len, off, size, t, w, rfl, Function.update_self ..⟩))
    · exact .inl (Function.update_of_ne hbs ..)
  | _ =>
    exact .inl (congrFun (exec_shadowBuffers_of_not_memory h rfl) bs)

/-- What a call does to a cell: it stays as it is, is invalidated or removed, or holds an access of
this call to its byte. -/
theorem exec_cellAt (he : s.enabled = true) (h : o.exec s = some s') (bs byte : ℕ)
    (c : Fin kShadowCellsPerByte) :
    s'.cellAt bs byte c = s.cellAt bs byte c ∨
      s'.cellAt bs byte c = { s.cellAt bs byte c with valid := false } ∨
      s'.cellAt bs byte c = {} ∨
      ∃ len off size t w, o = .memoryAccess bs len off size t w ∧ off ≤ byte ∧ byte < off + size ∧
        c = ShadowBuffer.evictSlot t ∧
        s'.cellAt bs byte c = ShadowCell.ofAccess t w (s.threadClocks t) := by
  rcases exec_shadowBuffers he h bs with hs | hs | ⟨shadow, shadow', _, _, hs, hc, hs'⟩ |
    ⟨len, off, size, t, w, rfl, hs⟩
  · exact .inl (Detector.cellAt_of_eq hs byte c)
  · exact .inr (.inr (.inl (by simp [Detector.cellAt, hs])))
  · simp only [Detector.cellAt, hs, hs']
    rcases ShadowBuffer.clearRange_cell hc byte c with hcell | hcell
    · exact .inl hcell
    · exact .inr (.inl hcell)
  · have hcell := @ShadowBuffer.recordAccess_cell (s.shadowOf bs len) off size t w
      (s.threadClocks t) byte c
    rw [Detector.shadowOf_cell] at hcell
    simp only [Detector.cellAt, hs] at hcell ⊢
    rcases hcell with hcell | ⟨hcell, hb, hb', -, hc⟩
    · exact .inl hcell
    · exact .inr (.inr (.inr ⟨len, off, size, t, w, rfl, hb, hb', hc, hcell⟩))

/-- Every call keeps the shadows with their backing stores. -/
theorem exec_attached (he : s.enabled = true) (ha : s.Attached) (h : o.exec s = some s') :
    s'.Attached := by
  intro bs shadow hs
  rcases exec_shadowBuffers he h bs with h' | h' | ⟨sh, sh', off, size, hsh, hc, h'⟩ |
    ⟨len, off, size, t, w, rfl, h'⟩
  · exact ha bs shadow (h' ▸ hs)
  · rw [h'] at hs
    cases hs
  · rw [h'] at hs
    obtain rfl := Option.some.inj hs
    exact (ha bs sh hsh).clearRange hc
  · rw [h'] at hs
    obtain rfl := Option.some.inj hs
    exact (ha.shadowOf bs len).recordAccess ..

end Op

namespace Run

variable (r : Run)

/-- The call at position `i` is an access of the thread to the byte. -/
def Accesses (i bs byte : ℕ) (tid : Tid) (isWrite : Bool) : Prop :=
  ∃ len off size, r.ops[i]? = some (.memoryAccess bs len off size tid isWrite) ∧ off ≤ byte ∧
    byte < off + size

/-- What an access at position `i` leaves in the shadow of its bytes. -/
def recordOf (i : ℕ) (tid : Tid) (isWrite : Bool) : ShadowCell :=
  .ofAccess tid isWrite ((r.state i).threadClocks tid)

/-- The access at position `i` to the byte is recorded in the shadow and has neither been
overwritten nor cleared when the call at position `k` is made. -/
structure Recorded (i k bs byte : ℕ) (tid : Tid) (isWrite : Bool) : Prop where
  access : r.Accesses i bs byte tid isWrite
  lt : i < k
  inPlace {m : ℕ} (hi : i < m) (hk : m ≤ k) :
    (r.state m).cellAt bs byte (ShadowBuffer.evictSlot tid) = r.recordOf i tid isWrite

theorem attached {k : ℕ} (hk : k ≤ r.ops.length) : (r.state k).Attached :=
  r.invariant (fun _ _ hs ↦ by cases hs) Op.exec_attached hk

/-- A valid cell belongs to a byte inside of the buffer. -/
theorem lt_byteLength_of_valid {k : ℕ} (hk : k ≤ r.ops.length) {bs byte : ℕ}
    {c : Fin kShadowCellsPerByte} (hv : ((r.state k).cellAt bs byte c).valid = true) (len : ℕ) :
    byte < ((r.state k).shadowOf bs len).byteLength := by
  unfold Detector.cellAt at hv
  unfold Detector.shadowOf
  cases hs : (r.state k).shadowBuffers bs with
  | none => rw [hs] at hv; cases hv
  | some shadow =>
    rw [hs] at hv
    exact (r.attached hk bs shadow hs).lt_byteLength hv

/-- A valid cell of a byte was stored by an earlier access to this byte and has been in place since
then. -/
theorem exists_recorded {k : ℕ} (hk : k ≤ r.ops.length) {bs byte : ℕ}
    {c : Fin kShadowCellsPerByte} (hv : ((r.state k).cellAt bs byte c).valid = true) :
    ∃ i t w, r.Recorded i k bs byte t w ∧ c = ShadowBuffer.evictSlot t ∧
      (r.state k).cellAt bs byte c = r.recordOf i t w := by
  induction k with
  | zero =>
    rw [r.state_zero] at hv
    cases hv
  | succ k ih =>
    have ho := List.getElem?_eq_getElem hk
    have he := r.enabled (Nat.le_of_succ_le hk)
    rcases Op.exec_cellAt he (r.step ho) bs byte c with h | h | h |
      ⟨len, off, size, t, w, hop, hb, hb', rfl, h⟩
    · rw [h] at hv
      obtain ⟨i, t, w, hrec, rfl, hcell⟩ := ih (Nat.le_of_succ_le hk) hv
      refine ⟨i, t, w, ⟨hrec.access, Nat.lt_succ_of_lt hrec.lt, ?_⟩, rfl, h.trans hcell⟩
      intro m hi hm
      rcases Nat.lt_succ_iff_lt_or_eq.mp (Nat.lt_succ_of_le hm) with hm' | rfl
      · exact hrec.inPlace hi (Nat.le_of_lt_succ hm')
      · exact h.trans hcell
    · rw [h] at hv
      cases hv
    · rw [h] at hv
      cases hv
    · refine ⟨k, t, w, ⟨⟨len, off, size, hop ▸ ho, hb, hb'⟩, Nat.lt_succ_self k, ?_⟩, rfl,
        h⟩
      intro m hi hm
      obtain rfl : m = k + 1 := by omega
      exact h

end Run

end WebTSan
