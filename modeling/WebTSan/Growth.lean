import WebTSan.Detection
import WebTSan.RangeAccess

/-!
# Buffers that grow

A shared Wasm memory grows in place: its address stays, and later accesses pass a larger byte length
to `MemoryAccess`. The shadow of the buffer keeps the length that it was created with, which is the
first non-zero one that was passed since the buffer had no shadow. Bytes behind this length have no
cells in use, so that accesses to them are neither compared nor recorded.

## Main definitions

* `WebTSan.growWasmMemoryInPlace`: the byte length of a Wasm memory after it has grown.
* `WebTSan.Run.captured`: the length of the shadow of a buffer, read off the calls so far.
* `WebTSan.Run.Tracks`: a call compares and records a byte.

## Main results

* `WebTSan.Run.byteLength_eq_captured`: the shadow keeps the captured length.
* `WebTSan.Run.tracks_iff`: when exactly a call tracks all the bytes of its range that lie below the
  length it passes.
* `WebTSan.Run.growingMemory_not_tracks`: a race on a page that was added by growing.
-/

namespace WebTSan

/-! ### Growing in place -/

/-- The size of a Wasm page. -/
def kWasmPageSize : ℕ := 65536

/-- The round of the loop of `GrowWasmMemoryInPlace` in which the compare-exchange succeeds: the
previous number of pages and the new byte length. The system may refuse the permissions. -/
def growWasmMemoryInPlace (setPermissions : ℕ → Bool)
    (byteLength byteCapacity deltaPages maxPages : ℕ) : Option (ℕ × ℕ) :=
  let maxPages := min maxPages (byteCapacity / kWasmPageSize)
  if deltaPages = 0 then some (byteLength / kWasmPageSize, byteLength)
  else if deltaPages > maxPages then none
  else
    let currentPages := byteLength / kWasmPageSize
    if currentPages > maxPages - deltaPages then none
    else
      let newLength := (currentPages + deltaPages) * kWasmPageSize
      if setPermissions newLength then some (currentPages, newLength) else none

/-- Growing never makes a memory shorter, and keeps it within its capacity. -/
theorem growWasmMemoryInPlace_le {setPermissions : ℕ → Bool}
    {byteLength byteCapacity deltaPages maxPages previousPages newLength : ℕ}
    (h : growWasmMemoryInPlace setPermissions byteLength byteCapacity deltaPages maxPages =
      some (previousPages, newLength)) (hcap : byteLength ≤ byteCapacity) :
    byteLength ≤ newLength ∧ newLength ≤ byteCapacity := by
  simp only [growWasmMemoryInPlace] at h
  split_ifs at h with hdelta hmax hpages hperm
  · obtain ⟨-, rfl⟩ := Prod.mk.inj (Option.some.inj h)
    exact ⟨le_rfl, hcap⟩
  · obtain ⟨-, rfl⟩ := Prod.mk.inj (Option.some.inj h)
    have hle : byteLength / kWasmPageSize + deltaPages ≤ byteCapacity / kWasmPageSize := by omega
    have hcap' := Nat.div_mul_le_self byteCapacity kWasmPageSize
    constructor
    · have hlt := Nat.lt_mul_div_succ byteLength (show 0 < kWasmPageSize by decide)
      rw [Nat.mul_comm] at hlt
      exact hlt.le.trans (Nat.mul_le_mul_right _ (by omega))
    · exact (Nat.mul_le_mul_right _ hle).trans hcap'

/-! ### The length of a shadow -/

/-- The length of the shadow of a buffer after one more call, if the buffer has one. -/
def Op.capture (bs : ℕ) (captured : Option ℕ) : Op → Option ℕ
  | .memoryAccess bs' sabByteLength _ _ _ _ =>
    if bs' = bs ∧ sabByteLength ≠ 0 then some (captured.getD sabByteLength) else captured
  | .removeShadow bs' => if bs' = bs then none else captured
  | _ => captured

/-- An access creates a shadow of the length that it passes, if it passes one and there is no shadow
yet. -/
theorem Detector.memoryAccess_byteLength {s : Detector} (he : s.enabled = true)
    (bs len off size : ℕ) (t : Tid) (w : Bool) :
    ((s.memoryAccess bs len off size t w).2.shadowBuffers bs).map ShadowBuffer.byteLength =
      if len ≠ 0 then some (((s.shadowBuffers bs).map ShadowBuffer.byteLength).getD len)
      else (s.shadowBuffers bs).map ShadowBuffer.byteLength := by
  by_cases hnone : s.shadowBuffers bs = none ∧ len = 0
  · obtain ⟨hs, rfl⟩ := hnone
    simp [memoryAccess, he, shadowFor, hs]
  · obtain ⟨o, _, _, _, _, hs, ho⟩ := s.memoryAccess_eq he bs len off size t w
    obtain rfl := ho.resolve_left fun h ↦ hnone h.2
    rw [hs]
    simp only [Function.update_self, Option.map_some, ShadowBuffer.recordAccess_byteLength]
    cases hsh : s.shadowBuffers bs with
    | none =>
      have hlen : len ≠ 0 := fun h ↦ hnone ⟨hsh, h⟩
      simp [shadowOf, hsh, hlen, ShadowBuffer.new]
    | some shadow => simp [shadowOf, hsh]

/-- What a call does to the length of the shadow of a buffer. -/
theorem Op.exec_byteLength {s s' : Detector} {o : Op} (he : s.enabled = true)
    (h : o.exec s = some s') (bs : ℕ) : (s'.shadowBuffers bs).map ShadowBuffer.byteLength =
      o.capture bs ((s.shadowBuffers bs).map ShadowBuffer.byteLength) := by
  cases o with
  | removeShadow bs' =>
    obtain rfl := Option.some.inj h
    by_cases hbs : bs' = bs
    · simp [Detector.removeShadow, he, capture, hbs]
    · simp [Detector.removeShadow, he, capture, hbs, Ne.symm hbs]
  | clearShadow bs' off size =>
    rcases Detector.shadowBuffers_of_clearShadow he h bs with
      hs | ⟨rfl, shadow, shadow', hs, hc, hs'⟩
    · rw [hs]
      rfl
    · simp [capture, hs, hs', ShadowBuffer.clearRange_byteLength hc]
  | memoryAccess bs' len off size t w =>
    obtain rfl := Option.some.inj h
    by_cases hbs : bs' = bs
    · subst hbs
      simp [capture, Detector.memoryAccess_byteLength he]
    · obtain ⟨o, _, _, _, _, hs, -⟩ := s.memoryAccess_eq he bs' len off size t w
      rw [hs]
      simp [capture, Function.update_of_ne (Ne.symm hbs), hbs]
  | _ =>
    rw [congrFun (exec_shadowBuffers_of_not_memory h rfl) bs]
    rfl

/-- An access stores itself on a byte of the buffer if it races on no byte before it. -/
theorem ShadowBuffer.recordAccess_cell_of_not_racesOn {sb : ShadowBuffer} {offset size b : ℕ}
    {tid : Tid} {isWrite : Bool} {clk : VClock} (hb : offset ≤ b) (hb' : b < offset + size)
    (hlen : b < sb.byteLength) (h : ∀ b', offset ≤ b' → b' < b → ¬sb.RacesOn b' tid isWrite clk) :
    (sb.recordAccess offset size tid isWrite clk).2.cell b (evictSlot tid) =
      ShadowCell.ofAccess tid isWrite clk := by
  induction size generalizing sb offset with
  | zero => omega
  | succ size ih =>
    rcases Nat.eq_or_lt_of_le hb with rfl | hlt
    · exact recordAccess_cell_offset hlen
    · have hr : (sb.recordByte offset tid isWrite clk).1 = none :=
        recordByte_eq_none_iff_not_racesOn.mpr (h offset le_rfl hlt)
      rw [recordAccess_of_none (hb.trans_lt hlen) hr]
      refine ih hlt (by omega) (by rwa [recordByte_byteLength]) fun b' hb' hlt' ↦ ?_
      rw [recordByte_racesOn_of_lt hb']
      exact h b' (by omega) hlt'

namespace Run

variable (r : Run)

/-- The length of the shadow of a buffer before position `k`, read off the calls so far. -/
def captured (bs k : ℕ) : Option ℕ := (r.ops.take k).foldl (Op.capture bs) none

/-- The call at position `k` races with some cell of the byte. -/
def RacesOn (k bs byte : ℕ) (tid : Tid) (isWrite : Bool) : Prop :=
  ∃ c, ((r.state k).cellAt bs byte c).races tid isWrite ((r.state k).threadClocks tid) = true

/-- The call at position `k` compares and records every byte of its range below the length that it
passes, up to the first one on which it races. -/
def Tracks (k bs len off size : ℕ) (tid : Tid) (isWrite : Bool) : Prop :=
  ∀ b, off ≤ b → b < off + size → b < len →
    (∀ b', off ≤ b' → b' < b → ¬r.RacesOn k bs b' tid isWrite) →
      (r.RacesOn k bs b tid isWrite → ∃ report,
        (Op.memoryAccess bs len off size tid isWrite).found (r.state k) = some report ∧
          report.sabOffset = b) ∧
      (r.state (k + 1)).cellAt bs b (ShadowBuffer.evictSlot tid) = r.recordOf k tid isWrite

/-- The shadow of a buffer keeps the length that it was created with. -/
theorem byteLength_eq_captured {k : ℕ} (hk : k ≤ r.ops.length) (bs : ℕ) :
    ((r.state k).shadowBuffers bs).map ShadowBuffer.byteLength = r.captured bs k := by
  induction k with
  | zero =>
    rw [r.state_zero]
    rfl
  | succ k ih =>
    have ho := List.getElem?_eq_getElem hk
    have hk' := Nat.le_of_succ_le hk
    rw [Op.exec_byteLength (r.enabled hk') (r.step ho), ih hk', captured, captured,
      List.take_add_one, ho, List.foldl_append]
    rfl

theorem shadowOf_byteLength {k : ℕ} (hk : k ≤ r.ops.length) (bs len : ℕ) :
    ((r.state k).shadowOf bs len).byteLength = (r.captured bs k).getD len := by
  rw [← r.byteLength_eq_captured hk, Detector.shadowOf]
  cases (r.state k).shadowBuffers bs <;> rfl

section Access

variable {r} {k bs len off size : ℕ} {t : Tid} {w : Bool}
  (ho : r.ops[k]? = some (.memoryAccess bs len off size t w))

include ho

/-- A byte on which a call races lies below the captured length. -/
theorem RacesOn.lt_captured {b : ℕ} (h : r.RacesOn k bs b t w) :
    b < (r.captured bs k).getD len := by
  have hk := (lt_length_of_getElem? ho).le
  obtain ⟨c, hc⟩ := h
  rw [← r.shadowOf_byteLength hk]
  exact r.lt_byteLength_of_valid hk (ShadowCell.races_iff.mp hc).1 len

/-- No race is found behind the captured length. -/
theorem found_lt_captured {report : RaceReport}
    (h : (Op.memoryAccess bs len off size t w).found (r.state k) = some report) :
    report.sabOffset < (r.captured bs k).getD len := by
  have hk := (lt_length_of_getElem? ho).le
  rw [← r.shadowOf_byteLength hk]
  exact (Detector.racesFirstOn_of_found (r.enabled hk) h).1.2.2.1

/-- No byte behind the captured length holds an access. -/
theorem lt_captured_of_recorded {b : ℕ}
    (h : (r.state (k + 1)).cellAt bs b (ShadowBuffer.evictSlot t) = r.recordOf k t w) :
    b < (r.captured bs k).getD len := by
  have hk := lt_length_of_getElem? ho
  have hv : ((r.state (k + 1)).cellAt bs b (ShadowBuffer.evictSlot t)).valid = true := by
    rw [h]
    rfl
  have hlt := r.lt_byteLength_of_valid hk hv ((r.captured bs k).getD len)
  have hcapture : r.captured bs (k + 1) =
      (Op.memoryAccess bs len off size t w).capture bs (r.captured bs k) := by
    rw [captured, captured, List.take_add_one, ho, List.foldl_append]
    rfl
  have hkeep (c : Option ℕ) :
      (if bs = bs ∧ len ≠ 0 then some (c.getD len) else c).getD (c.getD len) = c.getD len := by
    split_ifs <;> cases c <;> rfl
  rwa [r.shadowOf_byteLength hk, hcapture, Op.capture, hkeep] at hlt

/-- A byte below the captured length is tracked. -/
theorem tracks_of_lt_captured {b : ℕ} (hb : off ≤ b) (hb' : b < off + size)
    (hlt : b < (r.captured bs k).getD len)
    (hfirst : ∀ b', off ≤ b' → b' < b → ¬r.RacesOn k bs b' t w) :
    (r.RacesOn k bs b t w → ∃ report,
      (Op.memoryAccess bs len off size t w).found (r.state k) = some report ∧
        report.sabOffset = b) ∧
    (r.state (k + 1)).cellAt bs b (ShadowBuffer.evictSlot t) = r.recordOf k t w := by
  have hk := (lt_length_of_getElem? ho).le
  have he := r.enabled hk
  have hlt' : b < ((r.state k).shadowOf bs len).byteLength := by rwa [r.shadowOf_byteLength hk]
  have hraces (b' : ℕ) : ((r.state k).shadowOf bs len).RacesOn b' t w ((r.state k).threadClocks t) ↔
      r.RacesOn k bs b' t w := by
    simp only [ShadowBuffer.RacesOn, RacesOn, Detector.shadowOf_cell]
  constructor
  · intro hb₀
    obtain ⟨c, hc⟩ := hb₀
    have hfound : ((Op.memoryAccess bs len off size t w).found (r.state k)).isSome = true := by
      rw [Op.found, Detector.memoryAccess_found_isSome_iff he]
      exact ⟨b, c, hb, hb', hlt', hc⟩
    obtain ⟨report, hreport⟩ := Option.isSome_iff_exists.mp hfound
    refine ⟨report, hreport, ?_⟩
    obtain ⟨⟨hoff, -, -, hr⟩, hmin⟩ := Detector.racesFirstOn_of_found he hreport
    rcases lt_trichotomy report.sabOffset b with hlt | heq | hgt
    · exact absurd ((hraces _).mp hr) (hfirst _ hoff hlt)
    · exact heq
    · exact absurd ⟨hb, hb', hlt', (hraces b).mpr ⟨c, hc⟩⟩ (hmin b hgt)
  · rw [r.state_succ ho rfl, recordOf]
    obtain ⟨o, _, _, _, _, hs, ho'⟩ := (r.state k).memoryAccess_eq he bs len off size t w
    rw [hs, Detector.cellAt]
    rcases ho' with ⟨-, hnone, rfl⟩ | rfl
    · simp [Detector.shadowOf, hnone, ShadowBuffer.new] at hlt'
    · simp only [Function.update_self]
      exact ShadowBuffer.recordAccess_cell_of_not_racesOn hb hb' hlt' fun b' hb₁ hb₂ ↦
        mt (hraces b').mp (hfirst b' hb₁ hb₂)

end Access

/-- A call tracks all the bytes of its range below the length that it passes exactly if these bytes
lie below the captured length, or the call races and so never reaches the others. Behind the
captured length no race is found. -/
theorem tracks_iff {k bs len off size : ℕ} {t : Tid} {w : Bool}
    (ho : r.ops[k]? = some (.memoryAccess bs len off size t w)) :
    (r.Tracks k bs len off size t w ↔
      (∀ b, off ≤ b → b < off + size → b < len → b < (r.captured bs k).getD len) ∨
        ∃ b, off ≤ b ∧ b < off + size ∧ b < (r.captured bs k).getD len ∧ r.RacesOn k bs b t w) ∧
    ∀ report, (Op.memoryAccess bs len off size t w).found (r.state k) = some report →
      report.sabOffset < (r.captured bs k).getD len := by
  refine ⟨⟨fun h ↦ ?_, fun h b hb hb' hlen hfirst ↦ ?_⟩, fun report ↦ found_lt_captured ho⟩
  · by_contra! hcond
    obtain ⟨⟨b, hb, hb', hlen, hge⟩, hnot⟩ := hcond
    refine absurd (lt_captured_of_recorded ho (h b hb hb' hlen fun b' hb₁ hlt hraces ↦ ?_).2)
      (not_lt.mpr hge)
    exact hnot b' hb₁ (hlt.trans hb') (hraces.lt_captured ho) hraces
  · refine tracks_of_lt_captured ho hb hb' ?_ hfirst
    rcases h with h | ⟨b', hb₁, _, hlt, hraces⟩
    · exact h b hb hb' hlen
    · rcases Nat.lt_or_ge b' b with hlt' | hge
      · exact absurd hraces (hfirst b' hb₁ hlt')
      · exact hge.trans_lt hlt

/-- Two threads write four bytes of the second page of a memory that had one page when thread 0
first wrote to it. Then thread 1 writes the bytes of the first page that thread 0 wrote. -/
def growingMemory : Run :=
  .ofOps [.threadCreate uint32Max, .threadCreate uint32Max,
    .memoryAccess 0x7f0000000000 0x10000 0 4 0 true,
    .memoryAccess 0x7f0000000000 0x20000 0x10000 4 0 true,
    .memoryAccess 0x7f0000000000 0x20000 0x10000 4 1 true,
    .memoryAccess 0x7f0000000000 0x20000 0 4 1 true] (by decide)

/-- The last access passes the new length and stays below the old one. It is tracked, and its race
is found. -/
theorem growingMemory_tracks :
    growingMemory.captured 0x7f0000000000 5 = some 0x10000 ∧
      growingMemory.Tracks 5 0x7f0000000000 0x20000 0 4 1 true ∧
      ∃ report, (Op.memoryAccess 0x7f0000000000 0x20000 0 4 1 true).found
        (growingMemory.state 5) = some report ∧ report.sabOffset = 0 := by
  have hcaptured : growingMemory.captured 0x7f0000000000 5 = some 0x10000 := rfl
  have htracks : growingMemory.Tracks 5 0x7f0000000000 0x20000 0 4 1 true := by
    refine (growingMemory.tracks_iff rfl).1.mpr (.inl fun b _ hb _ ↦ ?_)
    rw [hcaptured]
    exact hb.trans (by decide)
  have hraces : growingMemory.RacesOn 5 0x7f0000000000 0 1 true :=
    ⟨ShadowBuffer.evictSlot 0, by decide⟩
  have hfirst (b : ℕ) (_ : 0 ≤ b) (hb : b < 0) :
      ¬growingMemory.RacesOn 5 0x7f0000000000 b 1 true := absurd hb (Nat.not_lt_zero b)
  exact ⟨hcaptured, htracks, (htracks 0 le_rfl (by decide) (by decide) hfirst).1 hraces⟩

/-- The memory grows by one page. The accesses to the new page are not tracked, and their race is
not found. -/
theorem growingMemory_not_tracks :
    growWasmMemoryInPlace (fun _ ↦ true) 0x10000 0x20000 1 2 = some (1, 0x20000) ∧
      ¬growingMemory.Tracks 3 0x7f0000000000 0x20000 0x10000 4 0 true ∧
      (Op.memoryAccess 0x7f0000000000 0x20000 0x10000 4 1 true).found (growingMemory.state 4) =
        none := by
  have hcaptured : growingMemory.captured 0x7f0000000000 3 = some 0x10000 ∧
      growingMemory.captured 0x7f0000000000 4 = some 0x10000 := ⟨rfl, rfl⟩
  refine ⟨by decide, fun h ↦ ?_, ?_⟩
  · have hnot (b : ℕ) (hb : 0x10000 ≤ b) (hb' : b < 0x10000) :
        ¬growingMemory.RacesOn 3 0x7f0000000000 b 0 true := absurd hb' (not_lt.mpr hb)
    have hlt := lt_captured_of_recorded (r := growingMemory) (k := 3) rfl
      (h 0x10000 le_rfl (by decide) (by decide) hnot).2
    rw [hcaptured.1] at hlt
    exact absurd hlt (lt_irrefl _)
  · rw [Option.eq_none_iff_forall_ne_some]
    intro report hreport
    have hlt := found_lt_captured (r := growingMemory) (k := 4) rfl hreport
    rw [hcaptured.2] at hlt
    have hle := (Detector.racesFirstOn_of_found (growingMemory.enabled (by decide)) hreport).1.1
    exact absurd hlt (not_lt.mpr hle)

end Run

end WebTSan
