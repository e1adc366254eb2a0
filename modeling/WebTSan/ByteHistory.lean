import WebTSan.Execution
import WebTSan.Shadow

/-!
# The history of one byte

The cells of a byte remember, for each of the two classes of threads, the newest access since the
byte was last cleared. A call compares itself with these accesses only. If two threads of different
classes use a byte, then the newest access of each is remembered, so that a write is compared with
the newest access of the other thread and misses nothing. A read can miss something: the newest
access of the other thread may be a read that has taken the place of an earlier write.

## Main definitions

* `WebTSan.ByteOp`, `WebTSan.ByteRun`: calls on one byte.
* `WebTSan.ByteRun.since`: the accesses since the byte was last cleared, the newest first.
* `WebTSan.ByteRun.TwoThreads`, `WebTSan.ByteRun.Shows`.

## Main results

* `WebTSan.ByteRun.holds_cell`: what the cells of the byte hold.
* `WebTSan.ByteRun.report_isSome_iff`, `WebTSan.ByteRun.TwoThreads.report_isSome_iff`: when a call
  reports a race.
* `WebTSan.ByteRun.shows_iff`: when exactly the conflicting accesses of the other thread are seen.
* `WebTSan.ByteRun.readAfterOwnWrite_not_shows`: a read that hides an earlier write of its own
  thread.
-/

namespace WebTSan

/-- A call of `RecordAccess` on one byte. -/
structure ByteAccess where
  tid : Tid
  isWrite : Bool
  clk : VClock

/-- A call on one byte of a buffer: an access to it, or a call of `ClearRange`. -/
inductive ByteOp
  | access (a : ByteAccess)
  | clear (offset size : ℕ)

namespace ByteOp

/-- The report of a call, if it is an access that races. -/
def report (byte : ℕ) (sb : ShadowBuffer) : ByteOp → Option RaceReport
  | access a => (sb.recordAccess byte 1 a.tid a.isWrite a.clk).1
  | clear _ _ => none

/-- The shadow after a call. -/
def exec (byte : ℕ) (sb : ShadowBuffer) : ByteOp → Option ShadowBuffer
  | access a => some (sb.recordAccess byte 1 a.tid a.isWrite a.clk).2
  | clear offset size => sb.clearRange offset size

/-- The accesses since the byte was last cleared, the newest first, after one more call. -/
def push (accesses : List ByteAccess) : ByteOp → List ByteAccess
  | access a => a :: accesses
  | clear _ _ => []

end ByteOp

/-- The cell holds the given access, or is not in use if there is none. -/
def ShadowCell.Holds (cell : ShadowCell) : Option ByteAccess → Prop
  | some a => cell = ShadowCell.ofAccess a.tid a.isWrite a.clk
  | none => cell.valid = false

/-- An access races with the cell exactly if the cell holds an access that conflicts with it. -/
theorem ShadowCell.Holds.races_iff {cell : ShadowCell} {held : Option ByteAccess}
    (h : cell.Holds held) {tid : Tid} {isWrite : Bool} {clk : VClock} :
    cell.races tid isWrite clk = true ↔ ∃ b ∈ held, b.tid ≠ tid ∧
      (b.isWrite = true ∨ isWrite = true) ∧ clk b.tid < b.clk b.tid := by
  rw [ShadowCell.races_iff]
  cases held with
  | none =>
    have hvalid : cell.valid = false := h
    simp [hvalid]
  | some b =>
    obtain rfl : cell = ShadowCell.ofAccess b.tid b.isWrite b.clk := h
    simp [ShadowCell.ofAccess]

/-- Calls on one byte of a buffer, from a shadow on whose cells of this byte are not in use. Every
call of `ClearRange` clears the byte. -/
structure ByteRun (byte : ℕ) where
  shadow : ShadowBuffer
  unused (c : Fin kShadowCellsPerByte) : (shadow.cell byte c).valid = false
  lt_byteLength : byte < shadow.byteLength
  calls : Execution (ByteOp.exec byte) shadow
  covers {offset size : ℕ} (h : ByteOp.clear offset size ∈ calls.ops) :
    offset ≤ byte ∧ byte < (offset + size) % 2 ^ 64

namespace ByteRun

variable {byte : ℕ} (r : ByteRun byte)

/-- The accesses since the byte was last cleared before position `k`, the newest first. -/
def since (k : ℕ) : List ByteAccess := (r.calls.ops.take k).foldl ByteOp.push []

/-- The newest access before position `k` that a thread of the class `c` made since the byte was
last cleared. -/
def newest (k : ℕ) (c : Fin kShadowCellsPerByte) : Option ByteAccess :=
  (r.since k).find? fun a ↦ ShadowBuffer.evictSlot a.tid = c

theorem since_succ {k : ℕ} {o : ByteOp} (ho : r.calls.ops[k]? = some o) :
    r.since (k + 1) = o.push (r.since k) := by
  simp [since, List.take_add_one, ho]

/-- The calls of a run leave the length of the buffer alone. -/
theorem state_byteLength {k : ℕ} (hk : k ≤ r.calls.ops.length) :
    (r.calls.state k).byteLength = r.shadow.byteLength := by
  refine r.calls.invariant_of_step (P := fun sb ↦ sb.byteLength = r.shadow.byteLength) rfl
    (fun {k o} ho ih ↦ ?_) hk
  have hstep := r.calls.step ho
  cases o with
  | access a =>
    rw [← Option.some.inj hstep, ShadowBuffer.recordAccess_byteLength, ih]
  | clear offset size => rw [ShadowBuffer.clearRange_byteLength hstep, ih]

/-- Every cell of the byte holds the newest access of its class. -/
theorem holds_cell {k : ℕ} (hk : k ≤ r.calls.ops.length) (c : Fin kShadowCellsPerByte) :
    ((r.calls.state k).cell byte c).Holds (r.newest k c) := by
  induction k with
  | zero =>
    rw [r.calls.state_zero]
    exact r.unused c
  | succ k ih =>
    have hk' := Nat.le_of_succ_le hk
    have ho := List.getElem?_eq_getElem hk
    have hstep := r.calls.step ho
    have hlen : byte < (r.calls.state k).byteLength := by
      rw [r.state_byteLength hk']
      exact r.lt_byteLength
    rw [newest, r.since_succ ho]
    cases hop : r.calls.ops[k] with
    | access a =>
      rw [hop] at hstep
      rw [← Option.some.inj hstep, ShadowBuffer.recordAccess_one hlen, ShadowBuffer.recordByte_cell,
        ByteOp.push, List.find?_cons]
      by_cases hc : ShadowBuffer.evictSlot a.tid = c
      · simp [hc, ShadowCell.Holds]
      · simpa [hc, Ne.symm hc, newest] using ih hk'
    | clear offset size =>
      rw [hop] at hstep
      obtain ⟨hoff, hend⟩ := r.covers (hop ▸ List.getElem_mem hk)
      exact ShadowBuffer.clearRange_valid hstep hoff hend hlen c

/-- A call reports a race exactly if it conflicts with the newest access of some class. -/
theorem report_isSome_iff {k : ℕ} {a : ByteAccess} (ha : r.calls.ops[k]? = some (.access a)) :
    ((ByteOp.access a).report byte (r.calls.state k)).isSome = true ↔
      ∃ c, ∃ b ∈ r.newest k c, b.tid ≠ a.tid ∧ (b.isWrite = true ∨ a.isWrite = true) ∧
        a.clk b.tid < b.clk b.tid := by
  have hk : k ≤ r.calls.ops.length := (List.getElem?_eq_some_iff.mp ha).1.le
  have hlen : byte < (r.calls.state k).byteLength := by
    rw [r.state_byteLength hk]
    exact r.lt_byteLength
  simp only [ByteOp.report, ShadowBuffer.recordAccess_one hlen, Option.isSome_iff_ne_none, Ne,
    ShadowBuffer.recordByte_eq_none_iff, not_forall, Bool.not_eq_false]
  exact exists_congr fun c ↦ (r.holds_cell hk c).races_iff

/-! ### Two threads of different classes -/

/-- The calls are made by two threads of different classes, and the clocks of a thread grow. -/
structure TwoThreads (u v : Tid) : Prop where
  ne_mod : (u : ℕ) % kShadowCellsPerByte ≠ (v : ℕ) % kShadowCellsPerByte
  tid_eq {a : ByteAccess} (h : ByteOp.access a ∈ r.calls.ops) : a.tid = u ∨ a.tid = v
  grows : r.calls.ops.Pairwise fun o o' ↦ ∀ a a', o = .access a → o' = .access a' →
    a.tid = a'.tid → a.clk ≤ a'.clk

/-- If the call `a` at position `k` is not ordered behind a conflicting access of `u` since the byte
was last cleared, it reports a race. -/
def Shows (k : ℕ) (u : Tid) (a : ByteAccess) : Prop :=
  (∃ b ∈ r.since k, b.tid = u ∧ (b.isWrite = true ∨ a.isWrite = true) ∧ a.clk u < b.clk u) →
    ((ByteOp.access a).report byte (r.calls.state k)).isSome = true

/-- The newest access of `u` before position `k` since the byte was last cleared. -/
def newestOf (k : ℕ) (u : Tid) : Option ByteAccess := (r.since k).find? fun b ↦ b.tid = u

/-- The accesses since the byte was last cleared are calls. -/
theorem mem_of_mem_foldl_push {ops : List ByteOp} {a : ByteAccess}
    (ha : a ∈ ops.foldl ByteOp.push []) : ByteOp.access a ∈ ops := by
  induction ops using List.reverseRecOn with
  | nil => exact absurd ha List.not_mem_nil
  | append_singleton ops o ih =>
    rw [List.foldl_append, List.foldl_cons, List.foldl_nil] at ha
    cases o with
    | access b =>
      rcases List.mem_cons.mp ha with rfl | ha
      · exact List.mem_append_right _ (List.mem_singleton_self _)
      · exact List.mem_append_left _ (ih ha)
    | clear offset size => exact absurd ha List.not_mem_nil

/-- A newer access since the byte was last cleared is a later call. -/
theorem since_pairwise {R : ByteAccess → ByteAccess → Prop} (k : ℕ)
    (h : r.calls.ops.Pairwise fun o o' ↦ ∀ a a', o = .access a → o' = .access a' → R a' a) :
    (r.since k).Pairwise R := by
  have htake := h.sublist (List.take_sublist k _)
  rw [since]
  generalize r.calls.ops.take k = ops at htake
  induction ops using List.reverseRecOn with
  | nil => exact List.Pairwise.nil
  | append_singleton ops o ih =>
    obtain ⟨hops, -, hlast⟩ := List.pairwise_append.mp htake
    rw [List.foldl_append, List.foldl_cons, List.foldl_nil]
    cases o with
    | access a =>
      refine (ih hops).cons fun b hb ↦ ?_
      exact hlast _ (mem_of_mem_foldl_push hb) _ (List.mem_singleton_self _) b a rfl rfl
    | clear offset size => exact List.Pairwise.nil

section TwoThreads

variable {r} {u v : Tid} (h : r.TwoThreads u v) {k : ℕ} {a : ByteAccess}

include h

theorem TwoThreads.mem_since {b : ByteAccess} (hb : b ∈ r.since k) : b.tid = u ∨ b.tid = v :=
  h.tid_eq (List.mem_of_mem_take (mem_of_mem_foldl_push hb))

theorem TwoThreads.evictSlot_ne : ShadowBuffer.evictSlot u ≠ ShadowBuffer.evictSlot v :=
  fun he ↦ h.ne_mod (congrArg Fin.val he)

/-- The newest access of the class of `u` is the newest access of `u`. -/
theorem TwoThreads.newest_eq : r.newest k (ShadowBuffer.evictSlot u) = r.newestOf k u := by
  refine List.find?_congr fun b hb ↦ ?_
  rcases h.mem_since hb with rfl | rfl
  · simp
  · have hne : u ≠ b.tid := fun he ↦ h.evictSlot_ne (congrArg _ he)
    simp [h.evictSlot_ne.symm, hne.symm]

/-- No access of `u` since the byte was last cleared has a later clock than the newest one. -/
theorem TwoThreads.le_newestOf {b : ByteAccess} (hb : b ∈ r.since k) (hbu : b.tid = u) :
    ∃ m ∈ r.newestOf k u, m.tid = u ∧ m ∈ r.since k ∧ b.clk ≤ m.clk := by
  have hpair := r.since_pairwise (R := fun a' a ↦ a.tid = a'.tid → a.clk ≤ a'.clk) k h.grows
  rw [newestOf]
  generalize r.since k = l at hb hpair
  induction l with
  | nil => exact absurd hb List.not_mem_nil
  | cons m l ih =>
    obtain ⟨hm, hl⟩ := List.pairwise_cons.mp hpair
    by_cases hmu : m.tid = u
    · refine ⟨m, by simp [hmu], hmu, List.mem_cons_self, ?_⟩
      rcases List.mem_cons.mp hb with rfl | hb
      · exact le_rfl
      · exact hm b hb (hbu.trans hmu.symm)
    · have hne : b ≠ m := fun he ↦ hmu (he ▸ hbu)
      obtain ⟨m', hm', htid, hmem, hle⟩ := ih (List.mem_of_ne_of_mem hne hb) hl
      exact ⟨m', by simpa [hmu] using hm', htid, List.mem_cons_of_mem _ hmem, hle⟩

/-- A call of `v` reports a race exactly if it conflicts with the newest access of `u`. -/
theorem TwoThreads.report_isSome_iff (ha : r.calls.ops[k]? = some (.access a)) (hav : a.tid = v) :
    ((ByteOp.access a).report byte (r.calls.state k)).isSome = true ↔
      ∃ b ∈ r.newestOf k u, (b.isWrite = true ∨ a.isWrite = true) ∧ a.clk u < b.clk u := by
  rw [r.report_isSome_iff ha]
  constructor
  · rintro ⟨c, b, hb, htid, hw, hlt⟩
    obtain rfl : b.tid = u := (h.mem_since (List.mem_of_find?_eq_some hb)).resolve_right
      fun hbv ↦ htid (hbv.trans hav.symm)
    have hc : ShadowBuffer.evictSlot b.tid = c := by simpa using List.find?_some hb
    exact ⟨b, by rwa [← h.newest_eq, hc], hw, hlt⟩
  · rintro ⟨b, hb, hw, hlt⟩
    obtain rfl : b.tid = u := by simpa using List.find?_some hb
    have hne : b.tid ≠ a.tid := fun he ↦ h.evictSlot_ne (congrArg _ (he.trans hav))
    exact ⟨ShadowBuffer.evictSlot b.tid, b, by rwa [h.newest_eq], hne, hw, hlt⟩

end TwoThreads

/-- The conflicting accesses of `u` are seen by a call of `v` exactly if this call is a write, the
newest access of `u` is a write, or all earlier writes of `u` are ordered before the call. -/
theorem shows_iff {u v : Tid} (h : r.TwoThreads u v) {k : ℕ} {a : ByteAccess}
    (ha : r.calls.ops[k]? = some (.access a)) (hav : a.tid = v) :
    r.Shows k u a ↔ a.isWrite = true ∨ (∀ b ∈ r.newestOf k u, b.isWrite = true) ∨
      ∀ b ∈ r.since k, b.tid = u → b.isWrite = true → b.clk u ≤ a.clk u := by
  rw [Shows, h.report_isSome_iff ha hav]
  constructor
  · intro hshows
    by_contra! hcond
    obtain ⟨haw, ⟨m, hm, hmw⟩, b, hb, hbu, hbw, hlt⟩ := hcond
    obtain ⟨m', hm', hw, -⟩ := hshows ⟨b, hb, hbu, .inl hbw, hlt⟩
    obtain rfl : m = m' := Option.some.inj (hm.symm.trans hm')
    exact hw.elim hmw haw
  · rintro hcond ⟨b, hb, hbu, hw, hlt⟩
    obtain ⟨m, hm, -, -, hle⟩ := h.le_newestOf hb hbu
    have hlt' : a.clk u < m.clk u := hlt.trans_le (hle u)
    refine ⟨m, hm, ?_, hlt'⟩
    rcases hcond with haw | hnewest | hordered
    · exact .inr haw
    · exact .inl (hnewest m hm)
    · exact hw.imp (fun hbw ↦ absurd hlt (not_lt.mpr (hordered b hb hbu hbw))) id

/-- Thread 0 writes a byte and reads it, then thread 1 reads it. Neither clock covers the other. -/
def readAfterOwnWrite : ByteRun 0 where
  shadow := ShadowBuffer.new 4096 8
  unused _ := rfl
  lt_byteLength := by decide
  calls := Execution.ofOps
    [.access ⟨0, true, VClock.empty.increment 0⟩, .access ⟨0, false, VClock.empty.increment 0⟩,
      .access ⟨1, false, VClock.empty.increment 1⟩] rfl
  covers h := by simp [Execution.ofOps] at h

theorem readAfterOwnWrite_twoThreads : readAfterOwnWrite.TwoThreads 0 1 where
  ne_mod := by decide
  tid_eq h := by
    simp only [readAfterOwnWrite, Execution.ofOps, List.mem_cons, List.not_mem_nil, or_false,
      ByteOp.access.injEq] at h
    rcases h with rfl | rfl | rfl <;> simp
  grows := by simp +contextual [readAfterOwnWrite, Execution.ofOps, kMaxThreads]

/-- The write of thread 0 is not seen by the read of thread 1. -/
theorem readAfterOwnWrite_not_shows : readAfterOwnWrite.TwoThreads 0 1 ∧
    readAfterOwnWrite.calls.ops[2]? = some (.access ⟨1, false, VClock.empty.increment 1⟩) ∧
    ¬readAfterOwnWrite.Shows 2 0 ⟨1, false, VClock.empty.increment 1⟩ := by
  refine ⟨readAfterOwnWrite_twoThreads, rfl, fun h ↦ ?_⟩
  have hreport := h ⟨⟨0, true, VClock.empty.increment 0⟩, by simp [since, readAfterOwnWrite,
    Execution.ofOps, ByteOp.push], rfl, .inl rfl, by decide⟩
  rw [readAfterOwnWrite_twoThreads.report_isSome_iff rfl rfl] at hreport
  obtain ⟨b, hb, hw, -⟩ := hreport
  obtain rfl : ⟨0, false, VClock.empty.increment 0⟩ = b := Option.some.inj hb
  simp at hw

theorem readAfterOwnWrite_shows_iff :
    readAfterOwnWrite.Shows 2 0 ⟨1, false, VClock.empty.increment 1⟩ ↔ false = true ∨
      (∀ b ∈ readAfterOwnWrite.newestOf 2 0, b.isWrite = true) ∨
      ∀ b ∈ readAfterOwnWrite.since 2, b.tid = 0 → b.isWrite = true →
        b.clk 0 ≤ VClock.empty.increment 1 0 :=
  readAfterOwnWrite.shows_iff readAfterOwnWrite_twoThreads rfl rfl

end ByteRun

end WebTSan
