import WebTSan.RaceSites

/-!
# Handing reports to the console

A counted race leaves a message in a thread-local slot. A consumer takes the message out: V8 with
`consume_race` after an access of generated code, and `FlushPendingRaceToConsole` after
`__webTSanRecordRange`. The slot holds one message. A race that is counted while a message is
waiting overwrites it, and a flush that finds no console drops it. This file counts messages: the
races counted by a thread are those handed out, the one that is waiting, and those lost in one of
these two ways.

A message is represented by the report that it is the text of.

## Main definitions

* `WebTSan.RaceSlot`, `WebTSan.Reporter`, `WebTSan.ReportStep`.
* `WebTSan.bulkSamples`: the accesses that a bulk operation records.
* `WebTSan.Reporting`, `WebTSan.Reporting.counted`, `WebTSan.Reporting.handedOut`,
  `WebTSan.Reporting.LosesAt`.

## Main results

* `WebTSan.ReportStep.exec_raceMessage`: what a step does to the slot of a thread.
* `WebTSan.Reporting.balance_iff`, `WebTSan.Reporting.exists_lost`.
-/

namespace WebTSan

/-- The thread-local variables of one thread. The flag is set exactly if there is a message. -/
structure RaceSlot where
  raceDetected : Bool
  /-- The report that `g_race_message` is the text of. -/
  raceMessage : Option RaceReport
  /-- The thread is in the call of `console.error` that a flush has made. -/
  inFlush : Bool
  raceDetected_eq : raceDetected = raceMessage.isSome

/-- The detector and the slots of all threads. -/
structure Reporter where
  detector : Detector
  slots : ℕ → RaceSlot

namespace Reporter

/-- The enabled detector, with no message waiting. -/
def initial : Reporter :=
  { detector := Detector.initial
    slots := fun _ ↦
      { raceDetected := false
        raceMessage := none
        inFlush := false
        raceDetected_eq := rfl } }

variable (r : Reporter) (thread : ℕ)

/-- `MemoryAccess` on a thread. The message of a race that passes the filter is stored for V8. -/
def memoryAccess (backingStore sabByteLength offset size : ℕ) (tid : Tid) (isWrite : Bool) :
    Reporter :=
  let res := r.detector.memoryAccess backingStore sabByteLength offset size tid isWrite
  { detector := res.2
    slots := match res.1.reported with
      | none => r.slots
      | some report => Function.update r.slots thread
        { r.slots thread with
          raceDetected := true
          raceMessage := some report
          raceDetected_eq := rfl } }

/-- Take the message out of the slot of a thread. -/
def clearSlot (inFlush : Bool) : Reporter :=
  { r with
    slots := Function.update r.slots thread
      { raceDetected := false
        raceMessage := none
        inFlush := inFlush
        raceDetected_eq := rfl } }

/-- The callback `consume_race`. -/
def consumeRace : Option RaceReport × Reporter :=
  if !(r.slots thread).raceDetected then (none, r)
  else ((r.slots thread).raceMessage, r.clearSlot thread (r.slots thread).inFlush)

/-- `FlushPendingRaceToConsole` up to its call of `console.error`. It returns before this call if
the context is empty or has no `console.error`; the slot is cleared in any case. -/
def flushPendingRaceToConsole (console : Bool) : Option RaceReport × Reporter :=
  if (r.slots thread).inFlush then (none, r)
  else if !(r.slots thread).raceDetected then (none, r)
  else (if console then (r.slots thread).raceMessage else none, r.clearSlot thread console)

/-- `console.error` returns to `FlushPendingRaceToConsole`. -/
def endFlush : Reporter :=
  { r with slots := Function.update r.slots thread { r.slots thread with inFlush := false } }

end Reporter

/-- A step of a thread: an access through one of the hooks, another call of the detector, or one of
the consumers. -/
inductive ReportStep
  | access (thread backingStore sabByteLength offset size : ℕ) (tid : Tid) (isWrite : Bool)
  | call (o : Op) (h : ∀ bs len off size t w, o ≠ .memoryAccess bs len off size t w)
  | consumeRace (thread : ℕ)
  | flushPendingRaceToConsole (thread : ℕ) (console : Bool)
  | endFlush (thread : ℕ)

namespace ReportStep

/-- The state after a step, if the step returns. -/
def exec (r : Reporter) : ReportStep → Option Reporter
  | .access thread backingStore sabByteLength offset size tid isWrite =>
    some (r.memoryAccess thread backingStore sabByteLength offset size tid isWrite)
  | .call o _ => (o.exec r.detector).map fun detector ↦ { r with detector := detector }
  | .consumeRace thread => some (r.consumeRace thread).2
  | .flushPendingRaceToConsole thread console =>
    some (r.flushPendingRaceToConsole thread console).2
  | .endFlush thread => some (r.endFlush thread)

/-- The race that a step of the thread adds to `races_detected_`. -/
def counts (r : Reporter) (thread : ℕ) : ReportStep → Option RaceReport
  | .access u backingStore sabByteLength offset size tid isWrite =>
    if u = thread then
      (r.detector.memoryAccess backingStore sabByteLength offset size tid isWrite).1.reported
    else none
  | _ => none

/-- The message that a step of the thread hands out. -/
def handsOut (r : Reporter) (thread : ℕ) : ReportStep → Option RaceReport
  | .consumeRace u => if u = thread then (r.consumeRace u).1 else none
  | .flushPendingRaceToConsole u console =>
    if u = thread then (r.flushPendingRaceToConsole u console).1 else none
  | _ => none

/-- A step of the thread loses its waiting message: another race is counted, or a flush finds no
console. -/
def loses (r : Reporter) (thread : ℕ) : ReportStep → Bool
  | .access u backingStore sabByteLength offset size tid isWrite =>
    u = thread && (r.slots thread).raceDetected &&
      (r.detector.memoryAccess backingStore sabByteLength offset size tid isWrite).1.reported.isSome
  | .flushPendingRaceToConsole u console =>
    u = thread && (r.slots thread).raceDetected && !(r.slots thread).inFlush && !console
  | _ => false

variable {r r' : Reporter} {s : ReportStep}

/-- What a step does to the slot of a thread: nothing, or it stores the message of a race that it
counts, or it takes the message out and hands it out or loses it. -/
theorem exec_raceMessage (h : s.exec r = some r') (thread : ℕ) :
    (s.counts r thread = none ∧ s.handsOut r thread = none ∧ s.loses r thread = false ∧
      (r'.slots thread).raceMessage = (r.slots thread).raceMessage) ∨
    (∃ report, s.counts r thread = some report ∧ s.handsOut r thread = none ∧
      s.loses r thread = (r.slots thread).raceMessage.isSome ∧
      (r'.slots thread).raceMessage = some report) ∨
    ∃ report, (r.slots thread).raceMessage = some report ∧ s.counts r thread = none ∧
      (r'.slots thread).raceMessage = none ∧
      (s.handsOut r thread = some report ∧ s.loses r thread = false ∨
        s.handsOut r thread = none ∧ s.loses r thread = true) := by
  have hdetected := (r.slots thread).raceDetected_eq
  cases s with
  | access u bs len off size t w =>
    obtain rfl := Option.some.inj h
    simp only [Reporter.memoryAccess, counts, handsOut, loses]
    by_cases hu : u = thread
    · subst hu
      cases hrep : (r.detector.memoryAccess bs len off size t w).1.reported with
      | none => exact .inl (by simp)
      | some report => exact .inr (.inl ⟨report, by simp [hdetected]⟩)
    · refine .inl ?_
      cases hrep : (r.detector.memoryAccess bs len off size t w).1.reported with
      | none => simp [hu]
      | some report => simp [hu, Ne.symm hu]
  | call o ho =>
    obtain ⟨detector, -, rfl⟩ := Option.map_eq_some_iff.mp h
    exact .inl ⟨rfl, rfl, rfl, rfl⟩
  | consumeRace u =>
    obtain rfl := Option.some.inj h
    by_cases hu : u = thread
    · subst hu
      cases hmsg : (r.slots u).raceMessage with
      | none =>
        rw [hmsg] at hdetected
        exact .inl (by simp [counts, handsOut, loses, Reporter.consumeRace, hdetected, hmsg])
      | some report =>
        rw [hmsg] at hdetected
        refine .inr (.inr ⟨report, rfl, ?_⟩)
        simp [counts, handsOut, loses, Reporter.consumeRace, hdetected, hmsg, Reporter.clearSlot]
    · refine .inl ⟨rfl, if_neg hu, rfl, ?_⟩
      simp only [Reporter.consumeRace]
      split_ifs
      · rfl
      · simp [Reporter.clearSlot, Ne.symm hu]
  | flushPendingRaceToConsole u console =>
    obtain rfl := Option.some.inj h
    by_cases hu : u = thread
    · subst hu
      cases hflush : (r.slots u).inFlush with
      | true =>
        exact .inl (by simp [counts, handsOut, loses, Reporter.flushPendingRaceToConsole, hflush])
      | false =>
        cases hmsg : (r.slots u).raceMessage with
        | none =>
          rw [hmsg] at hdetected
          exact .inl (by simp [counts, handsOut, loses, Reporter.flushPendingRaceToConsole, hflush,
            hdetected, hmsg])
        | some report =>
          rw [hmsg] at hdetected
          refine .inr (.inr ⟨report, rfl, ?_⟩)
          cases console <;> simp [counts, handsOut, loses, Reporter.flushPendingRaceToConsole,
            hflush, hdetected, hmsg, Reporter.clearSlot]
    · refine .inl ⟨rfl, if_neg hu, by simp [loses, hu], ?_⟩
      simp only [Reporter.flushPendingRaceToConsole]
      split_ifs
      · rfl
      · rfl
      · simp [Reporter.clearSlot, Ne.symm hu]
      · simp [Reporter.clearSlot, Ne.symm hu]
  | endFlush u =>
    obtain rfl := Option.some.inj h
    refine .inl ⟨rfl, rfl, rfl, ?_⟩
    by_cases hu : u = thread
    · subst hu
      simp [Reporter.endFlush]
    · simp [Reporter.endFlush, Ne.symm hu]

end ReportStep

/-! ### Bulk operations -/

/-- How many bytes of a bulk operation are recorded at most. -/
def kMaxSamples : ℕ := 64

/-- The offsets that the loop of `MaybeReportTSanBulkRange` records, with one byte for each. -/
def bulkSamples (offset size : ℕ) : List ℕ :=
  if size = 0 then []
  else
    let n := if size < kMaxSamples then size else kMaxSamples
    let stride := if size / n = 0 then 1 else size / n
    ((List.range n).map fun i ↦ offset + i * stride).takeWhile fun o ↦ o < offset + size

/-- `MaybeReportTSanBulkRange` on a thread with the current tid `tid`. -/
def maybeReportTSanBulkRange (thread backingStore byteLength offset size : ℕ) (tid : Tid)
    (isWrite : Bool) : List ReportStep :=
  (bulkSamples offset size).map fun o ↦ .access thread backingStore byteLength o 1 tid isWrite

theorem mem_bulkSamples {offset size o : ℕ} (h : o ∈ bulkSamples offset size) :
    offset ≤ o ∧ o < offset + size := by
  unfold bulkSamples at h
  by_cases hsize : size = 0
  · rw [if_pos hsize] at h
    cases h
  · rw [if_neg hsize] at h
    have hlt := List.mem_takeWhile_imp h
    obtain ⟨i, -, rfl⟩ := List.mem_map.mp ((List.takeWhile_sublist _).subset h)
    exact ⟨Nat.le_add_right _ _, of_decide_eq_true hlt⟩

/-! ### The balance of a thread -/

/-- A sequence of steps from the enabled detector. -/
abbrev Reporting := Execution ReportStep.exec Reporter.initial

namespace Reporting

variable (e : Reporting) (thread : ℕ)

/-- What a function finds in the first `k` steps, in order. -/
def gather (f : Reporter → ReportStep → Option RaceReport) (k : ℕ) : List RaceReport :=
  (List.range k).flatMap fun j ↦ (e.ops[j]?.bind fun s ↦ f (e.state j) s).toList

/-- The races that the thread has added to `races_detected_` in the first `k` steps. -/
def counted (k : ℕ) : List RaceReport := e.gather (ReportStep.counts · thread) k

/-- The messages that the thread has handed out in the first `k` steps. -/
def handedOut (k : ℕ) : List RaceReport := e.gather (ReportStep.handsOut · thread) k

/-- The message that is waiting after the first `k` steps. -/
def pending (k : ℕ) : List RaceReport := ((e.state k).slots thread).raceMessage.toList

/-- The thread loses its waiting message in the step at position `j`. -/
def LosesAt (j : ℕ) : Prop := ∃ s, e.ops[j]? = some s ∧ s.loses (e.state j) thread = true

/-- How many messages the thread has lost in the first `k` steps. -/
def losses (k : ℕ) : ℕ :=
  (List.range k).countP fun j ↦ e.ops[j]?.any fun s ↦ s.loses (e.state j) thread

variable {e}

theorem gather_succ (f : Reporter → ReportStep → Option RaceReport) {k : ℕ} {s : ReportStep}
    (h : e.ops[k]? = some s) : e.gather f (k + 1) = e.gather f k ++ (f (e.state k) s).toList := by
  simp [gather, List.range_succ, h]

theorem losses_succ {k : ℕ} {s : ReportStep} (h : e.ops[k]? = some s) :
    e.losses thread (k + 1) =
      e.losses thread k + if s.loses (e.state k) thread = true then 1 else 0 := by
  simp [losses, List.range_succ, List.countP_append, List.countP_singleton, h]

theorem losses_eq_zero_iff {k : ℕ} :
    e.losses thread k = 0 ↔ ∀ j < k, ¬e.LosesAt thread j := by
  rw [losses, List.countP_eq_zero]
  constructor
  · rintro h j hj ⟨s, hs, hl⟩
    have hj' := h j (List.mem_range.mpr hj)
    rw [hs] at hj'
    exact hj' hl
  · intro h j hj hany
    obtain ⟨s, hs, hl⟩ := (Option.any_eq_true _ _).mp hany
    exact h j (List.mem_range.mp hj) ⟨s, hs, hl⟩

/-- The races counted by a thread are those handed out, the one that is waiting, and the lost ones;
and what is handed out is what was counted, in the same order and without repetition. -/
theorem balance {k : ℕ} (hk : k ≤ e.ops.length) :
    (e.counted thread k).length =
        (e.handedOut thread k).length + (e.pending thread k).length + e.losses thread k ∧
      (e.handedOut thread k ++ e.pending thread k).Sublist (e.counted thread k) := by
  induction k with
  | zero =>
    rw [pending, e.state_zero]
    exact ⟨rfl, .slnil⟩
  | succ k ih =>
    obtain ⟨hlen, hsub⟩ := ih (Nat.le_of_succ_le hk)
    have hs := List.getElem?_eq_getElem hk
    have hcounted := gather_succ (ReportStep.counts · thread) hs
    have hhanded := gather_succ (ReportStep.handsOut · thread) hs
    have hlost := losses_succ thread hs
    rw [← counted, ← counted] at hcounted
    rw [← handedOut, ← handedOut] at hhanded
    rw [hcounted, hhanded, hlost]
    rcases ReportStep.exec_raceMessage (e.step hs) thread with ⟨hc, hh, hl, hmsg⟩ |
      ⟨report, hc, hh, hl, hmsg⟩ | ⟨report, hold, hc, hmsg, ⟨hh, hl⟩ | ⟨hh, hl⟩⟩
    · rw [hc, hh, hl, pending, hmsg, ← pending]
      simpa using ⟨hlen, hsub⟩
    · -- the new message takes the place of the waiting one, if there is one
      rw [hc, hh, hl, pending, hmsg]
      have hpending : (e.pending thread k).length =
          if ((e.state k).slots thread).raceMessage.isSome = true then 1 else 0 := by
        rw [pending]
        cases ((e.state k).slots thread).raceMessage <;> rfl
      refine ⟨?_, ?_⟩
      · simp only [List.length_append, Option.toList_some, Option.toList_none, List.length_nil,
          List.length_cons]
        omega
      · simpa using ((List.sublist_append_left _ _).trans hsub).append (List.Sublist.refl [report])
    · rw [pending, hold] at hlen hsub
      rw [hc, hh, hl, pending, hmsg]
      simpa using ⟨hlen, hsub⟩
    · rw [pending, hold] at hlen hsub
      rw [hc, hh, hl, pending, hmsg]
      simp only [Option.toList_some, Option.toList_none, List.length_singleton, List.length_nil,
        List.append_nil, ↓reduceIte] at hlen ⊢
      refine ⟨by omega, ?_⟩
      · simpa using (List.sublist_append_left _ _).trans hsub

/-- The races that a thread has counted are those whose messages it has handed out and the one that
is waiting, exactly if it has never lost a message: no race was counted while a message was waiting,
and no flush found a context without `console.error`. Every message handed out is the one of a
counted race of its own. -/
theorem balance_iff (e : Reporting) (thread : ℕ) {k : ℕ} (hk : k ≤ e.ops.length) :
    ((e.counted thread k).length = (e.handedOut thread k).length + (e.pending thread k).length ↔
      ∀ j < k, ¬e.LosesAt thread j) ∧
    (e.handedOut thread k).Sublist (e.counted thread k) := by
  obtain ⟨hlen, hsub⟩ := balance thread hk
  rw [← losses_eq_zero_iff]
  exact ⟨by omega, (List.sublist_append_left _ _).trans hsub⟩

/-- A thread races with an access of another thread, and V8 takes the message. -/
def consumedMessage : Reporting :=
  .ofOps [.call (.threadCreate uint32Max) nofun, .call (.threadCreate uint32Max) nofun,
    .access 0 4096 64 8 1 0 true, .access 1 4096 64 8 1 1 true, .consumeRace 1] (by decide)

theorem consumedMessage_balance : (consumedMessage.counted 1 5).length =
    (consumedMessage.handedOut 1 5).length + (consumedMessage.pending 1 5).length := by
  refine (consumedMessage.balance_iff 1 (by decide)).1.mpr ?_
  rintro j hj ⟨s, hs, hl⟩
  interval_cases j <;> obtain rfl := Option.some.inj hs <;> revert hl <;> decide

/-- A thread fills two bytes in different buckets, which another thread has written, and V8 takes
the message at its next access. -/
def lostMessage : Reporting :=
  .ofOps ([.call (.threadCreate uint32Max) nofun, .call (.threadCreate uint32Max) nofun,
    .access 0 4096 64 7 2 0 true] ++ maybeReportTSanBulkRange 1 4096 64 7 2 1 true ++
    [.consumeRace 1]) (by decide)

/-- A bulk operation counts two races, and one message is handed out. -/
theorem exists_lost : ∃ (e : Reporting) (thread : ℕ),
    (e.state e.ops.length).detector.racesDetected = 2 ∧
      (e.counted thread e.ops.length).length = 2 ∧
      (e.handedOut thread e.ops.length).length + (e.pending thread e.ops.length).length = 1 :=
  ⟨lostMessage, 1, by decide, by decide, by decide⟩

end Reporting

end WebTSan
