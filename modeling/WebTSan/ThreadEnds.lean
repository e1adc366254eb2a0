import WebTSan.Detection

/-!
# Threads that end without finishing

`ThreadFinish` publishes the final clock of a thread to the orphan clock, for the threads to come,
and to every other live thread. `ThreadDestroy` makes up for a missing `ThreadFinish` with the
orphan clock only. A worker that is destroyed without having finished leaves the same state behind
exactly if every other live thread already knows what it knew; a live thread that does not is later
found to race with its last accesses.

## Main definitions

* `WebTSan.Detector.KnownToAll`: every other live thread knows what a thread knows.

## Main results

* `WebTSan.Detector.threadFinish_threadDestroy`: what finishing before destroying changes.
* `WebTSan.Detector.knownToAll_threadFinish`: finishing makes everything known.
* `WebTSan.threadDestroy_eq_iff`.
-/

namespace WebTSan

namespace Detector

variable {s : Detector} {t : Tid}

/-- Every other live thread knows what `t` knows. -/
def KnownToAll (s : Detector) (t : Tid) : Prop :=
  ∀ i, i ≠ t → s.threadAlive i = true → s.threadClocks t ≤ s.threadClocks i

@[simp] theorem threadDestroy_threadClocks :
    (s.threadDestroy t).threadClocks = s.threadClocks := by
  unfold threadDestroy
  split_ifs <;> rfl

section Enabled

variable (he : s.enabled = true)
include he

/-- Finishing before destroying changes the clocks of the live threads only. -/
theorem threadFinish_threadDestroy (ha : s.threadAlive t = true) :
    (s.threadFinish t).threadDestroy t =
      { s.threadDestroy t with threadClocks := (s.threadFinish t).threadClocks } := by
  simp [threadFinish, threadDestroy, he, ha, VClock.join_eq_sup]

/-- Finishing changes no clock exactly if there is nothing to publish. -/
theorem threadFinish_threadClocks_eq_iff :
    (s.threadFinish t).threadClocks = s.threadClocks ↔ s.KnownToAll t := by
  have hclocks (i : Tid) : (s.threadFinish t).threadClocks i =
      if i = t ∨ s.threadAlive i = false then s.threadClocks i
      else s.threadClocks i ⊔ s.threadClocks t := by
    rw [threadFinish, if_neg (by simp [he]), ← VClock.join_eq_sup]
  refine ⟨fun h i hi ha ↦ ?_, fun h ↦ funext fun i ↦ ?_⟩
  · have hclock := congrFun h i
    rw [hclocks, if_neg (by simp [hi, ha])] at hclock
    exact sup_eq_left.mp hclock
  · rw [hclocks]
    split_ifs with hi
    · rfl
    · push Not at hi
      exact sup_eq_left.mpr (h i hi.1 (by simpa using hi.2))

/-- A thread that has finished has made everything known. -/
theorem knownToAll_threadFinish : (s.threadFinish t).KnownToAll t := by
  intro i hi ha
  rw [threadFinish, if_neg (by simp [he])] at ha ⊢
  have halive : s.threadAlive i ≠ false := by simpa using ha
  simp only [true_or, ↓reduceIte, hi, halive, VClock.join_eq_sup]
  exact le_sup_right

/-- Destroying a live thread is the same with and without finishing before exactly if every other
live thread knows what it knows. -/
theorem threadDestroy_eq_iff_knownToAll (ha : s.threadAlive t = true) :
    s.threadDestroy t = (s.threadFinish t).threadDestroy t ↔ s.KnownToAll t := by
  have hclocks := threadDestroy_threadClocks (s := s) (t := t)
  rw [threadFinish_threadDestroy he ha, ← threadFinish_threadClocks_eq_iff he]
  refine ⟨fun h ↦ ?_, fun h ↦ ?_⟩
  · rw [← hclocks, h]
  · rw [h, ← hclocks]

end Enabled

end Detector

namespace Run

/-- Main thread 0 and worker 1 run. The worker writes a byte and is destroyed, and the main thread
reads the byte. -/
def destroyedWorker : Run := .ofOps
  [.threadCreate uint32Max, .threadCreate uint32Max, .memoryAccess 4096 8 0 1 1 true,
    .threadDestroy 1, .memoryAccess 4096 8 0 1 0 false] (by decide)

/-- The last write of the worker is reported, and with `ThreadFinish` the main thread would know of
it. -/
theorem destroyedWorker_reported :
    destroyedWorker.ops[3]? = some (.threadDestroy 1) ∧
    (destroyedWorker.state 3).threadAlive 1 = true ∧
    (destroyedWorker.state 3).threadDestroy 1 ≠
      ((destroyedWorker.state 3).threadFinish 1).threadDestroy 1 ∧
    (Op.found (destroyedWorker.state 4) (.memoryAccess 4096 8 0 1 0 false)).map RaceReport.tid1 =
      some 1 := by
  refine ⟨rfl, by decide, fun h ↦ ?_, by decide⟩
  exact absurd (congrArg (fun s ↦ s.threadClocks 0 1) h) (by decide)

/-- Everything that a destroyed thread did is handed over to the other live threads exactly if they
know it already. -/
theorem handedOver_threadDestroy_iff {r : Run} (hw : r.NoWrap) {k : ℕ} {t : Tid}
    (ho : r.ops[k]? = some (.threadDestroy t)) :
    (∀ u, u ≠ t → (r.state k).threadAlive u = true → r.HandedOver t u k (k + 1)) ↔
      (r.state k).KnownToAll t := by
  have hclocks : (r.state (k + 1)).threadClocks = (r.state k).threadClocks := by
    rw [r.state_succ ho rfl, Detector.threadDestroy_threadClocks]
  refine ⟨fun h u hu ha ↦ ?_, fun h u hu ha ↦ ?_⟩
  · exact (h u hu ha).clock_le.trans_eq (congrFun hclocks u)
  · refine .of_clock_le hw (lt_length_of_getElem? ho).le ?_
    rw [hclocks]
    exact h u hu ha

end Run

/-- What a missing `ThreadFinish` changes. In every state in which the detector is on, destroying a
live thread gives the same orphan clock and the same liveness with and without finishing before, and
the same state exactly if every other live thread knows what it knows. In a run whose counters do
not wrap around, this is also exactly when everything that the destroyed thread did is handed over
to the other live threads, so that none of its accesses is reported against an access that they make
later. -/
theorem threadDestroy_eq_iff (t : Tid) :
    (∀ {s : Detector}, s.enabled = true → s.threadAlive t = true →
      (s.threadDestroy t).orphanClock = ((s.threadFinish t).threadDestroy t).orphanClock ∧
      (s.threadDestroy t).threadAlive = ((s.threadFinish t).threadDestroy t).threadAlive ∧
      (s.threadDestroy t = (s.threadFinish t).threadDestroy t ↔ s.KnownToAll t)) ∧
    ∀ {r : Run} {k : ℕ}, r.NoWrap → r.ops[k]? = some (.threadDestroy t) →
      ((∀ u, u ≠ t → (r.state k).threadAlive u = true → r.HandedOver t u k (k + 1)) ↔
        (r.state k).KnownToAll t) := by
  refine ⟨fun he ha ↦ ?_, fun hw ho ↦ Run.handedOver_threadDestroy_iff hw ho⟩
  have hfinish := Detector.threadFinish_threadDestroy he ha
  exact ⟨by rw [hfinish], by rw [hfinish], Detector.threadDestroy_eq_iff_knownToAll he ha⟩

/-- Worker 1 writes a byte and sends a message to main thread 0, which receives it. Then the worker
is destroyed. -/
def messagedWorker : Run := .ofOps
  [.threadCreate uint32Max, .threadCreate uint32Max, .memoryAccess 4096 8 0 1 1 true,
    .happensBefore 1, .happensAfter 0 1, .threadDestroy 1] (by decide)

/-- The main thread is live and knows what the worker did. Finishing before would change nothing,
and everything is handed over. -/
theorem messagedWorker_threadDestroy :
    (messagedWorker.state 5).threadAlive 0 = true ∧
    (messagedWorker.state 5).threadDestroy 1 =
      ((messagedWorker.state 5).threadFinish 1).threadDestroy 1 ∧
    ∀ u, u ≠ 1 → (messagedWorker.state 5).threadAlive u = true →
      messagedWorker.HandedOver 1 u 5 6 := by
  obtain ⟨hstates, hruns⟩ := threadDestroy_eq_iff 1
  have hknown : (messagedWorker.state 5).KnownToAll 1 := by
    intro i hi ha
    have hlive : ∀ i, i ≠ 1 → (messagedWorker.state 5).threadAlive i = true → i = 0 := by decide
    obtain rfl := hlive i hi ha
    exact (VClock.happensBefore_iff _ _).mp (by decide)
  refine ⟨by decide, (hstates rfl (by decide)).2.2.mpr hknown, ?_⟩
  exact (hruns (messagedWorker.noWrap_of_length (by decide)) rfl).mpr hknown

end WebTSan
