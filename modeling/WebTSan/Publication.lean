import WebTSan.Detection

/-!
# Publications that do not tick

`Release` and `MutexUnlock` tick the publishing thread, so that what it does afterwards gets a new
epoch. `HappensBefore`, `ThreadCreate` and `ThreadFinish` publish without a tick. What the
publishing thread does next keeps the published epoch and is taken as ordered before everything
that follows the publication. This file says exactly which races are found around a message, a
creation and a termination: a race is visible unless the epoch of its first access was already
published.

## Main definitions

* `WebTSan.Run.Visible`: a race that is found.
* `WebTSan.Run.Quiet`: calls that leave the clock of a thread alone.
* `WebTSan.Run.MessagePattern`, `WebTSan.Run.LifecyclePattern`.

## Main results

* `WebTSan.Run.messagePattern_findsRace_iff`, `WebTSan.Run.exists_missedRace_of_message`.
* `WebTSan.Run.lifecyclePattern_findsRace_iff`, `WebTSan.Run.exists_missedRace_of_create`.
-/

namespace WebTSan

/-- The calls that may change the clock of the thread in slot `t`, apart from its creation. -/
def Op.moves (t : Tid) : Op → Bool
  | .threadFinish u => u ≠ t
  | .threadJoin u _ | .threadAbsorb u _ | .acquire u _ | .release u _ | .mutexPostLock u _
  | .mutexUnlock u _ | .mutexReadLock u _ | .happensAfter u _ => u = t
  | _ => false

/-- The other calls leave the clock alone. -/
theorem Op.exec_threadClocks_of_not_moves {s s' : Detector} {o : Op} (he : s.enabled = true)
    (h : o.exec s = some s') {t : Tid} (ho : o.moves t = false)
    (hc : ∀ p, o = .threadCreate p → s.nextSlot ≠ t) : s'.threadClocks t = s.threadClocks t := by
  have hclock := Detector.exec_clockOf he h (.thread t)
  rw [Detector.clockOf_thread] at hclock
  rw [hclock]
  cases o with
  | threadCreate p =>
    have hne := hc p rfl
    simp [Detector.nextClock, Detector.ticks, Detector.sources, hne.symm]
  | threadFinish u =>
    have hu : u = t := by simpa [moves] using ho
    simp [Detector.nextClock, Detector.ticks, Detector.sources, hu]
  | threadJoin u _ | threadAbsorb u _ | acquire u _ | release u _ | mutexPostLock u _
  | mutexUnlock u _ | mutexReadLock u _ | happensAfter u _ =>
    have hu : t ≠ u := fun hu ↦ of_decide_eq_false ho hu.symm
    simp [Detector.nextClock, Detector.ticks, Detector.sources, hu]
  | _ => simp [Detector.nextClock, Detector.ticks, Detector.sources]

namespace Run

variable {r : Run}

/-- No call between the points `i` and `j` changes the clock of `t`. -/
def Quiet (r : Run) (t : Tid) (i j : ℕ) : Prop :=
  ∀ ⦃m o⦄, i ≤ m → m < j → r.ops[m]? = some o → o.moves t = false

theorem Quiet.threadClocks_eq {t : Tid} {i j : ℕ} (h : r.Quiet t i j)
    (hsame : r.SameOccupant t i j) (hij : i ≤ j) (hj : j ≤ r.ops.length) :
    (r.state j).threadClocks t = (r.state i).threadClocks t := by
  refine r.invariant_from (P := fun s ↦ s.threadClocks t = (r.state i).threadClocks t) hij hj rfl
    fun him hmj ho ih ↦ ?_
  have hstep := Op.exec_threadClocks_of_not_moves (r.enabled (hmj.trans_le hj).le) (r.step ho)
    (h him hmj ho) fun p hp hslot ↦ hsame him hmj (creates_iff.mpr ⟨p, hp ▸ ho, hslot⟩)
  exact hstep.trans ih

/-- A publication that the thread has not moved on from carries the epoch of its accesses. -/
theorem Quiet.not_unpublished {q i k : ℕ} {t u : Tid} (h : r.Quiet t q i)
    (hsame : r.SameOccupant t q i) (hqi : q ≤ i) (hi : i ≤ r.ops.length) (hp : r.Publishes q t)
    (hb : r.HappensBefore (q, t) (k, u)) : ¬r.Unpublished i t k u := by
  rintro ⟨-, hunpub⟩
  refine hunpub q hp ?_ hb
  rw [h.threadClocks_eq hsame hqi hi]

/-- The race between the accesses at the positions `i` and `k` is visible to the detector: the epoch
of the first one is unpublished, or the second one is exposed to a third access. -/
def Visible (r : Run) (i : ℕ) (t : Tid) (k : ℕ) (u : Tid) : Prop :=
  r.Unpublished i t k u ∨ ∃ x, x ≠ i ∧ r.Exposes x k

/-- A visible race is found, and only visible races are found if no counter wraps around. -/
theorem Conflict.findsRace {i k bs byte : ℕ} {t u : Tid} {w w' : Bool}
    (hc : r.Conflict i k bs byte t u w w') :
    (r.Visible i t k u → r.FindsRace k) ∧ (r.NoWrap → r.FindsRace k → r.Visible i t k u) := by
  constructor
  · rintro (hunpub | ⟨x, -, hx⟩)
    · exact findsRace_of_exposes ⟨bs, byte, t, u, w, w', hc, hunpub⟩
    · exact findsRace_of_exposes hx
  · intro hw hf
    obtain ⟨x, hx⟩ := (findsRace_iff hw).mp hf
    by_cases hxi : x = i
    · subst hxi
      obtain ⟨bs', byte', t', u', _, _, hc', hunpub⟩ := hx
      obtain ⟨_, _, _, ho, -⟩ := hc.recorded.access
      obtain ⟨_, _, _, ho', -⟩ := hc'.recorded.access
      obtain ⟨_, _, _, hk, -⟩ := hc.access
      obtain ⟨_, _, _, hk', -⟩ := hc'.access
      obtain ⟨-, -, -, -, rfl, -⟩ := Op.memoryAccess.inj (Option.some.inj (ho.symm.trans ho'))
      obtain ⟨-, -, -, -, rfl, -⟩ := Op.memoryAccess.inj (Option.some.inj (hk.symm.trans hk'))
      exact .inl hunpub
    · exact .inr ⟨x, hxi, hx⟩

/-! ### Messages -/

/-- Thread `s` sends a message at position `p` and makes the call at position `i` later, while
thread `u` receives the message at position `m` and makes the call at position `j` later. -/
structure MessagePattern (r : Run) (p m i j : ℕ) (s u : Tid) (id : ℕ) : Prop where
  sends : r.Sends p s id
  receives : r.Receives m u id
  lt : p < m
  keeps : r.KeepsEdge id p m
  lt_sender : p < i
  lt_receiver : m < j
  sender : r.SameOccupant s p i
  receiver : r.SameOccupant u (m + 1) j

theorem MessagePattern.happensBefore {p m i j id : ℕ} {s u : Tid}
    (h : r.MessagePattern p m i j s u id) : r.HappensBefore (p, s) (m + 1, u) :=
  .single (.message h.lt h.sends h.receives h.keeps)

theorem Sends.publishes {p id : ℕ} {s : Tid} (h : r.Sends p s id) : r.Publishes p s :=
  ⟨_, h.1, decide_eq_true rfl⟩

/-- Around a message, a race between the sender and the receiver is found exactly if it is visible,
whichever access comes first, and what the receiver has got from the message is behind the sender's
access exactly if the epoch of this access is unpublished. It is never so when the sender has done
nothing since the send that moves its clock. -/
theorem messagePattern_findsRace_iff (r : Run) {p m i j id : ℕ} {s u : Tid} (hsu : s ≠ u)
    (h : r.MessagePattern p m i j s u id) :
    (∀ {bs byte w w'}, r.Conflict i j bs byte s u w w' →
      (r.Visible i s j u → r.FindsRace j) ∧ (r.NoWrap → r.FindsRace j → r.Visible i s j u) ∧
        (r.Quiet s p i → ¬r.Unpublished i s j u)) ∧
    (∀ {bs byte w w'}, r.Conflict j i bs byte u s w w' →
      (r.Visible j u i s → r.FindsRace i) ∧ (r.NoWrap → r.FindsRace i → r.Visible j u i s)) ∧
    (i ≤ r.ops.length →
      (r.Unpublished i s (m + 1) u →
        (r.state (m + 1)).threadClocks u s < (r.state i).threadClocks s s) ∧
      (r.NoWrap → (r.state (m + 1)).threadClocks u s < (r.state i).threadClocks s s →
        r.Unpublished i s (m + 1) u) ∧
      (r.Quiet s p i → ¬r.Unpublished i s (m + 1) u)) := by
  have hpub := h.sends.publishes
  have hb := h.happensBefore
  refine ⟨fun {bs byte w w'} hc ↦ ?_, fun hc ↦ hc.findsRace, fun hi ↦ ⟨?_, ?_, fun hq ↦ ?_⟩⟩
  · obtain ⟨_, _, _, ho, -⟩ := hc.access
    obtain ⟨_, _, _, ho', -⟩ := hc.recorded.access
    refine ⟨hc.findsRace.1, hc.findsRace.2, fun hq ↦ ?_⟩
    exact hq.not_unpublished h.sender h.lt_sender.le (lt_length_of_getElem? ho').le hpub
      (hb.programOrder h.receiver h.lt_receiver (lt_length_of_getElem? ho).le)
  · exact fun hunpub ↦ hunpub.lt (lt_length_of_getElem? h.receives.1) hsu.symm
  · exact fun hw hlt ↦ unpublished_of_lt hw hlt
  · exact hq.not_unpublished h.sender h.lt_sender.le hi hpub hb

/-- Thread 0 sends a message and writes a byte. Thread 1 receives the message and writes the same
byte. -/
def sendThenWrite : Run :=
  .ofOps [.threadCreate uint32Max, .threadCreate uint32Max, .happensBefore 0,
    .memoryAccess 1000 64 8 1 0 true, .happensAfter 1 1, .memoryAccess 1000 64 8 1 1 true]
    (by decide)

theorem sendThenWrite_pattern : sendThenWrite.MessagePattern 2 4 3 5 0 1 1 where
  sends := ⟨rfl, rfl⟩
  receives := ⟨rfl, by decide⟩
  lt := by decide
  keeps := by
    intro m hm hmj
    obtain rfl : m = 3 := by omega
    exact ⟨fun u h ↦ (nomatch h.1), fun t h ↦ (nomatch h.1)⟩
  lt_sender := by decide
  lt_receiver := by decide
  sender := by
    rintro m hm hmj ⟨p, ho, -⟩
    obtain rfl : m = 2 := by omega
    cases ho
  receiver := by
    intro m hm hmj
    omega

theorem sendThenWrite_conflict : sendThenWrite.Conflict 3 5 1000 8 0 1 true true where
  recorded :=
    { access := ⟨64, 8, 1, rfl, le_rfl, by decide⟩
      lt := by decide
      inPlace := fun {m} hm hmk ↦ by interval_cases m <;> rfl }
  access := ⟨64, 8, 1, rfl, le_rfl, by decide⟩
  ne := by decide
  write := .inl rfl

theorem sendThenWrite_quiet : sendThenWrite.Quiet 0 2 3 := by
  intro m o hm hmj ho
  obtain rfl : m = 2 := by omega
  obtain rfl := Option.some.inj ho
  rfl

theorem sendThenWrite_findsRace : (sendThenWrite.FindsRace 5 ↔ sendThenWrite.Visible 3 0 5 1) ∧
    ¬sendThenWrite.Unpublished 3 0 5 1 := by
  obtain ⟨hfinds, hvis, hnot⟩ := (sendThenWrite.messagePattern_findsRace_iff (by decide)
    sendThenWrite_pattern).1 sendThenWrite_conflict
  exact ⟨⟨hvis (sendThenWrite.noWrap_of_length (by decide)), hfinds⟩, hnot sendThenWrite_quiet⟩

/-- An unordered pair of writes after a send is missed. -/
theorem exists_missedRace_of_message : ∃ (r : Run) (p m i j id : ℕ) (s u : Tid),
    r.MessagePattern p m i j s u id ∧ r.Quiet s p i ∧ r.Conflict i j 1000 8 s u true true ∧
      ¬r.HappensBefore (i, s) (j, u) ∧ ¬r.HappensBefore (j, u) (i, s) ∧ ¬r.FindsRace j := by
  refine ⟨sendThenWrite, 2, 4, 3, 5, 1, 0, 1, sendThenWrite_pattern, sendThenWrite_quiet,
    sendThenWrite_conflict, fun hb ↦ ?_, fun hb ↦ absurd hb.lt (by decide), ?_⟩
  · obtain ⟨q, hq, hqj, o, ho, hp⟩ := hb.exists_publishes (by decide)
    interval_cases q <;> obtain rfl := Option.some.inj ho <;> cases hp
  · rintro ⟨o, ho, hf⟩
    obtain rfl := Option.some.inj ho
    revert hf
    decide

/-! ### Thread creation and termination -/

/-- The call at position `q` hands the clock of `t` to `u`, which has it from point `k` on: it
creates `u` with the parent `t`, or `t` finishes while `u` is alive or before `u` is created. -/
inductive HandsOver (r : Run) (q : ℕ) (t u : Tid) : ℕ → Prop
  | create (ho : r.ops[q]? = some (.threadCreate t)) (hc : r.Creates q u)
      (ha : (r.state q).threadAlive t = true) : HandsOver r q t u (q + 1)
  | finish (ho : r.ops[q]? = some (.threadFinish t)) (ha : (r.state q).threadAlive u = true) :
      HandsOver r q t u (q + 1)
  | orphan {k : ℕ} (ho : r.ops[q]? = some (.threadFinish t)) (hqk : q < k) (hc : r.Creates k u) :
      HandsOver r q t u (k + 1)

/-- Thread `t` hands its clock to `u` at position `q` and makes the call at position `i` later,
while `u` makes the call at position `j` after it has the clock, from point `k` on. -/
structure LifecyclePattern (r : Run) (q k i j : ℕ) (t u : Tid) : Prop where
  ne : t ≠ u
  handsOver : r.HandsOver q t u k
  lt_publisher : q < i
  le_other : k ≤ j
  publisher : r.SameOccupant t q i
  other : r.SameOccupant u k j

theorem liveParent_of_alive {s : Detector} {parent : Tid} (h : s.threadAlive parent = true)
    (tid : Tid) : s.liveParent tid parent = some parent := by
  have hmax : (parent : ℕ) ≠ uint32Max ∧ (parent : ℕ) < kMaxThreads :=
    ⟨(parent.isLt.trans (by decide)).ne, parent.isLt⟩
  have halive : Function.update s.threadAlive tid true parent = true := by
    by_cases hp : parent = tid
    · rw [hp, Function.update_self]
    · rw [Function.update_of_ne hp, h]
  rw [Detector.liveParent, dif_pos hmax]
  exact if_pos halive

theorem HandsOver.happensBefore {q k : ℕ} {t u : Tid} (h : r.HandsOver q t u k) (htu : t ≠ u) :
    r.HappensBefore (q, t) (k, u) := by
  cases h with
  | create ho hc ha => exact .single (.create ho hc (liveParent_of_alive ha u))
  | finish ho ha => exact .single (.finish ho htu.symm ha)
  | orphan ho hqk hc => exact .single (.orphan hqk ⟨_, ho, .inl rfl⟩ hc)

theorem HandsOver.publishes {q k : ℕ} {t u : Tid} (h : r.HandsOver q t u k) :
    r.Publishes q t := by
  cases h with
  | create ho hc ha => exact ⟨_, ho, decide_eq_true (liveParent_of_alive ha _)⟩
  | finish ho ha => exact ⟨_, ho, decide_eq_true rfl⟩
  | orphan ho hqk hc => exact ⟨_, ho, decide_eq_true rfl⟩

/-- Around a creation or a termination, a race between the publishing thread and the one that has
got its clock is found exactly if it is visible, whichever access comes first. It is not visible
when the publishing thread accesses first and has done nothing since that moves its clock. Right
after a creation or a termination the publishing thread is never ahead of the copies that it has
handed out. -/
theorem lifecyclePattern_findsRace_iff (r : Run) :
    (∀ {q k i j : ℕ} {t u : Tid}, r.LifecyclePattern q k i j t u →
      (∀ {bs byte w w'}, r.Conflict i j bs byte t u w w' →
        (r.Visible i t j u → r.FindsRace j) ∧ (r.NoWrap → r.FindsRace j → r.Visible i t j u) ∧
          (r.Quiet t q i → ¬r.Unpublished i t j u)) ∧
      ∀ {bs byte w w'}, r.Conflict j i bs byte u t w w' →
        (r.Visible j u i t → r.FindsRace i) ∧ (r.NoWrap → r.FindsRace i → r.Visible j u i t)) ∧
    (∀ {q : ℕ} {t u : Tid}, r.ops[q]? = some (.threadCreate t) → r.Creates q u → t ≠ u →
      (r.state q).threadAlive t = true →
      ¬(r.state (q + 1)).threadClocks u t < (r.state (q + 1)).threadClocks t t) ∧
    ∀ {q : ℕ} {t : Tid}, r.ops[q]? = some (.threadFinish t) →
      ¬(r.state (q + 1)).orphanClock t < (r.state (q + 1)).threadClocks t t ∧
      ∀ u, (r.state q).threadAlive u = true →
        ¬(r.state (q + 1)).threadClocks u t < (r.state (q + 1)).threadClocks t t := by
  refine ⟨fun h ↦ ⟨fun hc ↦ ?_, fun hc ↦ hc.findsRace⟩, ?_, ?_⟩
  · obtain ⟨_, _, _, ho, -⟩ := hc.access
    obtain ⟨_, _, _, ho', -⟩ := hc.recorded.access
    refine ⟨hc.findsRace.1, hc.findsRace.2, fun hq ↦ ?_⟩
    exact hq.not_unpublished h.publisher h.lt_publisher.le (lt_length_of_getElem? ho').le
      h.handsOver.publishes ((h.handsOver.happensBefore h.ne).programOrder h.other h.le_other
        (lt_length_of_getElem? ho).le)
  · intro q t u ho hc htu ha
    obtain ⟨p, hp, hcreate⟩ := hc
    obtain rfl := Op.threadCreate.inj (Option.some.inj (ho.symm.trans hp))
    obtain ⟨-, hs⟩ := Detector.threadCreate_eq_some_iff.mp hcreate
    have hbirth := @le_sup_left _ _ ((r.state q).threadClocks t t) ((r.state q).orphanClock t)
    rw [hs]
    simp only [Detector.occupy, Function.update_self, Function.update_of_ne htu,
      VClock.increment_of_ne _ htu, Detector.birthClock, liveParent_of_alive ha, VClock.join_apply]
    exact not_lt_of_ge hbirth
  · intro q t ho
    have he := r.enabled (lt_length_of_getElem? ho).le
    rw [r.state_succ ho rfl]
    simp only [Detector.threadFinish, he, Bool.not_true, Bool.false_eq_true, ↓reduceIte, true_or,
      VClock.join_apply]
    refine ⟨not_lt_of_ge le_sup_right, fun u ha ↦ ?_⟩
    by_cases hut : u = t
    · subst hut
      simp
    · simp [hut, ha]

/-- A parent writes a byte after it has created a thread that writes the same byte. -/
def createThenWrite : Run :=
  .ofOps [.threadCreate uint32Max, .threadCreate 0, .memoryAccess 1000 64 8 1 0 true,
    .memoryAccess 1000 64 8 1 1 true] (by decide)

theorem createThenWrite_pattern : createThenWrite.LifecyclePattern 1 2 2 3 0 1 where
  ne := by decide
  handsOver := .create rfl (creates_iff.mpr ⟨0, rfl, by decide⟩) rfl
  lt_publisher := by decide
  le_other := by decide
  publisher := by
    intro m hm hmi hc
    obtain rfl : m = 1 := by omega
    obtain ⟨p, -, hslot⟩ := creates_iff.mp hc
    revert hslot
    decide
  other := by
    rintro m hm hmj ⟨p, ho, -⟩
    obtain rfl : m = 2 := by omega
    cases ho

theorem createThenWrite_conflict : createThenWrite.Conflict 2 3 1000 8 0 1 true true where
  recorded :=
    { access := ⟨64, 8, 1, rfl, le_rfl, by decide⟩
      lt := by decide
      inPlace := fun {m} hm hmk ↦ by interval_cases m; rfl }
  access := ⟨64, 8, 1, rfl, le_rfl, by decide⟩
  ne := by decide
  write := .inl rfl

theorem createThenWrite_quiet : createThenWrite.Quiet 0 1 2 := by
  intro m o hm hmj ho
  obtain rfl : m = 1 := by omega
  obtain rfl := Option.some.inj ho
  rfl

theorem createThenWrite_findsRace :
    (createThenWrite.FindsRace 3 ↔ createThenWrite.Visible 2 0 3 1) ∧
      ¬createThenWrite.Unpublished 2 0 3 1 := by
  obtain ⟨hfinds, hvis, hnot⟩ := (createThenWrite.lifecyclePattern_findsRace_iff.1
    createThenWrite_pattern).1 createThenWrite_conflict
  exact ⟨⟨hvis (createThenWrite.noWrap_of_length (by decide)), hfinds⟩, hnot createThenWrite_quiet⟩

/-- An unordered pair of writes by a parent and its child, after the creation of the child, is
missed. -/
theorem exists_missedRace_of_create : ∃ (r : Run) (q i j : ℕ) (parent child : Tid),
    r.LifecyclePattern q (q + 1) i j parent child ∧
      r.Conflict i j 1000 8 parent child true true ∧ ¬r.HappensBefore (i, parent) (j, child) ∧
      ¬r.HappensBefore (j, child) (i, parent) ∧ ¬r.FindsRace j := by
  refine ⟨createThenWrite, 1, 2, 3, 0, 1, createThenWrite_pattern, createThenWrite_conflict,
    fun hb ↦ ?_, fun hb ↦ absurd hb.lt (by decide), ?_⟩
  · obtain ⟨q, hq, hqj, o, ho, hp⟩ := hb.exists_publishes (by decide)
    interval_cases q
    obtain rfl := Option.some.inj ho
    cases hp
  · rintro ⟨o, ho, hf⟩
    obtain rfl := Option.some.inj ho
    revert hf
    decide

end Run

end WebTSan
