import WebTSan.HappensBefore

/-!
# The edges of messages

A `postMessage` asks the detector for an edge id and ships it with the message. The delivery of the
message hands the id back. Between the two, messages are reordered, duplicated or lost, and ids that
were never sent may be delivered. The map of edges holds, at every point of a run, exactly the ids
that have been sent and not been delivered since, each with the clock that its sender had at the
send.

## Main definitions

* `WebTSan.Run.sendCount`: the number of messages sent so far.
* `WebTSan.Run.SendsMessage`, `WebTSan.Run.Delivers`.
* `WebTSan.Run.InFlight`: an id that has been sent and has not been delivered yet.

## Main results

* `WebTSan.Run.sendsMessage_id`: the ids count the messages.
* `WebTSan.Run.hbEdges_succ`: what a call does to the edge of an id.
* `WebTSan.Run.hbEdges_eq_some_iff`: what the map of edges holds.
* `WebTSan.Run.postMessage_edges`: the first delivery of a message joins the clock of the send, and
  every other delivery does nothing.
-/

namespace WebTSan

/-- The call sends a message. -/
def Op.sendsMessage : Op → Bool
  | .happensBefore _ => true
  | _ => false

namespace Detector

variable {s : Detector}

/-- A delivery of an id without an edge does nothing. -/
theorem happensAfter_of_none {u : Tid} {id : ℕ} (h : s.hbEdges id = none) :
    s.happensAfter u id = s := by
  unfold happensAfter
  rw [h]
  split_ifs <;> rfl

theorem happensAfter_of_some (he : s.enabled = true) {u : Tid} {id : ℕ} (hid : id ≠ 0)
    {clk : VClock} (h : s.hbEdges id = some clk) :
    s.happensAfter u id = { s with
      threadClocks := Function.update s.threadClocks u ((s.threadClocks u).join clk)
      hbEdges := Function.update s.hbEdges id none } := by
  rw [happensAfter, if_neg (by simp [he, hid]), h]

theorem hbEdges_happensAfter (he : s.enabled = true) (u : Tid) (id id' : ℕ) :
    (s.happensAfter u id).hbEdges id' = if id' = id ∧ id ≠ 0 then none else s.hbEdges id' := by
  cases hedge : s.hbEdges id with
  | none =>
    rw [happensAfter_of_none hedge]
    split_ifs with h
    · rw [h.1, hedge]
    · rfl
  | some clk =>
    by_cases hid : id = 0
    · rw [happensAfter, if_pos (.inr hid), if_neg fun h ↦ h.2 hid]
    · rw [happensAfter_of_some he hid hedge]
      by_cases hid' : id' = id
      · rw [if_pos ⟨hid', hid⟩, hid']
        exact Function.update_self ..
      · rw [if_neg fun h ↦ hid' h.1]
        exact Function.update_of_ne hid' ..

theorem hbEdges_happensBefore (he : s.enabled = true) (t : Tid) (id : ℕ) :
    (s.happensBefore t).2.hbEdges id =
      if id = s.nextEdgeId then some (s.threadClocks t) else s.hbEdges id := by
  rw [happensBefore, if_neg (by simp [he])]
  exact Function.update_apply ..

/-- A delivery leaves the clocks of all other threads alone. -/
theorem happensAfter_threadClocks_of_ne {u v : Tid} (hv : v ≠ u) (id : ℕ) :
    (s.happensAfter u id).threadClocks v = s.threadClocks v := by
  unfold happensAfter
  split_ifs
  · rfl
  · cases s.hbEdges id with
    | none => rfl
    | some clk => exact Function.update_of_ne hv ..

end Detector

namespace Op

variable {s s' : Detector} {o : Op}

/-- The other calls leave the edges alone. -/
theorem exec_edges (he : s.enabled = true) (h : o.exec s = some s')
    (hsend : o.sendsMessage = false) (hdeliver : ∀ u id, o ≠ .happensAfter u id) :
    s'.hbEdges = s.hbEdges ∧ s'.nextEdgeId = s.nextEdgeId := by
  cases o with
  | threadCreate p =>
    obtain ⟨⟨t, s''⟩, hc, rfl⟩ := Option.map_eq_some_iff.mp h
    obtain ⟨-, rfl⟩ := Detector.threadCreate_eq_some_iff.mp hc
    exact ⟨rfl, rfl⟩
  | acquire t a | mutexPostLock t a | mutexReadLock t a =>
    obtain rfl := Option.some.inj h
    obtain ⟨clocks, hs⟩ := s.joinSync_eq t a
    simp [Detector.acquire, Detector.mutexPostLock, Detector.mutexReadLock, he, hs]
  | threadAbsorb d t =>
    obtain rfl := Option.some.inj h
    obtain ⟨clocks, hs⟩ := s.threadAbsorb_eq d t
    rw [hs]
    exact ⟨rfl, rfl⟩
  | clearShadow bs off size =>
    obtain ⟨shadows, rfl⟩ := Detector.clearShadow_eq h
    exact ⟨rfl, rfl⟩
  | memoryAccess bs len off size t w =>
    obtain rfl := Option.some.inj h
    obtain ⟨_, _, _, _, _, hs, -⟩ := s.memoryAccess_eq he bs len off size t w
    rw [hs]
    exact ⟨rfl, rfl⟩
  | happensBefore t => cases hsend
  | happensAfter u id => exact absurd rfl (hdeliver u id)
  | _ =>
    obtain rfl := Option.some.inj h
    simp [Detector.threadFinish, Detector.threadDestroy, Detector.threadJoin,
      Detector.threadDetach, Detector.release, Detector.mutexCreate, Detector.mutexDestroy,
      Detector.mutexPreLock, Detector.mutexUnlock, Detector.mutexReadUnlock,
      Detector.removeShadow, Detector.publishSync, Detector.eraseSync, he]

/-- A send takes the next edge id, and the other calls leave it alone. -/
theorem exec_nextEdgeId (he : s.enabled = true) (h : o.exec s = some s') :
    s'.nextEdgeId = if o.sendsMessage = true then bump s.nextEdgeId else s.nextEdgeId := by
  by_cases hsend : o.sendsMessage = true
  · cases o with
    | happensBefore t =>
      rw [← Option.some.inj h, Detector.happensBefore, if_neg (by simp [he]), if_pos hsend]
    | _ => cases hsend
  rw [if_neg hsend]
  by_cases hdeliver : ∃ u id, o = .happensAfter u id
  · obtain ⟨u, id, rfl⟩ := hdeliver
    obtain ⟨clocks, edges, hs⟩ := s.happensAfter_eq u id
    rw [← Option.some.inj h, hs]
  · push Not at hdeliver
    exact (exec_edges he h ((Bool.not_eq_true _).mp hsend) hdeliver).2

end Op

namespace Run

variable (r : Run)

/-- The number of messages sent before point `k`. -/
def sendCount (k : ℕ) : ℕ := (r.ops.take k).countP Op.sendsMessage

/-- Thread `t` sends a message at position `i` and gets the edge id `id`. -/
def SendsMessage (i : ℕ) (t : Tid) (id : ℕ) : Prop :=
  r.ops[i]? = some (.happensBefore t) ∧ ((r.state i).happensBefore t).1 = id

/-- A message with the edge id `id` is delivered at position `j`. -/
def Delivers (j id : ℕ) : Prop := ∃ u, r.ops[j]? = some (.happensAfter u id)

/-- The id that thread `t` got at position `i` has not been delivered up to point `k`. -/
def InFlight (i : ℕ) (t : Tid) (id k : ℕ) : Prop :=
  r.SendsMessage i t id ∧ i < k ∧ ∀ m, i < m → m < k → ¬r.Delivers m id

variable {r} {i j k id : ℕ} {t u : Tid}

theorem sendCount_succ {o : Op} (ho : r.ops[k]? = some o) :
    r.sendCount (k + 1) = r.sendCount k + if o.sendsMessage then 1 else 0 := by
  rw [sendCount, countP_take_succ ho, ← sendCount]
  cases o.sendsMessage <;> rfl

theorem sendCount_mono (h : i ≤ k) : r.sendCount i ≤ r.sendCount k :=
  (List.take_sublist_take_left h).countP_le

theorem SendsMessage.lt_length (h : r.SendsMessage i t id) : i < r.ops.length :=
  lt_length_of_getElem? h.1

/-- `HappensBefore` returns the next edge id. -/
theorem sendsMessage_iff : r.SendsMessage i t id ↔ r.Sends i t id := by
  refine and_congr_right fun ho ↦ ?_
  rw [Detector.happensBefore, if_neg (by simp [r.enabled (lt_length_of_getElem? ho).le])]

/-- The next edge id counts the messages, modulo `2 ^ 64`. -/
theorem nextEdgeId_eq (hk : k ≤ r.ops.length) :
    (r.state k).nextEdgeId = (r.sendCount k + 1) % 2 ^ 64 := by
  induction k with
  | zero =>
    rw [r.state_zero]
    rfl
  | succ k ih =>
    have he := r.enabled (Nat.le_of_succ_le hk)
    have ho := List.getElem?_eq_getElem hk
    rw [Op.exec_nextEdgeId he (r.step ho), sendCount_succ ho, ih (Nat.le_of_succ_le hk)]
    split_ifs
    · rw [bump, Nat.mod_add_mod]
    · rfl

/-- The ids count the messages, as long as there are fewer than `2 ^ 64`. -/
theorem sendsMessage_id (h : r.SendsMessage i t id) (hik : i < k) (hk : r.sendCount k < 2 ^ 64) :
    id = r.sendCount i + 1 ∧ id ≤ r.sendCount k := by
  have hcount : r.sendCount i + 1 ≤ r.sendCount k := by
    have hsucc := sendCount_succ h.1
    exact hsucc ▸ sendCount_mono hik
  have hid := (sendsMessage_iff.mp h).2
  rw [nextEdgeId_eq h.lt_length.le, Nat.mod_eq_of_lt (hcount.trans_lt hk)] at hid
  exact ⟨hid.symm, hid ▸ hcount⟩

/-- No two messages have the same id. -/
theorem SendsMessage.unique {i' : ℕ} {t' : Tid} (h : r.SendsMessage i t id)
    (h' : r.SendsMessage i' t' id) (hik : i < k) (hik' : i' < k) (hk : r.sendCount k < 2 ^ 64) :
    i = i' := by
  have hcount : r.sendCount i = r.sendCount i' :=
    Nat.succ.inj ((sendsMessage_id h hik hk).1.symm.trans (sendsMessage_id h' hik' hk).1)
  have hne {m n : ℕ} {v : Tid} (hmn : m < n) (hm : r.SendsMessage m v id) :
      r.sendCount m ≠ r.sendCount n := by
    have hsucc : r.sendCount (m + 1) = r.sendCount m + 1 := sendCount_succ hm.1
    have hle : r.sendCount (m + 1) ≤ r.sendCount n := sendCount_mono hmn
    omega
  rcases lt_trichotomy i i' with hlt | heq | hlt
  · exact absurd hcount (hne hlt h)
  · exact heq
  · exact absurd hcount.symm (hne hlt h')

/-- An id that is in flight stays so until it is delivered. -/
theorem inFlight_succ_iff : r.InFlight i t id (k + 1) ↔
    r.InFlight i t id k ∧ ¬r.Delivers k id ∨ r.SendsMessage k t id ∧ i = k := by
  constructor
  · rintro ⟨hs, hik, hnot⟩
    rcases Nat.lt_succ_iff_lt_or_eq.mp hik with hik | rfl
    · exact .inl ⟨⟨hs, hik, fun m hm hmk ↦ hnot m hm (hmk.trans (Nat.lt_succ_self k))⟩,
        hnot k hik (Nat.lt_succ_self k)⟩
    · exact .inr ⟨hs, rfl⟩
  · rintro (⟨⟨hs, hik, hnot⟩, hk⟩ | ⟨hs, rfl⟩)
    · refine ⟨hs, hik.trans (Nat.lt_succ_self k), fun m hm hmk ↦ ?_⟩
      rcases Nat.lt_succ_iff_lt_or_eq.mp hmk with hmk | rfl
      · exact hnot m hm hmk
      · exact hk
    · exact ⟨hs, Nat.lt_succ_self i, fun m hm hmk ↦ by omega⟩

/-- What a call does to the edge of an id: a send of the id makes it, a delivery takes it away, and
every other call leaves it alone. Nothing takes away an edge with the id `0`. -/
theorem hbEdges_succ (hk : k < r.ops.length) (id : ℕ) :
    (∃ t, r.SendsMessage k t id ∧
      (r.state (k + 1)).hbEdges id = some ((r.state k).threadClocks t)) ∨
    (r.Delivers k id ∧ (∀ t, ¬r.SendsMessage k t id) ∧
      (r.state (k + 1)).hbEdges id = if id ≠ 0 then none else (r.state k).hbEdges id) ∨
    ((∀ t, ¬r.SendsMessage k t id) ∧ ¬r.Delivers k id ∧
      (r.state (k + 1)).hbEdges id = (r.state k).hbEdges id) := by
  have he := r.enabled hk.le
  have ho := List.getElem?_eq_getElem hk
  have hstep := r.step ho
  generalize r.ops[k] = o at ho hstep
  by_cases hsend : o.sendsMessage = true
  · cases o with
    | happensBefore t =>
      have hsends : r.SendsMessage k t (r.state k).nextEdgeId := sendsMessage_iff.mpr ⟨ho, rfl⟩
      have hedge := Detector.hbEdges_happensBefore he t id
      rw [Option.some.inj hstep] at hedge
      by_cases hid : id = (r.state k).nextEdgeId
      · exact .inl ⟨t, hid ▸ hsends, hedge.trans (if_pos hid)⟩
      · refine .inr (.inr ⟨fun t' h ↦ hid (sendsMessage_iff.mp h).2.symm, ?_, ?_⟩)
        · rintro ⟨u, hu⟩
          cases ho.symm.trans hu
        · exact hedge.trans (if_neg hid)
    | _ => cases hsend
  have hnot (t : Tid) : ¬r.SendsMessage k t id := fun h ↦
    hsend (Option.some.inj (ho.symm.trans h.1) ▸ rfl)
  by_cases hdeliver : ∃ u id', o = .happensAfter u id'
  · obtain ⟨u, id', rfl⟩ := hdeliver
    have hedge := Detector.hbEdges_happensAfter he u id' id
    rw [Option.some.inj hstep] at hedge
    by_cases hid : id = id'
    · subst hid
      refine .inr (.inl ⟨⟨u, ho⟩, hnot, ?_⟩)
      simpa using hedge
    · refine .inr (.inr ⟨hnot, ?_, hedge.trans (if_neg fun h ↦ hid h.1)⟩)
      rintro ⟨v, hv⟩
      exact hid (Op.happensAfter.inj (Option.some.inj (ho.symm.trans hv))).2.symm
  · push Not at hdeliver
    refine .inr (.inr ⟨hnot, ?_, ?_⟩)
    · rintro ⟨u, hu⟩
      exact hdeliver u id (Option.some.inj (ho.symm.trans hu))
    · exact congrFun (Op.exec_edges he hstep ((Bool.not_eq_true _).mp hsend) hdeliver).1 id

/-- The map of edges holds the ids in flight, each with the clock of the sender at the send. -/
theorem hbEdges_eq_some_iff (hk : k ≤ r.ops.length) (hs : r.sendCount k < 2 ^ 64) {clk : VClock} :
    (r.state k).hbEdges id = some clk ↔
      ∃ i t, r.InFlight i t id k ∧ clk = (r.state i).threadClocks t := by
  induction k generalizing clk with
  | zero =>
    rw [r.state_zero]
    refine iff_of_false nofun ?_
    rintro ⟨i, t, ⟨-, hi, -⟩, -⟩
    exact Nat.not_lt_zero i hi
  | succ k ih =>
    have hlt : r.sendCount k < 2 ^ 64 := (sendCount_mono (Nat.le_succ k)).trans_lt hs
    have hih {clk : VClock} := @ih (Nat.le_of_succ_le hk) hlt clk
    rcases hbEdges_succ hk id with ⟨t, hsends, hedge⟩ | ⟨hdeliver, hnot, hedge⟩ |
      ⟨hnot, hdeliver, hedge⟩
    · rw [hedge, Option.some.injEq]
      constructor
      · exact fun hclk ↦ ⟨k, t, inFlight_succ_iff.mpr (.inr ⟨hsends, rfl⟩), hclk.symm⟩
      · rintro ⟨i, t', hflight, rfl⟩
        obtain rfl := hflight.1.unique hsends hflight.2.1 (Nat.lt_succ_self k) hs
        cases hsends.1.symm.trans hflight.1.1
        rfl
    · refine iff_of_false (fun hclk ↦ ?_) ?_
      · -- ids are positive, so that an edge with the id `0` does not exist
        rw [hedge] at hclk
        split_ifs at hclk with hid
        obtain ⟨i, t, hflight, -⟩ := hih.mp hclk
        have hcount := (sendsMessage_id hflight.1 hflight.2.1 hlt).1
        omega
      · rintro ⟨i, t, hflight, -⟩
        rcases inFlight_succ_iff.mp hflight with ⟨-, hk⟩ | ⟨hsends, -⟩
        · exact hk hdeliver
        · exact hnot t hsends
    · -- what is neither sent nor delivered stays as it was
      rw [hedge, hih]
      refine exists₂_congr fun i t ↦ and_congr_left fun _ ↦ ?_
      rw [inFlight_succ_iff, and_iff_left hdeliver, or_iff_left fun h ↦ hnot t h.1]

/-- The protocol of the edges of messages, in a run with fewer than `2 ^ 64` sends. Ids are positive
and pairwise distinct. The first delivery of a message that has been sent joins the clock that its
sender had at the send, and no other clock. Every other delivery does nothing, and no delivery
changes the clock of a thread other than the receiver. -/
theorem postMessage_edges (hs : r.sendCount r.ops.length < 2 ^ 64) :
    (∀ {i t id}, r.SendsMessage i t id → id ≠ 0) ∧
    (∀ {i i' t t' id}, r.SendsMessage i t id → r.SendsMessage i' t' id → i = i') ∧
    ∀ {j u id}, r.ops[j]? = some (.happensAfter u id) →
      (∀ {i t}, r.InFlight i t id j →
        (r.state (j + 1)).threadClocks u =
            ((r.state j).threadClocks u).join ((r.state i).threadClocks t) ∧
          (r.state i).threadClocks t ≤ (r.state (j + 1)).threadClocks u) ∧
      ((∀ i t, ¬r.InFlight i t id j) → r.state (j + 1) = r.state j) ∧
      ∀ v ≠ u, (r.state (j + 1)).threadClocks v = (r.state j).threadClocks v := by
  refine ⟨fun h ↦ ?_, fun h h' ↦ h.unique h' h.lt_length h'.lt_length hs, fun {j u id} hj ↦ ?_⟩
  · have hid := (sendsMessage_id h h.lt_length hs).1
    omega
  have hjlt := lt_length_of_getElem? hj
  have he := r.enabled hjlt.le
  have hcount : r.sendCount j < 2 ^ 64 := (sendCount_mono hjlt.le).trans_lt hs
  have hedges {clk : VClock} := @hbEdges_eq_some_iff r j id hjlt.le hcount clk
  rw [← Option.some.inj (r.step hj)]
  refine ⟨fun {i t} hflight ↦ ?_, fun hnot ↦ ?_, fun v hv ↦ ?_⟩
  · have hid := (sendsMessage_id hflight.1 hflight.2.1 hcount).1
    have hsome := hedges.mpr ⟨i, t, hflight, rfl⟩
    have hclock : ((r.state j).happensAfter u id).threadClocks u =
        ((r.state j).threadClocks u).join ((r.state i).threadClocks t) := by
      rw [Detector.happensAfter_of_some he (by omega) hsome]
      exact Function.update_self ..
    refine ⟨hclock, ?_⟩
    rw [hclock, VClock.join_eq_sup]
    exact le_sup_right
  · refine Detector.happensAfter_of_none (Option.eq_none_iff_forall_ne_some.mpr fun clk hclk ↦ ?_)
    obtain ⟨i, t, hflight, -⟩ := hedges.mp hclk
    exact hnot i t hflight
  · exact Detector.happensAfter_threadClocks_of_ne hv id

/-- Thread 0 sends two messages. Thread 1 gets the second one, the first one twice, and a message
that was never sent. -/
def reordered : Run :=
  .ofOps [.threadCreate uint32Max, .threadCreate uint32Max, .happensBefore 0, .release 0 500,
    .happensBefore 0, .happensAfter 1 2, .happensAfter 1 1, .happensAfter 1 1,
    .happensAfter 1 7] (by decide)

theorem reordered_edges :
    (reordered.state 2).threadClocks 0 ≤ (reordered.state 7).threadClocks 1 ∧
      reordered.state 8 = reordered.state 7 ∧ reordered.state 9 = reordered.state 8 := by
  have hcount : reordered.sendCount reordered.ops.length < 2 ^ 64 := by decide
  have hdeliveries {j id : ℕ} {u : Tid} (h : reordered.ops[j]? = some (.happensAfter u id)) :=
    (postMessage_edges hcount).2.2 h
  refine ⟨?_, ?_, ?_⟩
  · refine ((hdeliveries (j := 6) rfl).1 ⟨⟨rfl, by decide⟩, by decide, fun m hm hmk ↦ ?_⟩).2
    rintro ⟨u, hu⟩
    interval_cases m <;> cases hu
  · refine (hdeliveries (j := 7) rfl).2.1 fun i t h ↦ ?_
    have hi : i ≠ 6 := by
      rintro rfl
      cases h.1.1
    exact h.2.2 6 (by have := h.2.1; omega) (by decide) ⟨1, rfl⟩
  · refine (hdeliveries (j := 8) rfl).2.1 fun i t h ↦ ?_
    have hle := (sendsMessage_id h.1 h.1.lt_length hcount).2
    exact absurd hle (by decide)

end Run

end WebTSan
