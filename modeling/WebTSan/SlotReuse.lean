import WebTSan.Detection

/-!
# Epochs across the reuse of a slot

`ThreadCreate` resets the clock of the slot that it hands out: the counter of the new occupant
starts from what the parent and the orphan clock know about the slot. If one of the two knows the
final counter of the previous occupant, the new counter is ahead of everything that is left of it.
Then other threads know epochs of the new occupant only from the new occupant. `ThreadJoin` frees a
slot without telling the orphan clock, so that a creation by a thread that does not know the joined
one starts behind (`Run.exists_staleCounter_of_join`).

## Main definitions

* `WebTSan.Run.InheritsCounter`: the parent or the orphan clock knows the final counter of a slot.
* `WebTSan.Run.Fresh`: the counter of a new occupant is ahead of all copies.

## Main results

* `WebTSan.Run.slots_fresh`, `WebTSan.Run.exists_staleCounter_of_join`.
-/

namespace WebTSan

namespace Run

variable {r : Run}

/-- Before the creation at position `k`, the orphan clock or the live parent knows the counter of
the slot, left there by its previous occupant. -/
def InheritsCounter (r : Run) (k : ℕ) (t : Tid) : Prop :=
  (r.state k).threadClocks t t ≤ (r.state k).orphanClock t ∨
    ∃ p parent, r.ops[k]? = some (.threadCreate p) ∧ (r.state k).liveParent t p = some parent ∧
      (r.state k).threadClocks t t ≤ (r.state k).threadClocks parent t

/-- Every creation of the run inherits the counter of its slot. -/
def InheritsCounters (r : Run) : Prop := ∀ ⦃k t⦄, r.Creates k t → r.InheritsCounter k t

/-- The counter that the creation at position `k` gives to slot `t` is ahead of every copy of it in
another clock and of every shadow cell of the slot. -/
structure Fresh (r : Run) (k : ℕ) (t : Tid) : Prop where
  threads {u : Tid} (hu : u ≠ t) :
    (r.state (k + 1)).threadClocks u t < (r.state (k + 1)).threadClocks t t
  sync {a : ℕ} {clk : VClock} (ha : (r.state (k + 1)).syncClocks a = some clk) :
    clk t < (r.state (k + 1)).threadClocks t t
  edge {id : ℕ} {clk : VClock} (hid : (r.state (k + 1)).hbEdges id = some clk) :
    clk t < (r.state (k + 1)).threadClocks t t
  orphan : (r.state (k + 1)).orphanClock t < (r.state (k + 1)).threadClocks t t
  cells {bs byte : ℕ} {c : Fin kShadowCellsPerByte}
    (hc : ((r.state (k + 1)).cellAt bs byte c).tid = t) :
    ((r.state (k + 1)).cellAt bs byte c).epoch < (r.state (k + 1)).threadClocks t t

namespace InheritsCounters

variable (h : r.InheritsCounters)
include h

/-- What a step joins at the slot of a thread includes the thread's own counter. -/
theorem le_sources {k : ℕ} (hk : k < r.ops.length) (t : Tid) :
    (r.state k).threadClocks t t ≤
      (r.history.sources k (.thread t)).sup fun q ↦ (r.state k).clockOf q t := by
  have hle {p : Place} (hp : p ∈ r.history.sources k (.thread t)) : (r.state k).clockOf p t ≤
      (r.history.sources k (.thread t)).sup fun q ↦ (r.state k).clockOf q t :=
    @Finset.le_sup _ _ _ _ _ (fun q ↦ (r.state k).clockOf q t) _ hp
  by_cases hc : r.Creates k t
  · obtain ⟨q, ho, hslot⟩ := creates_iff.mp hc
    have hmem {p : Place} (hp : p = .orphan ∨ ∃ parent,
        (r.state k).liveParent t q = some parent ∧ p = .thread parent) :
        p ∈ r.history.sources k (.thread t) := by
      rw [r.history_sources ho]
      exact (Detector.mem_sources_thread _).mpr (.inr (.inl ⟨q, rfl, hslot.symm, hp⟩))
    rcases h hc with horphan | ⟨p, parent, hp, hparent, hown⟩
    · exact horphan.trans (hle (hmem (.inl rfl)))
    · obtain rfl := Op.threadCreate.inj (Option.some.inj (ho.symm.trans hp))
      exact hown.trans (hle (hmem (.inr ⟨parent, hparent, rfl⟩)))
  · exact hle (mem_sources_self hk hc)

/-- The counter at the slot of a thread does not decrease, whoever occupies the slot. -/
theorem own_le_succ (hw : r.NoWrap) {k : ℕ} (hk : k < r.ops.length) (t : Tid) :
    (r.state k).threadClocks t t ≤ (r.state (k + 1)).threadClocks t t :=
  (h.le_sources hk t).trans (hw.steady k hk t)

theorem own_mono (hw : r.NoWrap) {i j : ℕ} (hij : i ≤ j) (hj : j ≤ r.ops.length) (t : Tid) :
    (r.state i).threadClocks t t ≤ (r.state j).threadClocks t t :=
  r.le_of_step (fun s ↦ s.threadClocks t t) hij hj
    fun _ hmj _ ↦ h.own_le_succ hw (hmj.trans_le hj) t

/-- No copy of a counter is ahead of it. -/
theorem clockOf_le_own (hw : r.NoWrap) {k : ℕ} (hk : k ≤ r.ops.length) (p : Place) (t : Tid) :
    (r.state k).clockOf p t ≤ (r.state k).threadClocks t t := by
  refine ClockFlow.History.clock_le_home (H := r.history) (fun p ↦ ?_) hk
    (fun m hm ↦ h.own_le_succ hw (hm.trans_le hk) t) p
  rw [history_clock, history_clock, r.state_zero]
  cases p <;> exact le_rfl

/-- A creation ticks. -/
theorem own_lt_succ (hw : r.NoWrap) {k : ℕ} {t : Tid} (hc : r.Creates k t) :
    (r.state k).threadClocks t t < (r.state (k + 1)).threadClocks t t := by
  obtain ⟨p, ho, hslot⟩ := creates_iff.mp hc
  have hle := h.le_sources hc.lt_length t
  rw [r.history_sources ho] at hle
  rw [hw.threadClocks_succ ho t]
  simp only [Detector.ticks, hslot, Option.map_some, ↓reduceIte]
  exact Nat.lt_succ_of_le hle

/-- No cell of a slot is ahead of its counter. -/
theorem epoch_le_own (hw : r.NoWrap) {k : ℕ} (hk : k ≤ r.ops.length) (bs byte : ℕ)
    (c : Fin kShadowCellsPerByte) :
    ((r.state k).cellAt bs byte c).epoch ≤
      (r.state k).threadClocks ((r.state k).cellAt bs byte c).tid
        ((r.state k).cellAt bs byte c).tid := by
  refine r.invariant_of_step (P := fun s ↦ (s.cellAt bs byte c).epoch ≤
    s.threadClocks (s.cellAt bs byte c).tid (s.cellAt bs byte c).tid) (Nat.zero_le _)
    (fun {m _} ho ih ↦ ?_) hk
  have hm : m < r.ops.length := (List.getElem?_eq_some_iff.mp ho).1
  have hmono (t : Tid) := h.own_le_succ hw hm t
  rcases Op.exec_cellAt (r.enabled hm.le) (r.step ho) bs byte c with hs | hs | hs |
    ⟨_, _, _, t, w, _, -, -, -, hs⟩ <;> rw [hs]
  · exact ih.trans (hmono _)
  · exact ih.trans (hmono _)
  · exact Nat.zero_le _
  · exact hmono t

theorem fresh (hw : r.NoWrap) {k : ℕ} {t : Tid} (hc : r.Creates k t) : r.Fresh k t := by
  have hk := hc.lt_length
  have hlt := h.own_lt_succ hw hc
  have hplace {p : Place} (hp : p ≠ .thread t) :
      (r.state (k + 1)).clockOf p t < (r.state (k + 1)).threadClocks t t := by
    refine lt_of_le_of_lt ?_ hlt
    rw [← history_clock, r.history.clock_succ hk hp]
    exact Finset.sup_le fun q _ ↦ h.clockOf_le_own hw hk.le q t
  have hcell (bs byte : ℕ) (c : Fin kShadowCellsPerByte) :
      (r.state (k + 1)).cellAt bs byte c = (r.state k).cellAt bs byte c := by
    obtain ⟨p, -, hcreate⟩ := hc
    rw [(Detector.threadCreate_eq_some_iff.mp hcreate).2]
    exact Detector.cellAt_of_eq rfl byte c
  refine ⟨fun hu ↦ ?_, fun {a clk} ha ↦ ?_, fun {id clk} hid ↦ ?_, ?_, fun {bs byte c} hcT ↦ ?_⟩
  · exact hplace fun hp ↦ hu (Place.thread.inj hp)
  · have hsync := hplace (p := .sync a) (by simp)
    rwa [Detector.clockOf, ha] at hsync
  · have hedge := hplace (p := .edge id) (by simp)
    rwa [Detector.clockOf, hid] at hedge
  · exact hplace (p := .orphan) (by simp)
  · have hepoch := h.epoch_le_own hw hk.le bs byte c
    rw [hcell] at hcT ⊢
    rw [hcT] at hepoch
    exact hepoch.trans_lt hlt

/-- What another thread knows about a new occupant of a slot comes from that occupant: if it knows
the epoch of an access, the access happens before, or the epoch had already been published since the
creation, at a point that happens before. -/
theorem happensBefore_or_published (hw : r.NoWrap) {k i j : ℕ} {t u : Tid} (hc : r.Creates k t)
    (hki : k < i) (hij : i ≤ j) (hj : j ≤ r.ops.length) (hu : u ≠ t)
    (hle : (r.state i).threadClocks t t ≤ (r.state j).threadClocks u t) :
    r.HappensBefore (i, t) (j, u) ∨ ∃ q, k < q ∧ q < i ∧ r.Publishes q t ∧
      (r.state i).threadClocks t t ≤ (r.state q).threadClocks t t ∧
      r.HappensBefore (q, t) (j, u) := by
  have hlt := h.own_lt_succ hw hc
  have hmono := h.own_mono hw hki (hij.trans hj) t
  have hpos : ⊥ < (r.state i).threadClocks t t := (Nat.zero_le _).trans_lt (hlt.trans_le hmono)
  have hkeep (m : ℕ) (him : i ≤ m) (hmj : m < j) : (r.state i).threadClocks t t ≤
      (r.history.sources m (.thread t)).sup fun q ↦ (r.state m).clockOf q t :=
    (h.own_mono hw him (hmj.le.trans hj) t).trans (h.le_sources (hmj.trans_le hj) t)
  have hne : Place.thread u ≠ .thread t := fun hut ↦ hu (Place.thread.inj hut)
  rcases ClockFlow.History.exists_origin (p := .thread u) (r.history_clock_zero t) hpos hij hj
      hkeep hle with
    hflow | ⟨q, hqi, x, hx, hsrc, hv, hflow⟩
  · exact .inl (happensBefore_iff_flow.mpr ⟨hflow.lt_of_ne hne, hflow⟩)
  · have hqj := hqi.trans_le (hij.trans hj)
    obtain ⟨hp, hb⟩ := publishes_of_flow hqj hx hsrc hflow
    refine .inr ⟨q, ?_, hqi, hp, hv, hb⟩
    -- The counter of the previous occupant was behind when the slot was handed out.
    by_contra hqk
    have hold := h.own_mono hw (not_lt.mp hqk) hc.lt_length.le t
    exact absurd (hv.trans hold) (not_le_of_gt (hlt.trans_le hmono))

end InheritsCounters

/-- If every creation inherits the counter of its slot, then the counter of a new occupant is ahead
of all copies and shadow cells of the slot. Other threads know the epoch of an access of the new
occupant only if the access happens before or its epoch had already been published since the
creation, and conflicting accesses are found otherwise. -/
theorem slots_fresh (r : Run) (hw : r.NoWrap) (h : r.InheritsCounters) {k : ℕ} {t : Tid}
    (hc : r.Creates k t) :
    r.Fresh k t ∧ ∀ {i j : ℕ} {u : Tid}, k < i → i ≤ j → j ≤ r.ops.length → u ≠ t →
      ((r.state i).threadClocks t t ≤ (r.state j).threadClocks u t →
        r.HappensBefore (i, t) (j, u) ∨ ∃ q, k < q ∧ q < i ∧ r.Publishes q t ∧
          (r.state i).threadClocks t t ≤ (r.state q).threadClocks t t ∧
          r.HappensBefore (q, t) (j, u)) ∧
      ∀ {bs byte w w'}, r.Conflict i j bs byte t u w w' → ¬r.HappensBefore (i, t) (j, u) →
        (∀ q, k < q → q < i → r.Publishes q t →
          (r.state i).threadClocks t t ≤ (r.state q).threadClocks t t →
          ¬r.HappensBefore (q, t) (j, u)) → r.FindsRace j := by
  refine ⟨h.fresh hw hc, fun {i j u} hki hij hj hu ↦ ?_⟩
  have hknown := h.happensBefore_or_published hw hc hki hij hj hu
  refine ⟨hknown, fun hconf hb hq ↦ ?_⟩
  refine hconf.findsRace_of_lt (not_le.mp fun hle ↦ ?_)
  rcases hknown hle with hb' | ⟨q, hkq, hqi, hp, hv, hb'⟩
  · exact hb hb'
  · exact hq q hkq hqi hp hv hb'

/-- Thread 1 publishes and is destroyed. Its slot is handed out again after all other ones. The new
occupant and thread 0 write the same byte. -/
def destroyThenReuse : Run :=
  .ofOps ([.threadCreate uint32Max, .threadCreate uint32Max, .release 1 500, .threadDestroy 1] ++
    List.replicate 63 (.threadCreate uint32Max) ++
    [.memoryAccess 1000 64 8 1 1 true, .memoryAccess 1000 64 8 1 0 true]) (by decide +kernel)

theorem destroyThenReuse_fresh :
    destroyThenReuse.Fresh 66 1 ∧ destroyThenReuse.FindsRace 68 := by
  have hinherits : destroyThenReuse.InheritsCounters := by
    intro k t hc
    have horphan : ∀ k < 67, (destroyThenReuse.state k).threadClocks
        (destroyThenReuse.state k).nextSlot (destroyThenReuse.state k).nextSlot ≤
          (destroyThenReuse.state k).orphanClock (destroyThenReuse.state k).nextSlot := by
      decide +kernel
    obtain ⟨p, ho, rfl⟩ := creates_iff.mp hc
    have hk : k < 69 := lt_length_of_getElem? ho
    have hlast : k ≠ 67 ∧ k ≠ 68 := by
      constructor <;> rintro rfl <;> cases ho
    exact .inl (horphan k (by omega))
  have hc : destroyThenReuse.Creates 66 1 := creates_iff.mpr ⟨uint32Max, rfl, by decide +kernel⟩
  have hconf : destroyThenReuse.Conflict 67 68 1000 8 1 0 true true :=
    { recorded :=
        { access := ⟨64, 8, 1, rfl, le_rfl, by decide⟩
          lt := by decide
          inPlace := fun {m} hm hmk ↦ by
            obtain rfl : m = 68 := by omega
            decide +kernel }
      access := ⟨64, 8, 1, rfl, le_rfl, by decide⟩
      ne := by decide
      write := .inl rfl }
  have hlen : 68 ≤ destroyThenReuse.ops.length := by decide
  have hpub (q : ℕ) (hq : 66 < q) (hq' : q ≤ 67) (hp : destroyThenReuse.Publishes q 1) : False := by
    obtain ⟨o, ho, hp⟩ := hp
    obtain rfl : q = 67 := by omega
    obtain rfl := Option.some.inj ho
    cases hp
  obtain ⟨hfresh, hothers⟩ := destroyThenReuse.slots_fresh
    (destroyThenReuse.noWrap_of_length (by decide)) hinherits hc
  refine ⟨hfresh, (hothers (by decide) (by decide) hlen (by decide)).2 hconf ?_ ?_⟩
  · intro hb
    obtain ⟨q, hq, hq', hp⟩ := hb.exists_publishes (by decide)
    exact hpub q (by omega) (by omega) hp
  · intro q hq hq' hp
    exact absurd (hpub q hq hq'.le hp) id

/-- Thread 1 publishes two times and is joined by thread 0. When its slot is handed out again, to a
thread without a parent, all other slots have been handed out once. -/
def joinThenReuse : Run :=
  .ofOps ([.threadCreate uint32Max, .threadCreate uint32Max, .release 1 500, .release 1 500,
    .threadJoin 0 1] ++ List.replicate 63 (.threadCreate uint32Max)) (by decide +kernel)

/-- After a join the counter of a reused slot can start behind: thread 0 knows a later counter of
slot 1 than the one that the new occupant of this slot gets. -/
theorem exists_staleCounter_of_join : ∃ (r : Run) (k : ℕ) (t u : Tid),
    (∀ i p, r.ops[i]? = some (.threadCreate p) → ∃ v, (r.state i).threadAlive v = false) ∧
    r.Creates k t ∧ u ≠ t ∧ (r.state (k + 1)).threadAlive u = true ∧
    (r.state (k + 1)).threadClocks t t < (r.state (k + 1)).threadClocks u t := by
  refine ⟨joinThenReuse, 67, 1, 0, fun i p ho ↦ ?_, creates_iff.mpr ⟨uint32Max, rfl, ?_⟩, by decide,
    ?_, ?_⟩
  · have hfree : ∀ i < 68, ∃ v, (joinThenReuse.state i).threadAlive v = false := by
      decide +kernel
    exact hfree i (lt_length_of_getElem? ho)
  · decide +kernel
  · decide +kernel
  · decide +kernel

end Run

end WebTSan
