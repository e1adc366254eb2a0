import WebTSan.ConcurrentClearing

/-!
# How an access goes on, and what can stop it

`MemoryAccess` gives the lock of the table of shadows back as soon as it has looked its shadow up,
and goes on with a pointer to it. Two things can keep a thread from its next step: before it has
looked the shadow up, a call of `ClearShadow` that holds the lock; and in the loop of
`RecordAccess`, a call of `RemoveShadow` for its buffer since it has looked the shadow up, which
leaves it with a pointer to a shadow that does not exist any more. If neither happens, every call
ends.

## Main definitions

* `WebTSan.AccessStage.pointer`, `WebTSan.AccessStage.rank`.
* `WebTSan.ConcurrentRun.HoldsFrom`: a thread keeps the pointer that it has looked up.
* `WebTSan.ConcurrentRun.CallsFrom`: a call of `MemoryAccess` is under way.

## Main results

* `WebTSan.ConcurrentRun.blocked_iff`: when exactly a thread cannot go on.
* `WebTSan.ConcurrentRun.access_steps_lt`: the number of steps of a call.
* `WebTSan.ConcurrentRun.exists_completion`: otherwise all calls can be completed.
-/

namespace WebTSan

/-- The pointer to a shadow that a thread keeps. -/
def AccessStage.pointer : AccessStage → Option ℕ
  | snapshot shadow | loop shadow _ _ => some shadow
  | _ => none

/-- How many steps a call of `MemoryAccess` takes at most from here on. -/
def AccessStage.rank (c : AccessCall) : AccessStage → ℕ
  | lookup => c.size + 6
  | snapshot _ => c.size + 5
  | loop _ _ i => c.size - i + 4
  | filter _ => 4
  | count _ => 3
  | log _ => 2
  | notify _ => 1

theorem AccessStage.rank_pos (c : AccessCall) (st : AccessStage) : 0 < st.rank c := by
  cases st <;> simp [AccessStage.rank]

/-- A step of `MemoryAccess` by a thread. -/
def ConcurrentOp.isNext {ι : Type*} [DecidableEq ι] (t : ι) : ConcurrentOp ι → Bool
  | next u => u = t
  | _ => false

namespace ConcurrentState

variable {ι : Type*} {s s' : ConcurrentState ι} {o : ConcurrentOp ι} {t : ι} {c : AccessCall}
  {st : AccessStage} {bs shadow : ℕ}

/-- `RemoveShadow` destroys the shadow of its buffer. -/
theorem destroyed_removeShadow (he : s.detector.enabled = true)
    (hs : (s.detector.shadowBuffers bs).isSome = true) :
    (s.removeShadow bs).destroyed bs = s.destroyed bs + 1 := by
  simp [removeShadow, he, hs]

theorem le_destroyed_removeShadow (s : ConcurrentState ι) (bs bs' : ℕ) :
    s.destroyed bs ≤ (s.removeShadow bs').destroyed bs := by
  simp only [removeShadow]
  split_ifs
  · by_cases hbs : bs = bs'
    · simp [hbs]
    · simp [hbs]
  · exact le_rfl

theorem deref_eq_none_iff :
    s.deref bs shadow = none ↔ s.destroyed bs ≠ shadow ∨ s.detector.shadowBuffers bs = none := by
  simp only [deref]
  split_ifs with h <;> simp [h]

variable [DecidableEq ι]

theorem Step.of_access (h : s.Step (.access t c) s') :
    s.stage t = none ∧ s'.stage t = some (c, .lookup) := by
  cases h with
  | access ht => exact ⟨ht, setStage_stage_self ..⟩

/-- A thread ends its call, or comes closer to the end. -/
theorem Step.rank_lt (h : s.Step (.next t) s') (ht : s.stage t = some (c, st)) :
    s'.stage t = none ∨ ∃ st', s'.stage t = some (c, st') ∧ st'.rank c < st.rank c := by
  cases h with
  | lookupNone | loopEnd | repeated | notify => exact .inl (setStage_stage_self ..)
  | lookup ht' | snapshot ht' | insert ht' | count ht' | logged ht' | log ht' =>
    obtain ⟨rfl, rfl⟩ := Prod.mk.inj (Option.some.inj (ht'.symm.trans ht))
    refine .inr ⟨_, setStage_stage_self .., ?_⟩
    simp only [AccessStage.rank]
    omega
  | @record _ _ shadow clk i sb ht' hi =>
    obtain ⟨rfl, rfl⟩ := Prod.mk.inj (Option.some.inj (ht'.symm.trans ht))
    refine .inr ⟨_, setStage_stage_self .., ?_⟩
    cases (sb.recordByte _ _ _ clk).1 <;> simp only [Option.elim, AccessStage.rank] <;> omega

/-- A thread comes by a pointer when it looks its shadow up, and keeps it. -/
theorem Step.of_pointer (h : s.Step o s') (ht : s'.stage t = some (c, st))
    (hp : st.pointer = some shadow) :
    (∃ st₀, s.stage t = some (c, st₀) ∧ st₀.pointer = some shadow) ∨
      o = .next t ∧ s.stage t = some (c, .lookup) ∧ s'.destroyed c.backingStore = shadow ∧
        (s'.detector.shadowBuffers c.backingStore).isSome = true := by
  by_cases hn : o = .next t
  · subst hn
    cases h with
    | lookupNone | loopEnd | repeated | notify => simp at ht
    | insert | count | logged | log =>
      rw [setStage_stage_self, Option.some.injEq, Prod.mk.injEq] at ht
      obtain ⟨-, rfl⟩ := ht
      cases hp
    | lookup ht₀ =>
      rw [setStage_stage_self, Option.some.injEq, Prod.mk.injEq] at ht
      obtain ⟨rfl, rfl⟩ := ht
      exact .inr ⟨rfl, ht₀, Option.some.inj hp, by simp [setStage, setShadow, setDetector]⟩
    | snapshot ht₀ =>
      rw [setStage_stage_self, Option.some.injEq, Prod.mk.injEq] at ht
      obtain ⟨rfl, rfl⟩ := ht
      exact .inl ⟨_, ht₀, hp⟩
    | @record _ _ shadow' clk i sb ht₀ =>
      rw [setStage_stage_self, Option.some.injEq, Prod.mk.injEq] at ht
      obtain ⟨rfl, rfl⟩ := ht
      cases hr : (sb.recordByte _ _ _ clk).1 with
      | none =>
        rw [hr] at hp
        exact .inl ⟨_, ht₀, hp⟩
      | some report =>
        rw [hr] at hp
        cases hp
  · by_cases ha : ∃ c', o = .access t c'
    · obtain ⟨c', rfl⟩ := ha
      cases h with
      | access =>
        rw [setStage_stage_self, Option.some.injEq, Prod.mk.injEq] at ht
        obtain ⟨-, rfl⟩ := ht
        cases hp
    · exact .inl ⟨st, h.stage_eq (not_exists.mp ha) hn ▸ ht, hp⟩

/-- Only `RemoveShadow` destroys a shadow. -/
theorem Step.shadow_eq (h : s.Step o s') (ho : o ≠ .removeShadow bs) :
    s'.destroyed bs = s.destroyed bs ∧ ((s.detector.shadowBuffers bs).isSome = true →
      (s'.detector.shadowBuffers bs).isSome = true) := by
  have hset (bs' : ℕ) (sb : ShadowBuffer) (hs : (s.detector.shadowBuffers bs).isSome = true) :
      ((s.setShadow bs' sb).detector.shadowBuffers bs).isSome = true := by
    by_cases hbs : bs = bs'
    · simp [setShadow, setDetector, hbs]
    · simpa [setShadow, setDetector, hbs] using hs
  cases h with
  | call hmem hexec =>
    have hkeep := Op.exec_shadowBuffers_of_not_memory hexec hmem
    exact ⟨rfl, fun hs ↦ (congrArg (fun f ↦ (f bs).isSome) hkeep).trans hs⟩
  | @removeShadow bs' =>
    have hbs : bs ≠ bs' := fun hbs ↦ ho (by rw [hbs])
    constructor
    · simp only [ConcurrentState.removeShadow]
      split_ifs
      · exact Function.update_of_ne hbs ..
      · rfl
    · intro hs
      simp only [ConcurrentState.removeShadow, Detector.removeShadow]
      split_ifs
      · exact hs
      · simpa [hbs] using hs
  | lookup | record | clearByte => exact ⟨rfl, hset _ _⟩
  | _ => exact ⟨rfl, id⟩

theorem Step.of_removeShadow (h : s.Step (.removeShadow bs) s') : s' = s.removeShadow bs := by
  cases h with
  | removeShadow => rfl

theorem Step.destroyed_le (h : s.Step o s') (bs : ℕ) : s.destroyed bs ≤ s'.destroyed bs := by
  cases h with
  | removeShadow => exact s.le_destroyed_removeShadow bs _
  | _ => exact le_rfl

/-- A step of `MemoryAccess` leaves `ClearShadow` where it is. -/
theorem Step.clearing_eq_of_next (h : s.Step (.next t) s') : s'.clearing = s.clearing := by
  cases h <;> rfl

theorem Step.endByte_eq {cs cs' : ClearStage} (h : s.Step .clearNext s')
    (hc : s.clearing = some cs) (hc' : s'.clearing = some cs') : cs'.endByte = cs.endByte := by
  cases h with
  | clearReturn => cases hc'
  | clearSkip hc₁ | clearEnter hc₁ | clearByte hc₁ | clearLeave hc₁ =>
    obtain rfl := Option.some.inj (hc₁.symm.trans hc)
    obtain rfl := Option.some.inj hc'
    rfl

/-- `ClearShadow` stays inside of its range, if it does not reach the last page of the address
space. -/
theorem Step.inside (h : s.Step o s') (hs : ∀ cs, s.clearing = some cs →
      cs.endByte ≤ ShadowBuffer.lastPage → cs.Inside cs.backingStore 0 cs.endByte)
    (cs : ClearStage) (hc' : s'.clearing = some cs) (hlast : cs.endByte ≤ ShadowBuffer.lastPage) :
    cs.Inside cs.backingStore 0 cs.endByte := by
  cases hc : s.clearing with
  | none =>
    cases h with
    | clearShadow =>
      obtain rfl := Option.some.inj hc'
      exact ⟨rfl, rfl, Nat.zero_le _, nofun⟩
    | clearSkip hc₁ | clearEnter hc₁ | clearReturn hc₁ | clearByte hc₁ | clearLeave hc₁ =>
      simp [hc] at hc₁
    | _ => cases hc.symm.trans hc'
  | some cs₀ =>
    by_cases hop : o = .clearNext
    · subst hop
      have hend := h.endByte_eq hc hc'
      rw [hend] at hlast ⊢
      obtain ⟨hin, -⟩ := h.of_clearNext hc (hs cs₀ hc hlast) hlast hc'
      exact ⟨rfl, hend, hin.le, hin.pageEnd⟩
    · obtain rfl := Option.some.inj ((h.clearing_eq hc hop).symm.trans hc')
      exact hs _ hc hlast

/-- A thread cannot go on if it waits for the lock of the table of shadows, or if it follows a
pointer to a shadow that is gone. -/
theorem exec_next_eq_none_iff (ht : s.stage t = some (c, st)) :
    (ConcurrentOp.next t).exec s = none ↔ st = .lookup ∧ s.clearing.isSome = true ∨
      ∃ shadow clk i, st = .loop shadow clk i ∧ i < c.size ∧
        s.deref c.backingStore shadow = none := by
  simp only [ConcurrentOp.exec, ht, Option.bind_some]
  cases st with
  | lookup =>
    simp only [next]
    cases hc : s.clearing with
    | none => cases s.detector.shadowFor c.backingStore c.sabByteLength <;> simp
    | some cs => simp
  | loop shadow clk i =>
    simp only [next, round]
    by_cases hi : i < c.size
    · simp [hi]
    · simp [hi]
  | _ => simp [next]

/-! ### Calls that are completed -/

/-- No thread has a pointer to a shadow that is gone, and `ClearShadow` is not on its way to the
last page of the address space. -/
structure Sound (s : ConcurrentState ι) : Prop where
  enabled : s.detector.enabled = true
  deref {t : ι} {c : AccessCall} {st : AccessStage} {shadow : ℕ}
    (ht : s.stage t = some (c, st)) (hp : st.pointer = some shadow) :
    s.deref c.backingStore shadow ≠ none
  held (cs : ClearStage) (hc : s.clearing = some cs) :
    (s.detector.shadowBuffers cs.backingStore).isSome = true
  le_lastPage {cs : ClearStage} (hc : s.clearing = some cs) : cs.endByte ≤ ShadowBuffer.lastPage
  inside (cs : ClearStage) (hc : s.clearing = some cs)
    (hlast : cs.endByte ≤ ShadowBuffer.lastPage) : cs.Inside cs.backingStore 0 cs.endByte

/-- The steps of calls that are under way keep the pointers. -/
theorem Sound.step (hs : s.Sound) (h : s.Step o s')
    (ho : o = .clearNext ∨ ∃ t, o = .next t) : s'.Sound where
  enabled := h.enabled_eq.trans hs.enabled
  deref {t c st shadow} ht hp := by
    have hne : o ≠ .removeShadow c.backingStore := by
      rcases ho with rfl | ⟨u, rfl⟩ <;> nofun
    obtain ⟨hdes, hsome⟩ := h.shadow_eq hne
    rw [Ne, deref_eq_none_iff, not_or, not_not]
    rcases h.of_pointer ht hp with ⟨st₀, ht₀, hp₀⟩ | ⟨-, -, hdes', hsome'⟩
    · have hold := hs.deref ht₀ hp₀
      rw [Ne, deref_eq_none_iff, not_or, not_not, ← ne_eq, Option.ne_none_iff_isSome] at hold
      exact ⟨hdes.trans hold.1, Option.ne_none_iff_isSome.mpr (hsome hold.2)⟩
    · exact ⟨hdes', Option.ne_none_iff_isSome.mpr hsome'⟩
  held := h.shadowBuffers_isSome hs.held
  le_lastPage {cs} hc := by
    rcases ho with rfl | ⟨u, rfl⟩
    · cases hc₀ : s.clearing with
      | none =>
        cases h with
        | clearSkip hc₁ | clearEnter hc₁ | clearReturn hc₁ | clearByte hc₁ | clearLeave hc₁ =>
          simp [hc₀] at hc₁
      | some cs₀ => exact h.endByte_eq hc₀ hc ▸ hs.le_lastPage hc₀
    · exact hs.le_lastPage (h.clearing_eq_of_next ▸ hc)
  inside := h.inside hs.inside

section Completion

variable [Fintype ι]

/-- A bound for the number of the steps that the calls under way still take. -/
def work (s : ConcurrentState ι) : ℕ :=
  ∑ t, (s.stage t).elim 0 (fun p ↦ p.2.rank p.1) + s.clearing.elim 0 fun cs ↦ cs.rank + 1

/-- A step of a call that is under way gets the calls closer to their ends. -/
theorem Sound.work_lt_of_clearNext (hs : s.Sound) (h : s.Step .clearNext s') {cs : ClearStage}
    (hc : s.clearing = some cs) : s'.work < s.work := by
  have hstage : s'.stage = s.stage := funext fun t ↦ h.stage_eq nofun nofun
  have hlast := hs.le_lastPage hc
  simp only [work, hstage, hc, Option.elim_some]
  cases hc' : s'.clearing with
  | none => simp
  | some cs' =>
    obtain ⟨-, hlt⟩ := h.of_clearNext hc (hs.inside cs hc hlast) hlast hc'
    simpa using hlt

theorem Step.work_lt_of_next (h : s.Step (.next t) s') (ht : s.stage t = some (c, st)) :
    s'.work < s.work := by
  have hlt : ∑ u, (s'.stage u).elim 0 (fun p ↦ p.2.rank p.1) <
      ∑ u, (s.stage u).elim 0 (fun p ↦ p.2.rank p.1) := by
    have hself : (s'.stage t).elim 0 (fun p ↦ p.2.rank p.1) <
        (s.stage t).elim 0 (fun p ↦ p.2.rank p.1) := by
      rw [ht]
      rcases h.rank_lt ht with hnone | ⟨st', hst', hlt⟩
      · simpa [hnone] using st.rank_pos c
      · simpa [hst'] using hlt
    refine Finset.sum_lt_sum (fun u _ ↦ ?_) ⟨t, Finset.mem_univ t, hself⟩
    by_cases hu : u = t
    · exact hu ▸ hself.le
    · rw [h.stage_eq nofun (by rintro ⟨⟩; exact hu rfl)]
  simp only [work, h.clearing_eq_of_next]
  omega

/-- The calls that are under way can be completed. -/
theorem Sound.exists_finish (hs : s.Sound) : ∃ ops s',
    (∀ o ∈ ops, o = .clearNext ∨ ∃ t, o = .next t) ∧
      execAll ConcurrentOp.exec s ops = some s' ∧ s'.clearing = none ∧ ∀ t, s'.stage t = none := by
  induction hw : s.work using Nat.strong_induction_on generalizing s with
  | _ n ih =>
    have hgo {o : ConcurrentOp ι} {s₁ : ConcurrentState ι} (hexec : o.exec s = some s₁)
        (ho : o = .clearNext ∨ ∃ t, o = .next t) (hlt : s₁.work < s.work) : ∃ ops s',
        (∀ o ∈ ops, o = .clearNext ∨ ∃ t, o = .next t) ∧
          execAll ConcurrentOp.exec s ops = some s' ∧ s'.clearing = none ∧
            ∀ t, s'.stage t = none := by
      have hs₁ := hs.step (step_of_exec hs.enabled hexec) ho
      obtain ⟨ops, s', hops, hall, hdone⟩ := ih s₁.work (hw ▸ hlt) hs₁ rfl
      refine ⟨o :: ops, s', List.forall_mem_cons.mpr ⟨ho, hops⟩, ?_, hdone⟩
      rw [execAll, hexec, Option.bind_some, hall]
    cases hc : s.clearing with
    | some cs =>
      obtain ⟨sb, hsb⟩ := Option.isSome_iff_exists.mp (hs.held cs hc)
      have hexec : ConcurrentOp.clearNext.exec s = some (s.clearNext cs sb) := by
        simp [ConcurrentOp.exec, hc, hsb]
      exact hgo hexec (.inl rfl) (hs.work_lt_of_clearNext (step_of_exec hs.enabled hexec) hc)
    | none =>
      by_cases hidle : ∀ t, s.stage t = none
      · exact ⟨[], s, by simp, rfl, hc, hidle⟩
      · obtain ⟨t, ht⟩ := not_forall.mp hidle
        obtain ⟨⟨c, st⟩, ht⟩ := Option.ne_none_iff_exists'.mp ht
        have hsome : (ConcurrentOp.next t).exec s ≠ none := by
          rw [Ne, exec_next_eq_none_iff ht, not_or]
          refine ⟨by simp [hc], ?_⟩
          rintro ⟨shadow, clk, i, rfl, -, hnone⟩
          exact hs.deref ht rfl hnone
        obtain ⟨s₁, hexec⟩ := Option.ne_none_iff_exists'.mp hsome
        exact hgo hexec (.inr ⟨t, rfl⟩) ((step_of_exec hs.enabled hexec).work_lt_of_next ht)

end Completion

end ConcurrentState

namespace ConcurrentRun

variable {ι : Type*} [DecidableEq ι] {e : ConcurrentRun ι} {a k l : ℕ} {t : ι} {c : AccessCall}
  {st : AccessStage} {shadow : ℕ}

/-- A thread looks up its shadow at position `l`, and keeps the pointer until position `k`. -/
structure HoldsFrom (e : ConcurrentRun ι) (l k : ℕ) (t : ι) (c : AccessCall) (shadow : ℕ) :
    Prop where
  next : e.ops[l]? = some (.next t)
  lookup : (e.state l).stage t = some (c, .lookup)
  lt : l < k
  holds {m : ℕ} (hlm : l < m) (hmk : m ≤ k) :
    ∃ st, (e.state m).stage t = some (c, st) ∧ st.pointer = some shadow
  destroyed_eq : (e.state (l + 1)).destroyed c.backingStore = shadow
  isSome : ((e.state (l + 1)).detector.shadowBuffers c.backingStore).isSome = true

/-- A buffer loses its shadow between two positions. -/
def RemovesBetween (e : ConcurrentRun ι) (l k bs : ℕ) : Prop :=
  ∃ m, l < m ∧ m < k ∧ e.ops[m]? = some (.removeShadow bs)

/-- A thread that keeps a pointer has looked it up. -/
theorem exists_holdsFrom (hk : k ≤ e.ops.length) (ht : (e.state k).stage t = some (c, st))
    (hp : st.pointer = some shadow) : ∃ l, e.HoldsFrom l k t c shadow := by
  induction k generalizing st with
  | zero =>
    rw [e.state_zero] at ht
    cases ht
  | succ k ih =>
    have ho := List.getElem?_eq_getElem hk
    rcases (e.stepAt ho).of_pointer ht hp with ⟨st₀, ht₀, hp₀⟩ | ⟨hop, ht₀, hdes, hsome⟩
    · obtain ⟨l, h⟩ := ih (Nat.le_of_succ_le hk) ht₀ hp₀
      refine ⟨l, { h with lt := Nat.lt_succ_of_lt h.lt, holds := fun {m} hlm hmk ↦ ?_ }⟩
      rcases Nat.le_succ_iff.mp hmk with hmk | rfl
      · exact h.holds hlm hmk
      · exact ⟨st, ht, hp⟩
    · refine ⟨k, hop ▸ ho, ht₀, Nat.lt_succ_self k, fun {m} hlm hmk ↦ ?_, hdes, hsome⟩
      obtain rfl := Nat.le_antisymm hmk hlm
      exact ⟨st, ht, hp⟩

/-- A pointer leads nowhere exactly if the shadow has been removed since it was looked up. -/
theorem HoldsFrom.deref_eq_none_iff (h : e.HoldsFrom l k t c shadow) (hk : k ≤ e.ops.length) :
    (e.state k).deref c.backingStore shadow = none ↔ e.RemovesBetween l k c.backingStore := by
  have hkeep : e.RemovesBetween l k c.backingStore ∧
        shadow < (e.state k).destroyed c.backingStore ∨
      ¬e.RemovesBetween l k c.backingStore ∧ (e.state k).destroyed c.backingStore = shadow ∧
        ((e.state k).detector.shadowBuffers c.backingStore).isSome = true := by
    have hlk := h.lt
    have hdes := h.destroyed_eq
    have hsome := h.isSome
    clear h
    induction k, hlk using Nat.le_induction with
    | base =>
      refine .inr ⟨?_, hdes, hsome⟩
      rintro ⟨m, hlm, hmk, -⟩
      omega
    | succ k hlk ih =>
      have ho := List.getElem?_eq_getElem hk
      rcases ih (Nat.le_of_succ_le hk) with ⟨⟨m, hlm, hmk, hm⟩, hlt⟩ | ⟨hno, hdes, hsome⟩
      · exact .inl ⟨⟨m, hlm, Nat.lt_succ_of_lt hmk, hm⟩,
          hlt.trans_le ((e.stepAt ho).destroyed_le _)⟩
      · by_cases hop : e.ops[k] = .removeShadow c.backingStore
        · rw [hop] at ho
          refine .inl ⟨⟨k, hlk, Nat.lt_succ_self k, ho⟩, ?_⟩
          rw [(e.stepAt ho).of_removeShadow, ConcurrentState.destroyed_removeShadow
            (e.enabled (Nat.le_of_succ_le hk)) hsome, hdes]
          exact Nat.lt_succ_self shadow
        · obtain ⟨hdes', hsome'⟩ := (e.stepAt ho).shadow_eq hop
          refine .inr ⟨?_, hdes'.trans hdes, hsome' hsome⟩
          rintro ⟨m, hlm, hmk, hm⟩
          rcases Nat.lt_succ_iff_lt_or_eq.mp hmk with hmk | rfl
          · exact hno ⟨m, hlm, hmk, hm⟩
          · exact hop (Option.some.inj (ho.symm.trans hm))
  rw [ConcurrentState.deref_eq_none_iff]
  rcases hkeep with ⟨hrem, hlt⟩ | ⟨hno, hdes, hsome⟩
  · exact iff_of_true (.inl hlt.ne') hrem
  · refine iff_of_false ?_ hno
    rintro (hne | hnone)
    · exact hne hdes
    · rw [hnone] at hsome
      cases hsome

/-- In every interleaving, a thread in a call of `MemoryAccess` cannot take its next step exactly if
it has not looked its shadow up and `ClearShadow` holds the lock, or if it has a byte to record and
the shadow has been removed since the thread looked it up. -/
theorem blocked_iff (e : ConcurrentRun ι) (hk : k ≤ e.ops.length)
    (ht : (e.state k).stage t = some (c, st)) :
    (ConcurrentOp.next t).exec (e.state k) = none ↔
      st = .lookup ∧ (e.state k).clearing.isSome = true ∨
      ∃ shadow clk i l, st = .loop shadow clk i ∧ i < c.size ∧ e.HoldsFrom l k t c shadow ∧
        e.RemovesBetween l k c.backingStore := by
  rw [ConcurrentState.exec_next_eq_none_iff ht]
  refine or_congr_right ⟨?_, ?_⟩
  · rintro ⟨shadow, clk, i, rfl, hi, hnone⟩
    have hp : (AccessStage.loop shadow clk i).pointer = some shadow := rfl
    obtain ⟨l, hl⟩ := exists_holdsFrom hk ht hp
    exact ⟨shadow, clk, i, l, rfl, hi, hl, (hl.deref_eq_none_iff hk).mp hnone⟩
  · rintro ⟨shadow, clk, i, l, rfl, hi, hl, hrem⟩
    exact ⟨shadow, clk, i, rfl, hi, (hl.deref_eq_none_iff hk).mpr hrem⟩

/-! ### The number of steps of an access -/

/-- How many steps of `MemoryAccess` a thread has taken before a point. -/
def nextSteps (e : ConcurrentRun ι) (t : ι) (k : ℕ) : ℕ :=
  (e.ops.take k).countP (ConcurrentOp.isNext t)

/-- A call of `MemoryAccess` that a thread has made at position `a` has been under way until
position `k`. -/
structure CallsFrom (e : ConcurrentRun ι) (a k : ℕ) (t : ι) (c : AccessCall) : Prop where
  call : e.ops[a]? = some (.access t c)
  lt : a < k
  calls {m : ℕ} (ham : a < m) (hmk : m ≤ k) : ∃ st, (e.state m).stage t = some (c, st)

theorem CallsFrom.mono {m : ℕ} (h : e.CallsFrom a k t c) (ham : a < m) (hmk : m ≤ k) :
    e.CallsFrom a m t c :=
  ⟨h.call, ham, fun ha hm ↦ h.calls ha (hm.trans hmk)⟩

/-- Where a call that is under way is, and how many steps it has taken. -/
theorem CallsFrom.nextSteps_add_rank_le (h : e.CallsFrom a k t c) (hk : k ≤ e.ops.length)
    (ht : (e.state k).stage t = some (c, st)) :
    e.nextSteps t k + st.rank c ≤ e.nextSteps t a + c.size + 6 := by
  have hak := h.lt
  induction k, hak using Nat.le_induction generalizing st with
  | base =>
    have hstart := (e.stepAt h.call).of_access.2
    have hst : st = .lookup := (Prod.mk.inj (Option.some.inj (ht.symm.trans hstart))).2
    have hcount : e.nextSteps t (a + 1) = e.nextSteps t a := by
      rw [nextSteps, countP_take_succ h.call]
      rfl
    rw [hst, hcount, AccessStage.rank]
    omega
  | succ k hak ih =>
    have hbefore := h.mono hak (Nat.le_succ k)
    obtain ⟨st₀, ht₀⟩ := h.calls hak (Nat.le_succ k)
    have hih := ih hbefore (Nat.le_of_succ_le hk) ht₀
    have ho := List.getElem?_eq_getElem hk
    have hcount : e.nextSteps t (k + 1) = e.nextSteps t k + (e.ops[k].isNext t).toNat :=
      countP_take_succ ho _
    rw [hcount]
    by_cases hnext : e.ops[k] = .next t
    · have hone : (e.ops[k].isNext t).toNat = 1 := by simp [hnext, ConcurrentOp.isNext]
      rw [hnext] at ho
      rcases (e.stepAt ho).rank_lt ht₀ with hnone | ⟨st', hst', hlt⟩
      · rw [hnone] at ht
        cases ht
      · obtain ⟨-, rfl⟩ := Prod.mk.inj (Option.some.inj (hst'.symm.trans ht))
        omega
    · have hzero : (e.ops[k].isNext t).toNat = 0 := by
        cases hop : e.ops[k] with
        | next u =>
          have hu : u ≠ t := fun hu ↦ hnext (by rw [hop, hu])
          simp [ConcurrentOp.isNext, hu]
        | _ => rfl
      have hsame : (e.state (k + 1)).stage t = (e.state k).stage t := by
        refine (e.stepAt ho).stage_eq (fun c' hc' ↦ ?_) hnext
        rw [hc'] at ho
        exact absurd ((e.stepAt ho).of_access.1.symm.trans ht₀) nofun
      rw [hsame, ht₀] at ht
      obtain ⟨-, rfl⟩ := Prod.mk.inj (Option.some.inj ht)
      omega

/-- In every interleaving, a call of `MemoryAccess` takes fewer than `size + 6` steps as long as it
is under way. -/
theorem access_steps_lt (e : ConcurrentRun ι) (h : e.CallsFrom a k t c) (hk : k ≤ e.ops.length) :
    e.nextSteps t k < e.nextSteps t a + c.size + 6 := by
  obtain ⟨st, ht⟩ := h.calls h.lt le_rfl
  have hrank := h.nextSteps_add_rank_le hk ht
  have hpos : 0 < st.rank c := st.rank_pos c
  omega

/-! ### Completion -/

/-- `ClearShadow` stays inside of its range. -/
theorem inside (hk : k ≤ e.ops.length) {cs : ClearStage} (hc : (e.state k).clearing = some cs)
    (hlast : cs.endByte ≤ ShadowBuffer.lastPage) : cs.Inside cs.backingStore 0 cs.endByte :=
  e.invariant_of_step (P := fun s ↦ ∀ cs, s.clearing = some cs →
    cs.endByte ≤ ShadowBuffer.lastPage → cs.Inside cs.backingStore 0 cs.endByte) nofun
    (fun ho hs ↦ (e.stepAt ho).inside hs) hk cs hc hlast

/-- No thread has a pointer to a shadow that has been removed since the thread looked it up. -/
def PointersValid (e : ConcurrentRun ι) (k : ℕ) : Prop :=
  ∀ ⦃l t c shadow⦄, e.HoldsFrom l k t c shadow → ¬e.RemovesBetween l k c.backingStore

theorem PointersValid.sound (h : e.PointersValid k) (hk : k ≤ e.ops.length)
    (hlast : ∀ cs, (e.state k).clearing = some cs → cs.endByte ≤ ShadowBuffer.lastPage) :
    (e.state k).Sound where
  enabled := e.enabled hk
  deref ht hp := by
    obtain ⟨l, hl⟩ := exists_holdsFrom hk ht hp
    rw [Ne, hl.deref_eq_none_iff hk]
    exact h hl
  held _ hc := shadowBuffers_isSome hk hc
  le_lastPage hc := hlast _ hc
  inside _ hc := inside hk hc

/-- Every run of finitely many threads without an invalid pointer can go on until all calls that are
under way have returned, by the steps of these calls alone. -/
theorem exists_completion (e : ConcurrentRun ι) [Finite ι] (hp : e.PointersValid e.ops.length)
    (hlast : ∀ cs, (e.state e.ops.length).clearing = some cs →
      cs.endByte ≤ ShadowBuffer.lastPage) :
    ∃ e' : ConcurrentRun ι, ∃ ops, e'.ops = e.ops ++ ops ∧
      (∀ o ∈ ops, o = .clearNext ∨ ∃ t, o = .next t) ∧
      (e'.state e'.ops.length).clearing = none ∧ ∀ t, (e'.state e'.ops.length).stage t = none := by
  cases nonempty_fintype ι
  obtain ⟨ops, s', hops, hexec, hclear, hidle⟩ := (hp.sound le_rfl hlast).exists_finish
  have hend := e.append_state_length ops hexec
  refine ⟨e.append ops hexec, ops, rfl, hops, ?_, fun t ↦ ?_⟩
  · rw [hend]
    exact hclear
  · rw [hend]
    exact hidle t

/-! ### A shadow that is removed under a thread -/

/-- A shadow is removed after a thread has looked it up. -/
def removedMeanwhile : ConcurrentRun Tid :=
  .ofOps [.access 0 (writeBy 0), .next 0, .next 0, .removeShadow 1000] (by decide)

theorem removedMeanwhile_holdsFrom : removedMeanwhile.HoldsFrom 1 4 0 (writeBy 0) 0 where
  next := rfl
  lookup := rfl
  lt := by decide
  holds {m} hm hm' := by interval_cases m <;> exact ⟨_, rfl, rfl⟩
  destroyed_eq := rfl
  isSome := rfl

theorem removedMeanwhile_stage :
    (removedMeanwhile.state 4).stage 0 = some (writeBy 0, .loop 0 VClock.empty 0) := rfl

theorem removedMeanwhile_blocked : (ConcurrentOp.next 0).exec (removedMeanwhile.state 4) = none :=
  (removedMeanwhile.blocked_iff (by decide) removedMeanwhile_stage).mpr
    (.inr ⟨0, VClock.empty, 0, 1, rfl, by decide, removedMeanwhile_holdsFrom, 3, by decide,
      by decide, rfl⟩)

theorem overlap_steps_lt : overlap.nextSteps 1 9 < overlap.nextSteps 1 3 + 1 + 6 :=
  overlap.access_steps_lt (c := writeBy 1)
    { call := rfl
      lt := by decide
      calls {m} hm hm' := by interval_cases m <;> exact ⟨_, rfl⟩ }
    (by decide)

theorem overlap_pointersValid : overlap.PointersValid overlap.ops.length := by
  rintro l t c shadow - ⟨m, -, hm, ho⟩
  have hlt : m < 10 := hm
  interval_cases m <;> cases Option.some.inj ho

theorem overlap_completion : ∃ e' : ConcurrentRun Tid, ∃ ops, e'.ops = overlap.ops ++ ops ∧
    (∀ o ∈ ops, o = .clearNext ∨ ∃ t, o = .next t) ∧
    (e'.state e'.ops.length).clearing = none ∧ ∀ t, (e'.state e'.ops.length).stage t = none :=
  overlap.exists_completion overlap_pointersValid fun _ hc ↦ absurd hc nofun

end ConcurrentRun

end WebTSan
