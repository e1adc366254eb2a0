import WebTSan.ConcurrentRaces

/-!
# Clearing while threads go on

`ClearShadow` walks over its range byte by byte, and other threads go on with accesses for which
they have looked the shadow up before. Whatever they do, no access that was recorded before the call
is left in the range when the call returns, and the call does not touch anything else. It never
waits, and the number of its steps is bounded by the size of the range.

## Main definitions

* `WebTSan.ClearStage.Inside`, `WebTSan.ClearStage.rank`.
* `WebTSan.ConcurrentRun.ClearsFrom`: a call of `ClearShadow` is under way.

## Main results

* `WebTSan.ConcurrentRun.clearShadow_progress`: the call never waits, and ends.
* `WebTSan.ConcurrentRun.clearShadow_cleared`: what it leaves.
-/

namespace WebTSan

/-- Where a call of `ClearShadow` for the bytes from `lo` to `hi` of a buffer may be. -/
structure ClearStage.Inside (c : ClearStage) (bs lo hi : ℕ) : Prop where
  backingStore_eq : c.backingStore = bs
  endByte_eq : c.endByte = hi
  le : lo ≤ c.byte
  pageEnd {p : ℕ} (h : c.pageEnd = some p) : c.byte ≤ p ∧ p ≤ hi

/-- A bound for the number of steps until `ClearShadow` returns. -/
def ClearStage.rank (c : ClearStage) : ℕ :=
  3 * (c.endByte - c.byte) + c.pageEnd.elim 1 fun p ↦ if c.byte < p then 0 else 2

/-- A step of `ClearShadow`. -/
def ConcurrentOp.isClearNext {ι : Type*} : ConcurrentOp ι → Bool
  | clearNext => true
  | _ => false

namespace ConcurrentState

variable {ι : Type*} [DecidableEq ι] {s s' : ConcurrentState ι} {o : ConcurrentOp ι}
  {c c' : ClearStage} {bs lo hi : ℕ}

/-- `ClearShadow` goes on by its own steps only. -/
theorem Step.clearing_eq (h : s.Step o s') (hc : s.clearing = some c) (ho : o ≠ .clearNext) :
    s'.clearing = some c := by
  cases h with
  | clearShadow hfree => simp [hc] at hfree
  | clearSkip | clearEnter | clearReturn | clearByte | clearLeave => exact absurd rfl ho
  | _ => exact hc

/-- The shadow that is being cleared is not destroyed. -/
theorem Step.shadowBuffers_isSome (h : s.Step o s')
    (hs : ∀ c, s.clearing = some c → (s.detector.shadowBuffers c.backingStore).isSome = true) :
    ∀ c, s'.clearing = some c → (s'.detector.shadowBuffers c.backingStore).isSome = true := by
  have hset (bs : ℕ) (sb : ShadowBuffer) {c : ClearStage}
      (hc : (s.detector.shadowBuffers c.backingStore).isSome = true) :
      ((s.setShadow bs sb).detector.shadowBuffers c.backingStore).isSome = true := by
    by_cases hbs : c.backingStore = bs
    · simp [setShadow, setDetector, hbs]
    · simpa [setShadow, setDetector, hbs] using hc
  cases h with
  | call ho hexec =>
    intro c hc
    have hkeep := Op.exec_shadowBuffers_of_not_memory hexec ho
    exact (congrArg (fun f ↦ (f c.backingStore).isSome) hkeep).trans (hs c hc)
  | removeShadow hfree =>
    intro c hc
    cases hfree.symm.trans hc
  | lookup | record => exact fun c hc ↦ hset _ _ (hs c hc)
  | clearShadow hfree hsb =>
    intro c hc
    obtain rfl := Option.some.inj hc
    exact Option.isSome_of_eq_some hsb
  | clearSkip hc' | clearEnter hc' | clearLeave hc' =>
    intro c hc
    obtain rfl := Option.some.inj hc
    have hheld := hs _ hc'
    exact hheld
  | clearByte hc' hsb hlt =>
    intro c hc
    obtain rfl := Option.some.inj hc
    have hheld := hs _ hc'
    exact hset _ _ hheld
  | clearReturn =>
    intro c hc
    cases hc
  | _ => exact hs

/-- A step of `ClearShadow` that does not return. -/
theorem Step.of_clearNext (h : s.Step .clearNext s') (hc : s.clearing = some c)
    (hin : c.Inside bs lo hi) (hlast : hi ≤ ShadowBuffer.lastPage) (hc' : s'.clearing = some c') :
    c'.Inside bs lo hi ∧ c'.rank < c.rank := by
  cases h with
  | clearSkip hc₁ hsb hlt =>
    obtain rfl := Option.some.inj (hc₁.symm.trans hc)
    obtain rfl := Option.some.inj hc'
    obtain ⟨hbs, rfl, hlo, -⟩ := hin
    have hnext := ShadowBuffer.lt_nextPage (hlt.trans_le hlast)
    refine ⟨⟨hbs, rfl, hlo.trans hnext.le, nofun⟩, ?_⟩
    simp only [ClearStage.rank, Option.elim_none]
    omega
  | clearEnter hc₁ hsb hlt =>
    obtain rfl := Option.some.inj (hc₁.symm.trans hc)
    obtain rfl := Option.some.inj hc'
    obtain ⟨hbs, rfl, hlo, -⟩ := hin
    have hmin := lt_min hlt (ShadowBuffer.lt_nextPage (hlt.trans_le hlast))
    refine ⟨⟨hbs, rfl, hlo, fun hp ↦ ?_⟩, ?_⟩
    · obtain rfl := Option.some.inj hp
      exact ⟨hmin.le, min_le_left ..⟩
    · simp only [ClearStage.rank, Option.elim_some, Option.elim_none, if_pos hmin]
      omega
  | clearReturn => cases hc'
  | @clearByte _ byte endByte p sb hc₁ hsb hlt =>
    obtain rfl := Option.some.inj (hc₁.symm.trans hc)
    obtain rfl := Option.some.inj hc'
    obtain ⟨hbs, rfl, hlo, hp⟩ := hin
    have hpe : p ≤ endByte := (hp rfl).2
    refine ⟨⟨hbs, rfl, hlo.trans (Nat.le_succ _), fun hp' ↦ ?_⟩, ?_⟩
    · obtain rfl := Option.some.inj hp'
      exact ⟨hlt, hpe⟩
    · simp only [ClearStage.rank, Option.elim_some]
      split_ifs <;> omega
  | clearLeave hc₁ hle =>
    obtain rfl := Option.some.inj (hc₁.symm.trans hc)
    obtain rfl := Option.some.inj hc'
    obtain ⟨hbs, rfl, hlo, -⟩ := hin
    refine ⟨⟨hbs, rfl, hlo, nofun⟩, ?_⟩
    simp [ClearStage.rank, not_lt.mpr hle]

/-- A step of `ClearShadow` passes the byte that it clears, or the bytes of a page without cells. -/
theorem Step.of_passed (h : s.Step .clearNext s') (hc : s.clearing = some c)
    (hin : c.Inside bs lo hi) (hc' : s'.clearing = some c') {byte : ℕ}
    (hbyte : c.byte ≤ byte) (hbyte' : byte < c'.byte) (hhi : byte < hi)
    (hlast : hi ≤ ShadowBuffer.lastPage) (slot : Fin kShadowCellsPerByte) :
    s.ClearsByte bs byte ∨ (s.detector.cellAt bs byte slot).valid = false := by
  cases h with
  | @clearSkip _ b _ sb hc₁ hsb hlt hpage =>
    obtain rfl := Option.some.inj (hc₁.symm.trans hc)
    obtain rfl := Option.some.inj hc'
    obtain ⟨rfl, rfl, -, -⟩ := hin
    have hidx : ShadowBuffer.pageIndex byte = ShadowBuffer.pageIndex b := by
      simp only [ShadowBuffer.lastPage, ShadowBuffer.pageIndex, kPageBytes] at *
      omega
    right
    simp only [Detector.cellAt, hsb, ShadowBuffer.cell, hidx, hpage]
  | @clearByte _ b endByte p sb hc₁ hsb hlt =>
    obtain rfl := Option.some.inj (hc₁.symm.trans hc)
    obtain rfl := Option.some.inj hc'
    obtain ⟨rfl, rfl, -, -⟩ := hin
    obtain rfl : byte = b := Nat.le_antisymm (Nat.lt_succ_iff.mp hbyte') hbyte
    exact .inl ⟨endByte, p, hc₁, hlt⟩
  | clearEnter hc₁ | clearLeave hc₁ =>
    obtain rfl := Option.some.inj (hc₁.symm.trans hc)
    obtain rfl := Option.some.inj hc'
    exact absurd hbyte' (not_lt.mpr hbyte)
  | clearReturn => cases hc'

/-- When `ClearShadow` returns, it has passed the end of its range. -/
theorem Step.of_clearReturn (h : s.Step .clearNext s') (hc : s.clearing = some c)
    (hc' : s'.clearing = none) : c.endByte ≤ c.byte := by
  cases h with
  | clearReturn hc₁ hle =>
    obtain rfl := Option.some.inj (hc₁.symm.trans hc)
    exact hle
  | _ => cases hc'

end ConcurrentState

namespace ConcurrentRun

variable {ι : Type*} [DecidableEq ι] {e : ConcurrentRun ι} {a k bs lo hi : ℕ}

/-- How many steps calls of `ClearShadow` have taken before a point. -/
def clearSteps (e : ConcurrentRun ι) (k : ℕ) : ℕ := (e.ops.take k).countP ConcurrentOp.isClearNext

/-- A call of `ClearShadow` that was made at position `a`, and that clears the bytes from `lo` to
`hi` of a buffer, has been under way until position `k`. -/
structure ClearsFrom (e : ConcurrentRun ι) (a k bs lo hi : ℕ) : Prop where
  call : ∃ size, e.ops[a]? = some (.clearShadow bs lo size)
  start : (e.state (a + 1)).clearing = some ⟨bs, lo, hi, none⟩
  lt : a < k
  busy {m : ℕ} (ham : a < m) (hmk : m ≤ k) : (e.state m).clearing.isSome = true

/-- The shadow that is being cleared is in the table. -/
theorem shadowBuffers_isSome (hk : k ≤ e.ops.length) {c : ClearStage}
    (hc : (e.state k).clearing = some c) :
    ((e.state k).detector.shadowBuffers c.backingStore).isSome = true :=
  e.invariant_of_step (P := fun s ↦ ∀ c, s.clearing = some c →
    (s.detector.shadowBuffers c.backingStore).isSome = true) nofun
    (fun ho hs ↦ (e.stepAt ho).shadowBuffers_isSome hs) hk c hc

theorem ClearsFrom.mono {m : ℕ} (h : e.ClearsFrom a k bs lo hi) (ham : a < m) (hmk : m ≤ k) :
    e.ClearsFrom a m bs lo hi :=
  ⟨h.call, h.start, ham, fun ha hm ↦ h.busy ha (hm.trans hmk)⟩

/-- Where a call of `ClearShadow` that is under way is, and how many steps it has taken. -/
theorem ClearsFrom.exists_inside (h : e.ClearsFrom a k bs lo hi)
    (hlast : hi ≤ ShadowBuffer.lastPage) (hk : k ≤ e.ops.length) :
    ∃ c, (e.state k).clearing = some c ∧ c.Inside bs lo hi ∧
      e.clearSteps k + c.rank ≤ e.clearSteps a + 3 * (hi - lo) + 1 := by
  obtain ⟨size, hcall⟩ := h.call
  have hak := h.lt
  induction k, hak using Nat.le_induction with
  | base =>
    refine ⟨_, h.start, ⟨rfl, rfl, le_rfl, nofun⟩, ?_⟩
    rw [clearSteps, countP_take_succ hcall, ← clearSteps]
    exact le_rfl
  | succ k hak ih =>
    obtain ⟨c, hc, hin, hsteps⟩ := ih (h.mono hak (Nat.le_succ k)) (Nat.le_of_succ_le hk)
    obtain ⟨c', hc'⟩ := Option.isSome_iff_exists.mp (h.busy (Nat.lt_succ_of_lt hak) le_rfl)
    have ho := List.getElem?_eq_getElem hk
    have hcount : e.clearSteps (k + 1) = e.clearSteps k + (e.ops[k].isClearNext).toNat :=
      countP_take_succ ho _
    rw [hcount]
    by_cases hnext : e.ops[k] = .clearNext
    · obtain ⟨hin', hrank⟩ := (hnext ▸ e.stepAt ho).of_clearNext hc hin hlast hc'
      refine ⟨c', hc', hin', ?_⟩
      have hone : (e.ops[k].isClearNext).toNat = 1 := by rw [hnext]; rfl
      omega
    · refine ⟨c, (e.stepAt ho).clearing_eq hc hnext, hin, ?_⟩
      have hzero : (e.ops[k].isClearNext).toNat = 0 := by
        cases hop : e.ops[k] with
        | clearNext => exact absurd hop hnext
        | _ => rfl
      omega

/-- What was in place before the call is not in place on the bytes that the call has passed. -/
theorem ClearsFrom.lt_of_inPlace (h : e.ClearsFrom a k bs lo hi)
    (hlast : hi ≤ ShadowBuffer.lastPage) (hk : k ≤ e.ops.length) {c : ClearStage}
    (hc : (e.state k).clearing = some c) {i s byte : ℕ} {t : ι} {ac : AccessCall}
    (hin : e.InPlace i k s t ac byte) (hbs : ac.backingStore = bs) (hlo : lo ≤ byte)
    (hbyte : byte < c.byte) (hhi : byte < hi) : a < i := by
  have hak := h.lt
  induction k, hak using Nat.le_induction generalizing c with
  | base =>
    obtain rfl := Option.some.inj (h.start.symm.trans hc)
    exact absurd hbyte (not_lt.mpr hlo)
  | succ k hak ih =>
    have hbefore := h.mono hak (Nat.le_succ k)
    have hk' := Nat.le_of_succ_le hk
    rcases Nat.lt_succ_iff_lt_or_eq.mp hin.lt with hik | rfl
    · have hin' : e.InPlace i k s t ac byte :=
        ⟨hin.records, hik, fun him hm ↦ hin.untouched him (Nat.lt_succ_of_lt hm)⟩
      obtain ⟨c₀, hc₀, hinside, -⟩ := hbefore.exists_inside hlast hk'
      by_cases hold : byte < c₀.byte
      · exact ih hbefore hk' hc₀ hin' hold
      · have ho := List.getElem?_eq_getElem hk
        by_cases hnext : e.ops[k] = .clearNext
        · rw [hnext] at ho
          rcases (e.stepAt ho).of_passed hc₀ hinside hc (not_lt.mp hold) hbyte hhi hlast
            (ShadowBuffer.evictSlot ac.tid) with hclear | hinv
          · exact absurd ⟨_, ho, .inr (.inl ⟨rfl, hbs ▸ hclear⟩)⟩
              (hin.untouched hik (Nat.lt_succ_self k))
          · rw [← hbs, hin'.cellAt_eq hk'] at hinv
            cases hinv
        · have hsame := (e.stepAt ho).clearing_eq hc₀ hnext
          obtain rfl := Option.some.inj (hsame.symm.trans hc)
          exact absurd hbyte hold
    · exact hak

/-- Whatever the other threads do, a call of `ClearShadow` that is under way can take its next step,
and takes a bounded number of steps. -/
theorem clearShadow_progress (e : ConcurrentRun ι) (h : e.ClearsFrom a k bs lo hi)
    (hlast : hi ≤ ShadowBuffer.lastPage) (hk : k ≤ e.ops.length) :
    (ConcurrentOp.clearNext.exec (e.state k)).isSome = true ∧
      e.clearSteps k ≤ e.clearSteps a + 3 * (hi - lo) := by
  obtain ⟨c, hc, hin, hsteps⟩ := h.exists_inside hlast hk
  constructor
  · obtain ⟨sb, hsb⟩ := Option.isSome_iff_exists.mp (shadowBuffers_isSome hk hc)
    simp [ConcurrentOp.exec, hc, hsb]
  · have hpos : 0 < c.rank := by
      cases hp : c.pageEnd with
      | none => simp [ClearStage.rank, hp]
      | some p =>
        have hle := (hin.pageEnd hp).2
        have hend := hin.endByte_eq
        simp only [ClearStage.rank, hp, Option.elim_some]
        split_ifs <;> omega
    omega

/-- When a call of `ClearShadow` returns, no access that was recorded before the call is in place in
its range, whatever the other threads have done in the meantime. The call does not change any other
cell. -/
theorem clearShadow_cleared (e : ConcurrentRun ι) (h : e.ClearsFrom a k bs lo hi)
    (hlast : hi ≤ ShadowBuffer.lastPage) (ho : e.ops[k]? = some .clearNext)
    (hret : (e.state (k + 1)).clearing = none) :
    (∀ {k' i s byte : ℕ} {t : ι} {c : AccessCall}, k < k' → e.InPlace i k' s t c byte →
      c.backingStore = bs → lo ≤ byte → byte < hi → a < i) ∧
    ∀ {m bs' byte : ℕ} {slot : Fin kShadowCellsPerByte}, a < m → m ≤ k →
      e.ops[m]? = some .clearNext → ¬(bs' = bs ∧ lo ≤ byte ∧ byte < hi) →
      (e.state (m + 1)).detector.cellAt bs' byte slot =
        (e.state m).detector.cellAt bs' byte slot := by
  have hk : k ≤ e.ops.length := (List.getElem?_eq_some_iff.mp ho).1.le
  refine ⟨fun {k' i s byte t c} hkk' hin hbs hlo hhi ↦ ?_,
    fun {m bs' byte slot} ham hmk hm hout ↦ ?_⟩
  · by_contra hai
    obtain ⟨cs, hc, hinside, -⟩ := h.exists_inside hlast hk
    have hik : i < k := (not_lt.mp hai).trans_lt h.lt
    have hin' : e.InPlace i k s t c byte :=
      ⟨hin.records, hik, fun him hm ↦ hin.untouched him (hm.trans hkk')⟩
    have hpassed := (e.stepAt ho).of_clearReturn hc hret
    rw [hinside.endByte_eq] at hpassed
    exact hai (h.lt_of_inPlace hlast hk hc hin' hbs hlo (hhi.trans_le hpassed) hhi)
  · refine (e.stepAt hm).cellAt_eq ?_
    rintro (hremove | ⟨-, endByte, p, hc, hlt⟩ | ⟨t, c, clk, hnext, -⟩)
    · cases hremove
    · obtain ⟨c, hc', hin, -⟩ := (h.mono ham hmk).exists_inside hlast (hmk.trans hk)
      obtain rfl := Option.some.inj (hc.symm.trans hc')
      exact hout ⟨hin.backingStore_eq, hin.le, hlt.trans_le (hin.pageEnd rfl).2⟩
    · cases hnext

/-! ### A byte that is written while it is cleared -/

/-- A thread has written a byte. While the byte is being cleared, another one writes it. -/
def writtenWhileCleared : ConcurrentRun Tid :=
  .ofOps [.call (.threadCreate uint32Max), .call (.threadCreate uint32Max), .access 0 (writeBy 0),
    .next 0, .next 0, .next 0, .next 0, .access 1 (writeBy 1), .next 1, .next 1,
    .clearShadow 1000 8 1, .clearNext, .clearNext, .next 1, .clearNext, .clearNext] (by decide)

theorem writtenWhileCleared_clearsFrom : writtenWhileCleared.ClearsFrom 10 15 1000 8 9 where
  call := ⟨1, rfl⟩
  start := rfl
  lt := by decide
  busy hm hm' := by interval_cases ‹ℕ› <;> rfl

theorem writtenWhileCleared_progress :
    writtenWhileCleared.clearSteps 15 ≤ writtenWhileCleared.clearSteps 10 + 3 :=
  (writtenWhileCleared.clearShadow_progress writtenWhileCleared_clearsFrom (by decide)
    (by decide)).2

theorem writtenWhileCleared_recordsAt : writtenWhileCleared.RecordsAt 13 9 1 (writeBy 1) 8 where
  snapshot := ⟨rfl, 0, rfl⟩
  lt := by decide
  loops m hm hm' := by interval_cases m <;> exact ⟨0, 0, rfl⟩
  next := rfl
  records := ⟨0, 0, _, rfl, by decide, rfl, rfl, by decide⟩

theorem writtenWhileCleared_inPlace : writtenWhileCleared.InPlace 13 16 9 1 (writeBy 1) 8 where
  records := writtenWhileCleared_recordsAt
  lt := by decide
  untouched {m} hm hm' := by
    rintro ⟨o, ho, rfl | ⟨-, endByte, p, hc, -⟩ | ⟨t, c, clk, rfl, -⟩⟩
    · interval_cases m <;> cases ho
    · interval_cases m <;> cases hc
    · interval_cases m <;> cases ho

theorem writtenWhileCleared_cleared :
    writtenWhileCleared.InPlace 13 16 9 1 (writeBy 1) 8 ∧ 10 < 13 :=
  ⟨writtenWhileCleared_inPlace,
    (writtenWhileCleared.clearShadow_cleared writtenWhileCleared_clearsFrom (by decide) rfl rfl).1
      (by decide) writtenWhileCleared_inPlace rfl le_rfl (by decide)⟩

end ConcurrentRun

end WebTSan
