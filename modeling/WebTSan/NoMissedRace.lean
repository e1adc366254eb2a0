import WebTSan.Detection

/-!
# No missed races between locks and atomics

In runs that create all their threads first and then only synchronize through addresses and joins,
clocks are exact: a thread knows the epoch of an access of another thread exactly if this access
happens before. The reason is that every publication of a thread either ticks it or is its last
event, so that an epoch ends with the first publication that carries it.

## Main definitions

* `WebTSan.Run.SyncFragment`.

## Main results

* `WebTSan.Run.syncFragment_exact`.
-/

namespace WebTSan

namespace Op

/-- The calls of the acquire, release and mutex fragment, after the threads are created. -/
def isSync : Op → Bool
  | .acquire .. | .release .. | .mutexCreate _ | .mutexDestroy _ | .mutexPostLock ..
  | .mutexReadLock .. | .mutexUnlock .. | .threadJoin .. | .memoryAccess .. => true
  | _ => false

/-- The thread that makes a call of the fragment. -/
def actor : Op → Option Tid
  | .acquire t _ | .release t _ | .mutexPostLock t _ | .mutexReadLock t _ | .mutexUnlock t _
  | .threadJoin t _ | .memoryAccess _ _ _ _ t _ => some t
  | _ => none

end Op

namespace Run

/-- The run creates `n` threads without a parent, which then only synchronize through addresses,
join threads that have no later event, and access memory. -/
structure SyncFragment (r : Run) (n : ℕ) : Prop where
  le_kMaxThreads : n ≤ kMaxThreads
  creates {k : ℕ} (hk : k < n) : r.ops[k]? = some (.threadCreate uint32Max)
  isSync {k : ℕ} {o : Op} (hk : n ≤ k) (ho : r.ops[k]? = some o) : o.isSync = true
  created {k : ℕ} {o : Op} {t : Tid} (ho : r.ops[k]? = some o) (ht : o.actor = some t) : t < n
  joined {k m : ℕ} {o : Op} {j c : Tid} (ho : r.ops[k]? = some (.threadJoin j c)) (hkm : k < m)
    (hm : r.ops[m]? = some o) : o.actor ≠ some c

namespace SyncFragment

variable {r : Run} {n : ℕ} (h : r.SyncFragment n)
include h

/-- While the threads are created, the allocator hands out the slots in order. -/
theorem state_create {k : ℕ} (hk : k ≤ n) : (r.state k).nextTid = k % kMaxThreads ∧
    ∀ u, (r.state k).threadAlive u = decide (u < k) := by
  induction k with
  | zero =>
    rw [r.state_zero]
    exact ⟨rfl, fun u ↦ rfl⟩
  | succ k ih =>
    obtain ⟨hnext, halive⟩ := ih (Nat.le_of_succ_le hk)
    have hlt : k < kMaxThreads := lt_of_lt_of_le hk h.le_kMaxThreads
    have ho := h.creates hk
    have hcand : ((r.state k).candidate 0 : ℕ) = k := by
      simp only [Detector.candidate, hnext, Nat.add_zero, Nat.mod_mod]
      exact Nat.mod_eq_of_lt hlt
    have hfree : (r.state k).threadAlive ((r.state k).candidate 0) = false := by
      rw [halive, hcand, decide_eq_false (lt_irrefl k)]
    have hslot : (r.state k).findSlot = k := (Detector.findSlot_of_free _ hfree).trans hcand
    rcases Op.exec_slots (r.enabled (lt_length_of_getElem? ho).le) (r.step ho) with
      ⟨p, t, -, ht, hs⟩ | ⟨hne, -⟩
    · have htk : (t : ℕ) = k := ht.symm.trans hslot
      rw [hs]
      refine ⟨by rw [Detector.occupy, htk], fun u ↦ ?_⟩
      by_cases hu : u = t
      · subst hu
        simp [Detector.occupy, htk]
      · have hne : (u : ℕ) ≠ k := fun huk ↦ hu (Fin.ext (huk.trans htk.symm))
        simp only [Detector.occupy, Function.update_of_ne hu, halive, decide_eq_decide]
        omega
    · exact absurd rfl (hne _)

/-- The thread in slot `t` is created by the call at position `t`. -/
theorem creates_iff_eq {k : ℕ} {t : Tid} : r.Creates k t ↔ k < n ∧ k = t := by
  have hslot (hk : k < n) : ((r.state k).nextSlot : ℕ) = k := by
    obtain ⟨hnext, halive⟩ := h.state_create hk.le
    have hcand : ((r.state k).candidate 0 : ℕ) = k := by
      simp only [Detector.candidate, hnext, Nat.add_zero, Nat.mod_mod]
      exact Nat.mod_eq_of_lt (lt_of_lt_of_le hk h.le_kMaxThreads)
    have hfree : (r.state k).threadAlive ((r.state k).candidate 0) = false := by
      rw [halive, hcand, decide_eq_false (lt_irrefl k)]
    rw [Detector.nextSlot_eq _ (Detector.findSlot_of_free _ hfree), hcand]
  rw [creates_iff]
  constructor
  · rintro ⟨p, ho, rfl⟩
    have hk : k < n := by
      by_contra hk
      have hsync := h.isSync (not_lt.mp hk) ho
      cases hsync
    exact ⟨hk, (hslot hk).symm⟩
  · rintro ⟨hk, hkt⟩
    exact ⟨_, h.creates hk, Fin.ext ((hslot hk).trans hkt)⟩

theorem sameOccupant (t : Tid) {i j : ℕ} (hi : n ≤ i) : r.SameOccupant t i j := by
  intro m hm _ hc
  have hlt := (h.creates_iff_eq.mp hc).1
  omega

/-- Once all threads are created, the own counter of a thread is positive and does not decrease. -/
theorem clock_le (hw : r.NoWrap) (t : Tid) {i j : ℕ} (hi : n ≤ i) (hij : i ≤ j)
    (hj : j ≤ r.ops.length) : (r.state i).threadClocks t t ≤ (r.state j).threadClocks t t :=
  (h.sameOccupant t hi).clock_le hw hij hj

theorem pos (hw : r.NoWrap) {t : Tid} (ht : t < n) {i : ℕ} (hi : n ≤ i) (hlen : i ≤ r.ops.length) :
    0 < (r.state i).threadClocks t t := by
  have hsame : r.SameOccupant t (t + 1) i := by
    intro m hm hmi hc
    have hmt := (h.creates_iff_eq.mp hc).2
    omega
  have hcreates : r.Creates t t := h.creates_iff_eq.mpr ⟨ht, rfl⟩
  exact (hcreates.pos hw).trans_le (hsame.clock_le hw (by omega) hlen)

/-- A thread publishes after the creations only by ticking, or when it is joined and has no event
any more. -/
theorem publishes_cases {q : ℕ} {t : Tid} (hp : r.Publishes q t) :
    n ≤ q ∧ ((∃ a, r.ReleasesAt q t a) ∨ ∃ j, r.ops[q]? = some (.threadJoin j t)) := by
  obtain ⟨o, ho, hp⟩ := hp
  by_cases hq : n ≤ q
  · refine ⟨hq, ?_⟩
    have hsync := h.isSync hq ho
    cases o with
    | release u a | mutexUnlock u a =>
      obtain rfl : u = t := of_decide_eq_true hp
      exact .inl ⟨a, _, ho, rfl⟩
    | threadJoin j c =>
      obtain rfl : c = t := of_decide_eq_true hp
      exact .inr ⟨j, ho⟩
    | threadCreate | threadFinish | threadDestroy | threadAbsorb | happensBefore => cases hsync
    | _ => cases hp
  · obtain rfl := Option.some.inj ((h.creates (not_le.mp hq)).symm.trans ho)
    simp [Detector.publishes, Detector.liveParent] at hp

/-- Whatever carries the epoch of an access away from its thread was published after it. -/
theorem le_of_publishes (hw : r.NoWrap) {i q bs len off size : ℕ} {t : Tid} {w : Bool}
    (ho : r.ops[i]? = some (.memoryAccess bs len off size t w)) (hp : r.Publishes q t)
    (hle : (r.state i).threadClocks t t ≤ (r.state q).threadClocks t t) : i ≤ q := by
  obtain ⟨hq, ⟨a, hrel⟩ | ⟨j, hjoin⟩⟩ := h.publishes_cases hp
  · by_contra hiq
    have hqi : q + 1 ≤ i := not_le.mp hiq
    have htick := hrel.lt hw
    have hmono := h.clock_le hw t (hq.trans (Nat.le_succ q)) hqi (lt_length_of_getElem? ho).le
    exact absurd (hle.trans_lt (htick.trans_le hmono)) (lt_irrefl _)
  · by_contra hiq
    exact h.joined hjoin (not_le.mp hiq) ho rfl

/-- An epoch is known to another thread exactly if its accesses happen before. -/
theorem knows_iff (hw : r.NoWrap) {i k bs len off size : ℕ} {t u : Tid} {w : Bool}
    (ho : r.ops[i]? = some (.memoryAccess bs len off size t w)) (hk : k ≤ r.ops.length)
    (hu : u ≠ t) : (r.state i).threadClocks t t ≤ (r.state k).threadClocks u t ↔
      r.HappensBefore (i, t) (k, u) := by
  refine ⟨fun hle ↦ ?_, fun hb ↦ hb.clock_le hw t⟩
  have hi : n ≤ i := by
    by_contra hi
    cases (h.creates (not_le.mp hi)).symm.trans ho
  have hpos := h.pos hw (h.created ho rfl) hi (lt_length_of_getElem? ho).le
  obtain ⟨q, hqk, hp, hq, hb⟩ := r.exists_publication hk hu hpos hle
  rcases (h.le_of_publishes hw ho hp hq).eq_or_lt with rfl | hiq
  · exact hb
  · exact .head (.programOrder hiq (hqk.le.trans hk) (h.sameOccupant t hi)) hb

end SyncFragment

/-- Clocks are exact in the acquire, release and mutex fragment: another thread knows the epoch of
an access at some point exactly if the access happens before that point. So an access to one byte
finds a race if the shadow holds a conflicting access that does not happen before it. -/
theorem syncFragment_exact (r : Run) {n : ℕ} (h : r.SyncFragment n) (hw : r.NoWrap)
    {i k bs len off size : ℕ} {t u : Tid} {w : Bool}
    (ho : r.ops[i]? = some (.memoryAccess bs len off size t w)) (hk : k ≤ r.ops.length)
    (hu : u ≠ t) :
    ((r.state i).threadClocks t t ≤ (r.state k).threadClocks u t ↔
      r.HappensBefore (i, t) (k, u)) ∧
    ∀ (len' byte : ℕ) (w' : Bool) (c : Fin kShadowCellsPerByte),
      r.ops[k]? = some (.memoryAccess bs len' byte 1 u w') →
      (r.state k).cellAt bs byte c = r.recordOf i t w → w = true ∨ w' = true →
      ¬r.HappensBefore (i, t) (k, u) →
      (Op.found (r.state k) (.memoryAccess bs len' byte 1 u w')).isSome = true := by
  have hknows := h.knows_iff hw ho hk hu
  refine ⟨hknows, fun len' byte w' c hk' hcell hww hb ↦ ?_⟩
  have hlt := not_le.mp (mt hknows.mp hb)
  exact found_of_cellAt hk' le_rfl (Nat.lt_succ_self byte) hcell hu.symm hww hlt

/-- Thread 0 hands a write over to thread 1 and then writes another word, which thread 1 writes,
too. -/
def releaseThenWrite : Run :=
  .ofOps [.threadCreate uint32Max, .threadCreate uint32Max, .memoryAccess 1000 64 8 1 0 true,
    .release 0 500, .acquire 1 500, .memoryAccess 1000 64 16 1 0 true,
    .memoryAccess 1000 64 16 1 1 true] (by decide)

theorem releaseThenWrite_syncFragment : releaseThenWrite.SyncFragment 2 where
  le_kMaxThreads := by decide
  creates {k} hk := by interval_cases k <;> rfl
  isSync {k o} hk ho := by
    have hlt : k < 7 := lt_length_of_getElem? ho
    interval_cases k <;> obtain rfl := Option.some.inj ho <;> rfl
  created {k o t} ho ht := by
    have hlt : k < 7 := lt_length_of_getElem? ho
    interval_cases k <;> obtain rfl := Option.some.inj ho <;>
      first | obtain rfl := Option.some.inj ht; decide | cases ht
  joined {k m o j c} ho := by
    have hlt : k < 7 := lt_length_of_getElem? ho
    interval_cases k <;> cases Option.some.inj ho

theorem releaseThenWrite_exact : releaseThenWrite.HappensBefore (2, 0) (6, 1) ∧
    (Op.found (releaseThenWrite.state 6) (.memoryAccess 1000 64 16 1 1 true)).isSome = true := by
  have h := releaseThenWrite_syncFragment
  have hw := releaseThenWrite.noWrap_of_length (by decide)
  have h₁ := releaseThenWrite.syncFragment_exact h hw (i := 2) (k := 6) rfl (by decide)
    (by decide : (1 : Tid) ≠ 0)
  have h₂ := releaseThenWrite.syncFragment_exact h hw (i := 5) (k := 6) rfl (by decide)
    (by decide : (1 : Tid) ≠ 0)
  refine ⟨h₁.1.mp (by decide), h₂.2 64 16 true (ShadowBuffer.evictSlot 0) rfl rfl (.inl rfl) ?_⟩
  exact fun hb ↦ absurd (h₂.1.mpr hb) (by decide)

end Run

end WebTSan
