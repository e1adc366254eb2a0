import WebTSan.Allocator
import Mathlib.Data.Fintype.Card

/-!
# The rotation of the slots

`ThreadCreate` begins its search behind the slot that it handed out last. After a slot was handed
out, it is therefore the last one that the search comes to, and it is not handed out again before
every other slot was handed out or was passed over as alive. Records with the tid of an ended thread
stay in the shadow, so this is how long the tid of a slot keeps naming one thread.

## Main definitions

* `WebTSan.Detector.roundOf`: when the search comes to a slot.
* `WebTSan.Session.creations`: the creations of threads between two calls.

## Main results

* `WebTSan.Session.creates_in_rotation`: what happens to the other slots between two threads in one
  slot.
* `WebTSan.Session.reuse_distance`: how many threads are created between two threads in one slot.
-/

namespace WebTSan

namespace Detector

variable {s : Detector} {t u : Tid} {p : ℕ}

/-- The round of the search of `ThreadCreate` in which it comes to a slot. -/
def roundOf (s : Detector) (t : Tid) : ℕ :=
  (t + kMaxThreads - s.nextTid % kMaxThreads) % kMaxThreads

theorem roundOf_lt (s : Detector) (t : Tid) : s.roundOf t < kMaxThreads := Nat.mod_lt _ (by decide)

theorem candidate_roundOf (s : Detector) (t : Tid) : s.candidate (s.roundOf t) = t := by
  have ht := t.isLt
  refine Fin.ext ?_
  simp only [candidate, roundOf, kMaxThreads] at *
  omega

theorem roundOf_ne (h : t ≠ u) : s.roundOf t ≠ s.roundOf u := fun heq ↦
  h (by rw [← s.candidate_roundOf t, heq, s.candidate_roundOf])

/-- The slots that the search comes to before the one that it finds are alive. -/
theorem alive_of_roundOf_lt (h : s.findSlot = t) (hu : s.roundOf u < s.roundOf t) :
    s.threadAlive u = true := by
  unfold findSlot at h
  split at h
  · next i hfind =>
    obtain ⟨-, hi, hbefore⟩ := List.find?_range_eq_some.mp hfind
    have hround : s.roundOf t = i := by
      have hlt := List.mem_range.mp hi
      simp only [candidate, roundOf, ← h, kMaxThreads] at *
      omega
    have hpassed := hbefore (s.roundOf u) (hround ▸ hu)
    rw [candidate_roundOf] at hpassed
    simpa using hpassed
  · next hfind =>
    have hpassed := List.find?_range_eq_none.mp hfind (s.roundOf u) (s.roundOf_lt u)
    rw [candidate_roundOf] at hpassed
    simpa using hpassed

/-- The slot that was handed out comes last. -/
theorem roundOf_occupy_lt (h : u ≠ t) : (s.occupy t p).roundOf u < (s.occupy t p).roundOf t := by
  have ht := t.isLt
  have hu := u.isLt
  have hne : (u : ℕ) ≠ t := fun heq ↦ h (Fin.ext heq)
  simp only [roundOf, occupy, kMaxThreads] at *
  omega

/-- The slots behind the one that is handed out move up. -/
theorem roundOf_occupy (h : s.roundOf t < s.roundOf u) :
    (s.occupy t p).roundOf u + s.roundOf t + 1 = s.roundOf u := by
  have ht := t.isLt
  have hu := u.isLt
  simp only [roundOf, occupy, kMaxThreads] at *
  omega

end Detector

/-- Only creations and `Reset` move the place where the search begins. -/
theorem Call.exec_nextTid {s s' : Detector} {c : Call} (h : c.exec s = some s')
    (hcreate : ∀ p, c ≠ .op (.threadCreate p)) (hreset : c ≠ .reset) : s'.nextTid = s.nextTid := by
  cases c with
  | op o =>
    by_cases he : s.enabled = true
    · rcases Op.exec_slots he h with ⟨p, t, rfl, -⟩ | ⟨-, hnext, -⟩
      · exact absurd rfl (hcreate p)
      · exact hnext
    · rcases Op.exec_slots_of_disabled he h with ⟨p, t, rfl, -⟩ | ⟨-, hnext, -⟩
      · exact absurd rfl (hcreate p)
      · exact hnext
  | reset => exact absurd rfl hreset
  | enable | disable | incrementSuppressedCount =>
    obtain rfl := Option.some.inj h
    rfl

/-- The call creates a thread. -/
def Call.creates : Call → Bool
  | .op (.threadCreate _) => true
  | _ => false

namespace Session

variable {S : Session} {i k : ℕ} {t u : Tid}

/-- The creations of threads between two calls. -/
def creations (S : Session) (i k : ℕ) : Finset ℕ :=
  (Finset.Ioo i k).filter fun m ↦ (S.ops[m]?).any Call.creates = true

theorem Creates.findSlot_eq (h : S.Creates i t) : (S.state i).findSlot = t := by
  obtain ⟨p, -, h⟩ := h
  exact (Detector.threadCreate_eq_some_iff.mp h).1

theorem Creates.state_succ (h : S.Creates i t) : ∃ p, S.state (i + 1) = (S.state i).occupy t p := by
  obtain ⟨p, -, h⟩ := h
  exact ⟨p, (Detector.threadCreate_eq_some_iff.mp h).2⟩

theorem Creates.unique (h : S.Creates i t) (h' : S.Creates i u) : t = u :=
  Fin.ext (h.findSlot_eq.symm.trans h'.findSlot_eq)

/-- A slot is handed out again only after every other slot was handed out, or was alive at the
creation of a thread. -/
theorem creates_in_rotation (hi : S.Creates i t) (hk : S.Creates k t) (hik : i < k)
    (hreset : ∀ m, i < m → m < k → S.ops[m]? ≠ some .reset) (hu : u ≠ t) :
    ∃ m, i < m ∧ m ≤ k ∧
      (S.Creates m u ∨ (∃ v, S.Creates m v) ∧ (S.state m).threadAlive u = true) := by
  by_contra hnone
  push Not at hnone
  have hlen : k < S.ops.length := by
    obtain ⟨p, hc, -⟩ := hk
    exact (List.getElem?_eq_some_iff.mp hc).1
  -- as long as neither happens, the search comes to `u` before `t`
  have hless : (S.state k).roundOf u < (S.state k).roundOf t := by
    refine S.invariant_from (P := fun s ↦ s.roundOf u < s.roundOf t) hik hlen.le ?_
      fun {m c} him hmk hc hless ↦ ?_
    · obtain ⟨p, hs⟩ := hi.state_succ
      rw [hs]
      exact Detector.roundOf_occupy_lt hu
    · obtain ⟨hnot, hpassed⟩ := hnone m him hmk.le
      by_cases hcreate : ∃ v, S.Creates m v
      · obtain ⟨v, hv⟩ := hcreate
        obtain ⟨p, hs⟩ := hv.state_succ
        have hdead := hpassed ⟨v, hv⟩
        have hvu : (S.state m).roundOf v < (S.state m).roundOf u := by
          have hne := Detector.roundOf_ne (s := S.state m) fun hvu : v = u ↦ hnot (hvu ▸ hv)
          refine lt_of_le_of_ne (not_lt.mp fun hlt ↦ ?_) hne
          exact hdead (Detector.alive_of_roundOf_lt hv.findSlot_eq hlt)
        have hu' := Detector.roundOf_occupy (p := p) hvu
        have ht' := Detector.roundOf_occupy (p := p) (hvu.trans hless)
        rw [hs]
        omega
      · have hnext : (S.state (m + 1)).nextTid = (S.state m).nextTid := by
          refine Call.exec_nextTid (S.step hc) (fun p hp ↦ hcreate ?_) fun hr ↦
            hreset m him hmk (hr ▸ hc)
          rcases Call.exec_slots (S.nextTid_lt (hmk.le.trans hlen.le)) (S.step hc) with
            ⟨q, v, hq, hv⟩ | ⟨hne, -⟩
          · exact ⟨v, q, hq ▸ hc, hv⟩
          · exact absurd hp (hne p)
        simpa only [Detector.roundOf, hnext] using hless
  exact (hnone k hik le_rfl).2 ⟨t, hk⟩ (Detector.alive_of_roundOf_lt hk.findSlot_eq hless)

/-- A slot that is free when a thread is created in slot `t` is handed out before `t` is handed out
again. -/
theorem exists_creates_of_free (hi : S.Creates i t) (hk : S.Creates k t) (hik : i < k)
    (hreset : ∀ m, i < m → m < k → S.ops[m]? ≠ some .reset)
    (hu : (S.state (i + 1)).threadAlive u = false) : ∃ m, i < m ∧ m < k ∧ S.Creates m u := by
  have hlen : k < S.ops.length := by
    obtain ⟨p, hc, -⟩ := hk
    exact (List.getElem?_eq_some_iff.mp hc).1
  have hut : u ≠ t := by
    rintro rfl
    rw [hi.alive] at hu
    cases hu
  obtain ⟨m, him, hmk, hcreate | ⟨-, halive⟩⟩ := creates_in_rotation hi hk hik hreset hut
  · have hne : m ≠ k := by
      rintro rfl
      exact hut (hcreate.unique hk)
    exact ⟨m, him, lt_of_le_of_ne hmk hne, hcreate⟩
  · obtain ⟨j, hj⟩ := exists_liveThread (hmk.trans hlen.le) halive
    have hij : i < j := by
      by_contra hji
      rw [hj.alive (by omega) him] at hu
      cases hu
    exact ⟨j, hij, hj.lt.trans_le hmk, hj.creates⟩

/-- Between two threads in one slot at least as many threads are created as slots were free after
the creation of the first of them. -/
theorem reuse_distance (hi : S.Creates i t) (hk : S.Creates k t) (hik : i < k)
    (hreset : ∀ m, i < m → m < k → S.ops[m]? ≠ some .reset) :
    (Finset.univ.filter fun u ↦ (S.state (i + 1)).threadAlive u = false).card ≤
      (S.creations i k).card := by
  have hcreated (u : Tid) : ∃ m, (S.state (i + 1)).threadAlive u = false →
      m ∈ S.creations i k ∧ S.Creates m u := by
    by_cases hu : (S.state (i + 1)).threadAlive u = false
    · obtain ⟨m, him, hmk, hcreate⟩ := exists_creates_of_free hi hk hik hreset hu
      have hm := hcreate
      obtain ⟨p, hc, -⟩ := hm
      refine ⟨m, fun _ ↦ ⟨Finset.mem_filter.mpr ⟨Finset.mem_Ioo.mpr ⟨him, hmk⟩, ?_⟩, hcreate⟩⟩
      simp [hc, Call.creates]
    · exact ⟨0, fun h ↦ absurd h hu⟩
  choose f hf using hcreated
  refine Finset.card_le_card_of_injOn f (fun u hu ↦ ?_) fun u hu v hv huv ↦ ?_
  · exact (hf u (Finset.mem_filter.mp hu).2).1
  · have hfu := (hf u (Finset.mem_filter.mp hu).2).2
    have hfv := (hf v (Finset.mem_filter.mp hv).2).2
    exact hfu.unique (huv ▸ hfv)

theorem createTooMany_distance :
    (Finset.univ.filter fun u ↦ (createTooMany.state 2).threadAlive u = false).card ≤
      (createTooMany.creations 1 65).card := by
  have hfirst : createTooMany.Creates 1 0 :=
    ⟨uint32Max, rfl, Detector.threadCreate_eq_some_iff.mpr ⟨by decide +kernel, rfl⟩⟩
  have hagain : createTooMany.Creates 65 0 :=
    ⟨uint32Max, rfl, Detector.threadCreate_eq_some_iff.mpr ⟨by decide +kernel, rfl⟩⟩
  refine reuse_distance hfirst hagain (by decide) fun m _ _ hm ↦ ?_
  have hmem := List.mem_of_getElem? hm
  simp [createTooMany, Execution.ofOps] at hmem

end Session

end WebTSan
