import WebTSan.Execution
import Mathlib.Data.List.Nodup
import Mathlib.Data.List.TakeWhile
import Mathlib.Data.Nat.Count

/-!
# Queues that are left at any place

New entries join a queue at its end, and entries leave it at any place, also several at once. What
is ahead of an entry then never grows while the entry stays. So nobody who joins later is ever ahead
of it, and calls that take one entry from ahead of it are at most as many as there were at first.

## Main definitions

* `WebTSan.aheadOf`: the entries of a queue ahead of one of them.
* `WebTSan.QueueStep`: one change of a queue.

## Main results

* `WebTSan.QueueStep.aheadOf_sublist`: what is ahead of an entry that stays.
* `WebTSan.Execution.aheadOf_sublist`: the same between two points of an execution.
* `WebTSan.Execution.count_add_le`: calls that decrease a measure.
-/

namespace WebTSan

variable {β : Type*}

/-- A predicate that holds of fewer entries of a list. -/
theorem countP_lt_of_mem {p q : β → Bool} {l : List β} (hpq : ∀ x ∈ l, p x = true → q x = true)
    {x : β} (hx : x ∈ l) (hp : p x = false) (hq : q x = true) : l.countP p < l.countP q := by
  obtain ⟨l₁, l₂, rfl⟩ := List.append_of_mem hx
  have h₁ : l₁.countP p ≤ l₁.countP q :=
    List.countP_mono_left fun y hy ↦ hpq y (List.mem_append_left _ hy)
  have h₂ : l₂.countP p ≤ l₂.countP q :=
    List.countP_mono_left fun y hy ↦ hpq y (List.mem_append_right _ (List.mem_cons_of_mem x hy))
  simp only [List.countP_append, List.countP_cons, hp, hq, if_true, Bool.false_eq_true, if_false]
  omega

section Ahead

variable [DecidableEq β] {x : β} {q q' : List β}

/-- The entries of a queue ahead of `x`. -/
def aheadOf (x : β) (q : List β) : List β := q.takeWhile (· ≠ x)

@[simp] theorem aheadOf_cons_self : aheadOf x (x :: q) = [] := by simp [aheadOf]

theorem aheadOf_cons_of_ne {y : β} (h : y ≠ x) : aheadOf x (y :: q) = y :: aheadOf x q := by
  simp [aheadOf, h]

theorem aheadOf_sublist : (aheadOf x q).Sublist q := List.takeWhile_sublist _

theorem aheadOf_append (h : x ∈ q) : aheadOf x (q ++ q') = aheadOf x q := by
  induction q with
  | nil => cases h
  | cons y q ih =>
    by_cases hy : y = x
    · subst hy
      simp
    · rw [List.cons_append, aheadOf_cons_of_ne hy, aheadOf_cons_of_ne hy,
        ih ((List.mem_cons.mp h).resolve_left (Ne.symm hy))]

theorem aheadOf_sublist_of_sublist (hq : q.Nodup) (h : q'.Sublist q) (hx : x ∈ q') :
    (aheadOf x q').Sublist (aheadOf x q) := by
  induction h with
  | slnil => cases hx
  | cons y h ih =>
    obtain ⟨hy, hq⟩ := List.nodup_cons.mp hq
    have hne : y ≠ x := fun hyx ↦ hy (hyx ▸ h.subset hx)
    rw [aheadOf_cons_of_ne hne]
    exact (ih hq hx).cons y
  | cons_cons y h ih =>
    by_cases hy : y = x
    · subst hy
      simp
    · rw [aheadOf_cons_of_ne hy, aheadOf_cons_of_ne hy]
      exact (ih hq.of_cons ((List.mem_cons.mp hx).resolve_left (Ne.symm hy))).cons_cons y

end Ahead

/-- One change of a queue: some entries leave it, or a new one joins it at its end. -/
inductive QueueStep : List β → List β → Prop
  | leave {q q' : List β} (h : q'.Sublist q) : QueueStep q q'
  | join {q : List β} {x : β} (h : x ∉ q) : QueueStep q (q ++ [x])

namespace QueueStep

variable {q q' : List β}

theorem nodup (h : QueueStep q q') (hq : q.Nodup) : q'.Nodup := by
  cases h with
  | leave h => exact h.nodup hq
  | join hx =>
    refine List.nodup_append.mpr ⟨hq, List.nodup_singleton _, fun y hy z hz hyz ↦ hx ?_⟩
    rwa [← List.mem_singleton.mp hz, ← hyz]

/-- What is ahead of an entry that stays was ahead of it, in the same order. -/
theorem aheadOf_sublist [DecidableEq β] (h : QueueStep q q') (hq : q.Nodup) {x : β} (hx : x ∈ q)
    (hx' : x ∈ q') : (aheadOf x q').Sublist (aheadOf x q) := by
  cases h with
  | leave h => exact aheadOf_sublist_of_sublist hq h hx'
  | join => rw [aheadOf_append hx]

end QueueStep

namespace Execution

variable {σ α : Type*} {exec : σ → α → Option σ} {s₀ : σ} (e : Execution exec s₀)

/-- While an entry stays in a queue, nothing gets ahead of it. -/
theorem aheadOf_sublist [DecidableEq β] (queue : σ → List β) {x : β} {i k : ℕ} (hik : i ≤ k)
    (hk : k ≤ e.ops.length) (hstep : ∀ {m : ℕ} {o : α}, i ≤ m → m < k → e.ops[m]? = some o →
      QueueStep (queue (e.state m)) (queue (e.state (m + 1))))
    (hq : (queue (e.state i)).Nodup) (hx : ∀ m, i ≤ m → m ≤ k → x ∈ queue (e.state m)) :
    (aheadOf x (queue (e.state k))).Sublist (aheadOf x (queue (e.state i))) := by
  have hkeep (n : ℕ) (hin : i ≤ n) (hnk : n ≤ k) : (queue (e.state n)).Nodup ∧
      (aheadOf x (queue (e.state n))).Sublist (aheadOf x (queue (e.state i))) := by
    induction n, hin using Nat.le_induction with
    | base => exact ⟨hq, .refl _⟩
    | succ n hin ih =>
      obtain ⟨hnodup, hsub⟩ := ih (Nat.le_of_succ_le hnk)
      have hnext := hstep hin hnk (List.getElem?_eq_getElem (hnk.trans hk))
      exact ⟨hnext.nodup hnodup,
        (hnext.aheadOf_sublist hnodup (hx n hin (Nat.le_of_succ_le hnk))
          (hx (n + 1) (hin.trans n.le_succ) hnk)).trans hsub⟩
  exact (hkeep k hik le_rfl).2

/-- Calls that decrease a measure which no call increases are at most as many as it was. -/
theorem count_add_le (f : σ → ℕ) (p : ℕ → Prop) [DecidablePred p] {i k : ℕ} (hik : i ≤ k)
    (hk : k ≤ e.ops.length) (hstep : ∀ {m : ℕ} {o : α}, i ≤ m → m < k → e.ops[m]? = some o →
      f (e.state (m + 1)) ≤ f (e.state m) ∧ (p m → f (e.state (m + 1)) < f (e.state m))) :
    Nat.count p k + f (e.state k) ≤ Nat.count p i + f (e.state i) := by
  induction k, hik using Nat.le_induction with
  | base => rfl
  | succ k hik ih =>
    have hbefore := ih (Nat.le_of_succ_le hk) fun him hmk ↦ hstep him (Nat.lt_succ_of_lt hmk)
    obtain ⟨hle, hlt⟩ := hstep hik k.lt_succ_self (List.getElem?_eq_getElem hk)
    rw [Nat.count_succ]
    split_ifs with hp
    · have hdrop := hlt hp
      omega
    · omega

end Execution

end WebTSan
