import Mathlib.Data.Finset.Lattice.Fold
import Mathlib.Tactic.Common

/-!
# Flow of clock components through joins

Places hold clocks, one component for each agent. In every step the clock of a place becomes the
join of the clocks of its *source* places before the step; a place that keeps its clock is its own
source, a place that is cleared has no source. Each agent `t` has a home place, where its own
component may in addition be changed by a tick.

Nothing here depends on which system moves the clocks. Two facts are proved about the component of
an agent `t`. It flows along sources without decreasing, as long as ticks do not decrease it
(`History.Flow.clock_le`). Conversely, a value seen away from the home of `t` was published from the
home of `t` in some earlier step and flowed from there (`History.exists_publication`,
`History.exists_origin`). No copy is ahead of the home component (`History.clock_le_home`).

## Main definitions

* `ClockFlow.History`: a finite history of clocks, with the sources of each step.
* `ClockFlow.History.Steady`: no tick decreases a component.
* `ClockFlow.History.Flow`: the paths along sources.
-/

namespace ClockFlow

/-- A finite history of places holding clocks. -/
structure History (Place Agent α : Type*) [LinearOrder α] [OrderBot α] where
  /-- The number of steps. -/
  steps : ℕ
  /-- The place of an agent's own component. -/
  home : Agent → Place
  /-- The places joined into a place by a step. -/
  sources : ℕ → Place → Finset Place
  /-- The clock of a place before a step. -/
  clock : ℕ → Place → Agent → α
  /-- Away from the home of `t`, a step only joins. -/
  clock_succ {k : ℕ} {p : Place} {t : Agent} (hk : k < steps) (hp : p ≠ home t) :
    clock (k + 1) p t = (sources k p).sup fun q ↦ clock k q t

namespace History

variable {Place Agent α : Type*} [LinearOrder α] [OrderBot α] (H : History Place Agent α)

/-- No tick decreases the component that the joins of the step produce. -/
def Steady : Prop :=
  ∀ k < H.steps, ∀ t,
    (H.sources k (H.home t)).sup (fun q ↦ H.clock k q t) ≤ H.clock (k + 1) (H.home t) t

/-- A path along sources, from the clock of a place to the clock of a place at a later time. -/
inductive Flow (H : History Place Agent α) : ℕ → Place → ℕ → Place → Prop
  | refl (k : ℕ) (p : Place) : H.Flow k p k p
  | tail {i j : ℕ} {p q r : Place} (h : H.Flow i p j q) (hj : j < H.steps)
      (hq : q ∈ H.sources j r) : H.Flow i p (j + 1) r

variable {H}

theorem Flow.single {k : ℕ} {p q : Place} (hk : k < H.steps) (hp : p ∈ H.sources k q) :
    H.Flow k p (k + 1) q :=
  .tail (.refl k p) hk hp

theorem Flow.trans {i j k : ℕ} {p q r : Place} (h : H.Flow i p j q) (h' : H.Flow j q k r) :
    H.Flow i p k r := by
  induction h' with
  | refl => exact h
  | tail _ hj hq ih => exact .tail (ih h) hj hq

/-- A place that is its own source in every step keeps what it holds. -/
theorem Flow.stay {i j : ℕ} {p : Place} (hij : i ≤ j) (hj : j ≤ H.steps)
    (h : ∀ m, i ≤ m → m < j → p ∈ H.sources m p) : H.Flow i p j p := by
  induction j, hij using Nat.le_induction with
  | base => exact .refl i p
  | succ j hij ih =>
    exact .tail (ih (Nat.le_of_succ_le hj) fun m hm hmj ↦ h m hm (Nat.lt_succ_of_lt hmj))
      hj (h j hij (Nat.lt_succ_self j))

theorem Flow.le {i k : ℕ} {p q : Place} (h : H.Flow i p k q) : i ≤ k := by
  induction h with
  | refl => exact le_rfl
  | tail _ _ _ ih => exact Nat.le_succ_of_le ih

/-- A flow that ends elsewhere leaves its first place in some step. -/
theorem Flow.exists_leave {i k : ℕ} {p q : Place} (h : H.Flow i p k q) (hq : q ≠ p) :
    ∃ j, i ≤ j ∧ j < k ∧ j < H.steps ∧ ∃ x, x ≠ p ∧ p ∈ H.sources j x := by
  induction h with
  | refl => exact absurd rfl hq
  | @tail j p x y h hj hx ih =>
    by_cases hxp : x = p
    · subst hxp
      exact ⟨j, h.le, Nat.lt_succ_self j, hj, y, hq, hx⟩
    · obtain ⟨m, him, hmj, hm⟩ := ih hxp
      exact ⟨m, him, Nat.lt_succ_of_lt hmj, hm⟩

/-- A flow that starts elsewhere enters its last place in some step. -/
theorem Flow.exists_enter {i k : ℕ} {p q : Place} (h : H.Flow i p k q) (hq : p ≠ q) :
    ∃ j, i ≤ j ∧ j < k ∧ j < H.steps ∧ ∃ x, x ≠ q ∧ x ∈ H.sources j q := by
  induction h with
  | refl => exact absurd rfl hq
  | @tail j p x y h hj hx ih =>
    by_cases hxy : x = y
    · subst hxy
      obtain ⟨m, him, hmj, hm⟩ := ih hq
      exact ⟨m, him, Nat.lt_succ_of_lt hmj, hm⟩
    · exact ⟨j, h.le, Nat.lt_succ_self j, hj, x, hxy, hx⟩

theorem Flow.lt_of_ne {i k : ℕ} {p q : Place} (h : H.Flow i p k q) (hq : q ≠ p) : i < k := by
  obtain ⟨j, hij, hjk, -⟩ := h.exists_leave hq
  exact hij.trans_lt hjk

theorem Steady.clock_le_succ (hs : H.Steady) {k : ℕ} (hk : k < H.steps) {p q : Place}
    (hp : p ∈ H.sources k q) (t : Agent) : H.clock k p t ≤ H.clock (k + 1) q t := by
  have hsup : H.clock k p t ≤ (H.sources k q).sup fun q ↦ H.clock k q t :=
    @Finset.le_sup _ _ _ _ _ (fun q ↦ H.clock k q t) _ hp
  by_cases hq : q = H.home t
  · subst hq
    exact hsup.trans (hs k hk t)
  · exact hsup.trans (H.clock_succ hk hq).ge

/-- Components do not decrease along a flow. -/
theorem Flow.clock_le (hs : H.Steady) {i j : ℕ} {p q : Place} (h : H.Flow i p j q) (t : Agent) :
    H.clock i p t ≤ H.clock j q t := by
  induction h with
  | refl => exact le_rfl
  | tail _ hj hq ih => exact ih.trans (hs.clock_le_succ hj hq t)

/-- A component seen away from the home of its agent was published from there: some earlier step
joined the home of `t`, holding at least that value, into another place, and the clock of that
place has flowed on. -/
theorem exists_publication {t : Agent} (h₀ : ∀ p, p ≠ H.home t → H.clock 0 p t = ⊥) {v : α}
    (hv : ⊥ < v) {k : ℕ} (hk : k ≤ H.steps) {p : Place} (hp : p ≠ H.home t)
    (hle : v ≤ H.clock k p t) :
    ∃ i < k, ∃ q, q ≠ H.home t ∧ H.home t ∈ H.sources i q ∧ v ≤ H.clock i (H.home t) t ∧
      H.Flow (i + 1) q k p := by
  induction k generalizing p with
  | zero => exact absurd (hle.trans (h₀ p hp).le) (not_le_of_gt hv)
  | succ k ih =>
    rw [H.clock_succ hk hp, Finset.le_sup_iff hv] at hle
    obtain ⟨q, hq, hvq⟩ := hle
    by_cases hqt : q = H.home t
    · subst hqt
      exact ⟨k, Nat.lt_succ_self k, p, hp, hq, hvq, .refl _ _⟩
    · obtain ⟨i, hi, r, hr, hsrc, hvi, hflow⟩ := ih (Nat.le_of_succ_le hk) hqt hvq
      exact ⟨i, Nat.lt_succ_of_lt hi, r, hr, hsrc, hvi, .tail hflow hk hq⟩

/-- If every step from `i` on joins a value that is at least `v` at the home of `t`, such values
come from the home of `t` at step `i` or were published from there earlier. -/
theorem exists_origin {t : Agent} (h₀ : ∀ p, p ≠ H.home t → H.clock 0 p t = ⊥) {v : α}
    (hv : ⊥ < v) {i k : ℕ} (hik : i ≤ k) (hk : k ≤ H.steps)
    (hkeep : ∀ m, i ≤ m → m < k → v ≤ (H.sources m (H.home t)).sup fun q ↦ H.clock m q t)
    {p : Place} (hle : v ≤ H.clock k p t) :
    H.Flow i (H.home t) k p ∨ ∃ q < i, ∃ x, x ≠ H.home t ∧ H.home t ∈ H.sources q x ∧
      v ≤ H.clock q (H.home t) t ∧ H.Flow (q + 1) x k p := by
  induction k, hik using Nat.le_induction generalizing p with
  | base =>
    by_cases hp : p = H.home t
    · exact .inl (hp ▸ .refl i p)
    · exact .inr (exists_publication h₀ hv hk hp hle)
  | succ k hik ih =>
    have hsup : v ≤ (H.sources k p).sup fun q ↦ H.clock k q t := by
      by_cases hp : p = H.home t
      · exact hp ▸ hkeep k hik (Nat.lt_succ_self k)
      · rwa [← H.clock_succ hk hp]
    obtain ⟨q, hq, hvq⟩ := (Finset.le_sup_iff hv).mp hsup
    rcases ih (Nat.le_of_succ_le hk) (fun m hm hmk ↦ hkeep m hm (Nat.lt_succ_of_lt hmk)) hvq with
      hflow | ⟨m, hm, x, hx, hsrc, hvm, hflow⟩
    · exact .inl (hflow.tail hk hq)
    · exact .inr ⟨m, hm, x, hx, hsrc, hvm, hflow.tail hk hq⟩

/-- If the component at the home of `t` never decreases, no other place is ahead of it. -/
theorem clock_le_home {t : Agent} (h₀ : ∀ p, H.clock 0 p t ≤ H.clock 0 (H.home t) t) {k : ℕ}
    (hk : k ≤ H.steps)
    (hmono : ∀ m < k, H.clock m (H.home t) t ≤ H.clock (m + 1) (H.home t) t) (p : Place) :
    H.clock k p t ≤ H.clock k (H.home t) t := by
  induction k generalizing p with
  | zero => exact h₀ p
  | succ k ih =>
    by_cases hp : p = H.home t
    · rw [hp]
    · rw [H.clock_succ hk hp]
      refine Finset.sup_le fun q _ ↦ ?_
      have hq := ih (Nat.le_of_succ_le hk) (fun m hm ↦ hmono m (Nat.lt_succ_of_lt hm)) q
      exact hq.trans (hmono k (Nat.lt_succ_self k))

end History

end ClockFlow
