import Mathlib.Data.Nat.Init
import Mathlib.Order.Monotone.Basic
import Mathlib.Tactic.Common

/-!
# Executions of a partial step function

A system is given by a function that executes one call in a state, and that has no value when the
call does not return. An `Execution` is a finite sequence of calls that return, with the states
between them; `e.state k` is the state before the call `e.ops[k]`.

## Main definitions

* `WebTSan.execAll`, `WebTSan.Execution`, `WebTSan.Execution.ofOps`, `WebTSan.Execution.append`.
* `WebTSan.Execution.Projects`, `WebTSan.Execution.project`: the calls of an execution that another
  system sees.

## Main results

* `WebTSan.Execution.invariant_from`: what the calls from a point on preserve is kept from there on.
* `WebTSan.Execution.le_of_step`: what no call decreases grows.
* `WebTSan.Execution.invariant_of_step`: what every call of an execution preserves holds in every
  state of it.
* `WebTSan.Execution.exists_gain`: what holds in the end but not at first was gained by a call.
* `WebTSan.Execution.exists_related`: the same calls in a related system.
* `WebTSan.Execution.exists_simulated`: every call by some calls of a related system.
* `WebTSan.Execution.project_state`: the states of a projection.
-/

namespace WebTSan

variable {σ α : Type*}

/-- Execute a list of calls, as long as they return. -/
def execAll (exec : σ → α → Option σ) (s : σ) : List α → Option σ
  | [] => some s
  | o :: ops => (exec s o).bind fun s' ↦ execAll exec s' ops

section ExecAll

variable {exec : σ → α → Option σ}

theorem execAll_append (s : σ) (ops ops' : List α) :
    execAll exec s (ops ++ ops') = (execAll exec s ops).bind fun s' ↦ execAll exec s' ops' := by
  induction ops generalizing s with
  | nil => rfl
  | cons o ops ih =>
    rw [List.cons_append, execAll, execAll]
    cases exec s o with
    | none => rfl
    | some s' => exact ih s'

/-- In a list of calls that return, every call leads from the state before it to the next one. -/
theorem exec_execAll_take {s : σ} {ops : List α} (h : (execAll exec s ops).isSome = true) {k : ℕ}
    {o : α} (ho : ops[k]? = some o) :
    exec ((execAll exec s (ops.take k)).getD s) o =
      some ((execAll exec s (ops.take (k + 1))).getD s) := by
  obtain ⟨s₁, hs₁⟩ := Option.isSome_iff_exists.mp h
  rw [← List.take_append_drop (k + 1) ops, execAll_append, Option.bind_eq_some_iff] at hs₁
  obtain ⟨s₂, hs₂, -⟩ := hs₁
  have htake : ops.take (k + 1) = ops.take k ++ [o] := by rw [List.take_add_one, ho]; rfl
  rw [htake, execAll_append, Option.bind_eq_some_iff] at hs₂
  obtain ⟨s₃, hs₃, ho'⟩ := hs₂
  rw [htake, execAll_append, hs₃]
  cases he : exec s₃ o with
  | none => rw [execAll, he] at ho'; cases ho'
  | some s₄ => simp [execAll, he]

end ExecAll

/-- How many calls up to a point are of a kind. -/
theorem countP_take_succ {ops : List α} {k : ℕ} {o : α} (ho : ops[k]? = some o) (p : α → Bool) :
    (ops.take (k + 1)).countP p = (ops.take k).countP p + (p o).toNat := by
  rw [List.take_add_one, ho, List.countP_append]
  cases hp : p o <;> simp [hp]

/-- A finite sequence of calls that return, from the state `s₀` on. -/
structure Execution (exec : σ → α → Option σ) (s₀ : σ) where
  ops : List α
  /-- The state before each call. -/
  state : ℕ → σ
  state_zero : state 0 = s₀
  step {k : ℕ} {o : α} (h : ops[k]? = some o) : exec (state k) o = some (state (k + 1))

namespace Execution

variable {exec : σ → α → Option σ} {s₀ : σ}

/-- The execution that makes the given calls. -/
def ofOps (ops : List α) (h : (execAll exec s₀ ops).isSome = true) : Execution exec s₀ where
  ops := ops
  state k := (execAll exec s₀ (ops.take k)).getD s₀
  state_zero := rfl
  step := exec_execAll_take h

variable (e : Execution exec s₀)

theorem state_succ {k : ℕ} {o : α} {s : σ} (ho : e.ops[k]? = some o)
    (h : exec (e.state k) o = some s) : e.state (k + 1) = s :=
  Option.some.inj ((e.step ho).symm.trans h)

/-- The state of an execution after some of its calls in a row. -/
theorem state_add_length {k : ℕ} {ops : List α} {s : σ} (hops : ops <+: e.ops.drop k)
    (h : execAll exec (e.state k) ops = some s) : e.state (k + ops.length) = s := by
  induction ops generalizing k with
  | nil => exact Option.some.inj h
  | cons o ops ih =>
    obtain ⟨rest, hrest⟩ := hops
    have ho : e.ops[k]? = some o := by
      rw [← Nat.add_zero k, ← List.getElem?_drop, ← hrest]
      rfl
    have hdrop : ops <+: e.ops.drop (k + 1) := ⟨rest, by rw [← List.tail_drop, ← hrest]; rfl⟩
    rw [execAll, e.step ho, Option.bind_some] at h
    rw [List.length_cons, Nat.add_comm ops.length, ← Nat.add_assoc]
    exact ih hdrop h

theorem execAll_take {k : ℕ} (hk : k ≤ e.ops.length) :
    execAll exec s₀ (e.ops.take k) = some (e.state k) := by
  induction k with
  | zero => rw [e.state_zero]; rfl
  | succ k ih =>
    have ho := List.getElem?_eq_getElem hk
    rw [List.take_add_one, ho, execAll_append, ih (Nat.le_of_succ_le hk)]
    simp [execAll, e.step ho]

/-- The execution that goes on with more calls. -/
def append (ops : List α) {s : σ} (h : execAll exec (e.state e.ops.length) ops = some s) :
    Execution exec s₀ :=
  ofOps (e.ops ++ ops) (by
    have htake := e.execAll_take (Nat.le_refl _)
    rw [List.take_length] at htake
    rw [execAll_append, htake, Option.bind_some, h]
    rfl)

/-- The state after some of the calls with which an execution goes on. -/
theorem append_state (ops : List α) {s s₁ : σ} {ops₁ : List α}
    (h : execAll exec (e.state e.ops.length) ops = some s)
    (h₁ : execAll exec (e.state e.ops.length) ops₁ = some s₁) (hops : ops₁ <+: ops) :
    (e.append ops h).state (e.ops.length + ops₁.length) = s₁ := by
  obtain ⟨ops₂, rfl⟩ := hops
  have htake : (e.ops ++ (ops₁ ++ ops₂)).take (e.ops.length + ops₁.length) = e.ops ++ ops₁ := by
    rw [← List.append_assoc, ← List.length_append]
    exact List.take_left
  have hall := e.execAll_take (Nat.le_refl _)
  rw [List.take_length] at hall
  simp only [append, ofOps, htake, execAll_append, hall, Option.bind_some, h₁, Option.getD_some]

theorem append_state_length (ops : List α) {s : σ}
    (h : execAll exec (e.state e.ops.length) ops = some s) :
    (e.append ops h).state (e.append ops h).ops.length = s := by
  have hlen : (e.append ops h).ops.length = e.ops.length + ops.length := List.length_append
  rw [hlen, e.append_state ops h h (List.prefix_refl ops)]

/-- What holds at a point, and is preserved by the calls between it and a later one, holds there. -/
theorem invariant_from {P : σ → Prop} {j k : ℕ} (hjk : j ≤ k) (hk : k ≤ e.ops.length)
    (hj : P (e.state j)) (hstep : ∀ {m : ℕ} {o : α}, j ≤ m → m < k → e.ops[m]? = some o →
      P (e.state m) → P (e.state (m + 1))) : P (e.state k) := by
  induction k, hjk using Nat.le_induction with
  | base => exact hj
  | succ k hjk ih =>
    have hbefore := ih (Nat.le_of_succ_le hk) fun hjm hmk ↦ hstep hjm (Nat.lt_succ_of_lt hmk)
    exact hstep hjk (Nat.lt_succ_self k) (List.getElem?_eq_getElem hk) hbefore

/-- What no call between two points decreases is at most what it is at the later one. -/
theorem le_of_step {β : Type*} [Preorder β] (f : σ → β) {j k : ℕ} (hjk : j ≤ k)
    (hk : k ≤ e.ops.length) (hstep : ∀ {m : ℕ} {o : α}, j ≤ m → m < k → e.ops[m]? = some o →
      f (e.state m) ≤ f (e.state (m + 1))) : f (e.state j) ≤ f (e.state k) :=
  e.invariant_from (P := fun s ↦ f (e.state j) ≤ f s) hjk hk le_rfl
    fun hjm hmk ho h ↦ h.trans (hstep hjm hmk ho)

/-- What every call of an execution preserves holds in every state of it. -/
theorem invariant_of_step {P : σ → Prop} (h₀ : P s₀)
    (hstep : ∀ {k : ℕ} {o : α}, e.ops[k]? = some o → P (e.state k) → P (e.state (k + 1)))
    {k : ℕ} (hk : k ≤ e.ops.length) : P (e.state k) := by
  refine e.invariant_from (Nat.zero_le k) hk ?_ fun _ _ ↦ hstep
  rwa [e.state_zero]

/-- A property that the first state does not have was gained by some call, and kept from then on. -/
theorem exists_gain {P : σ → Prop} (h₀ : ¬P s₀) {k : ℕ} (hk : k ≤ e.ops.length)
    (h : P (e.state k)) : ∃ j o, e.ops[j]? = some o ∧ j < k ∧ ¬P (e.state j) ∧
      ∀ m, j < m → m ≤ k → P (e.state m) := by
  induction k with
  | zero => exact absurd (e.state_zero ▸ h) h₀
  | succ k ih =>
    by_cases hbefore : P (e.state k)
    · obtain ⟨j, o, ho, hjk, hj, hkept⟩ := ih (Nat.le_of_succ_le hk) hbefore
      refine ⟨j, o, ho, Nat.lt_succ_of_lt hjk, hj, fun m hm hmk ↦ ?_⟩
      rcases Nat.le_succ_iff.mp hmk with hmk | rfl
      · exact hkept m hm hmk
      · exact h
    · refine ⟨k, _, List.getElem?_eq_getElem hk, Nat.lt_succ_self k, hbefore, fun m hm hmk ↦ ?_⟩
      obtain rfl := Nat.le_antisymm hmk hm
      exact h

/-- The calls of an execution return in another system from a related state, if every call keeps
the two systems related. -/
theorem exists_related {τ : Type*} {exec' : τ → α → Option τ} {R : σ → τ → Prop} {s₀' : τ}
    (h₀ : R s₀ s₀') (hstep : ∀ {k : ℕ} {o : α} {s' : τ}, e.ops[k]? = some o → R (e.state k) s' →
      ∃ s₁', exec' s' o = some s₁' ∧ R (e.state (k + 1)) s₁') :
    ∃ e' : Execution exec' s₀', e'.ops = e.ops ∧
      ∀ k ≤ e.ops.length, R (e.state k) (e'.state k) := by
  have htake (k : ℕ) (hk : k ≤ e.ops.length) :
      ∃ s', execAll exec' s₀' (e.ops.take k) = some s' ∧ R (e.state k) s' := by
    induction k with
    | zero => exact ⟨s₀', rfl, e.state_zero.symm ▸ h₀⟩
    | succ k ih =>
      obtain ⟨s', hs', hR⟩ := ih (Nat.le_of_succ_le hk)
      have ho := List.getElem?_eq_getElem hk
      obtain ⟨s₁', hs₁', hR₁⟩ := hstep ho hR
      refine ⟨s₁', ?_, hR₁⟩
      rw [List.take_add_one, ho, execAll_append, hs']
      simp [execAll, hs₁']
  obtain ⟨s', hs', -⟩ := htake e.ops.length (Nat.le_refl _)
  rw [List.take_length] at hs'
  refine ⟨ofOps e.ops (Option.isSome_of_eq_some hs'), rfl, fun k hk ↦ ?_⟩
  obtain ⟨s₁', hs₁', hR⟩ := htake k hk
  simpa [ofOps, hs₁'] using hR

/-! ### Simulations -/

/-- Some calls lead from one state to another. -/
def Reaches {τ β : Type*} (exec' : τ → β → Option τ) (s s' : τ) : Prop :=
  ∃ ops, execAll exec' s ops = some s'

section Simulation

variable {τ β : Type*} {exec' : τ → β → Option τ} {s₀' s s' s'' : τ}

theorem Reaches.refl (s : τ) : Reaches exec' s s := ⟨[], rfl⟩

theorem Reaches.head {o : β} (h : exec' s o = some s') (h' : Reaches exec' s' s'') :
    Reaches exec' s s'' := by
  obtain ⟨ops, hops⟩ := h'
  exact ⟨o :: ops, by rw [execAll, h, Option.bind_some, hops]⟩

theorem Reaches.single {o : β} (h : exec' s o = some s') : Reaches exec' s s' := .head h (.refl s')

theorem Reaches.trans (h : Reaches exec' s s') (h' : Reaches exec' s' s'') :
    Reaches exec' s s'' := by
  obtain ⟨ops, hops⟩ := h
  obtain ⟨ops', hops'⟩ := h'
  exact ⟨ops ++ ops', by rw [execAll_append, hops, Option.bind_some, hops']⟩

/-- If every call of an execution leads, by some calls of another system, from related states to
related states, then some execution of the other system goes through related states. -/
theorem exists_simulated {R : ℕ → σ → τ → Prop} (h₀ : R 0 s₀ s₀')
    (hstep : ∀ {k : ℕ} {o : α} {s' : τ}, e.ops[k]? = some o → R k (e.state k) s' →
      ∃ s₁', Reaches exec' s' s₁' ∧ R (k + 1) (e.state (k + 1)) s₁') :
    ∃ (e' : Execution exec' s₀') (pos : ℕ → ℕ), Monotone pos ∧
      ∀ k ≤ e.ops.length, pos k ≤ e'.ops.length ∧ R k (e.state k) (e'.state (pos k)) := by
  have hsim (n : ℕ) (hn : n ≤ e.ops.length) : ∃ (ops : List β) (pos : ℕ → ℕ) (s' : τ),
      execAll exec' s₀' ops = some s' ∧ Monotone pos ∧ (∀ k, pos k ≤ ops.length) ∧
        R n (e.state n) s' ∧ ∀ k ≤ n, ∃ s₁, execAll exec' s₀' (ops.take (pos k)) = some s₁ ∧
          R k (e.state k) s₁ := by
    induction n with
    | zero =>
      have hR : R 0 (e.state 0) s₀' := by rwa [e.state_zero]
      refine ⟨[], fun _ ↦ 0, s₀', rfl, monotone_const, fun _ ↦ Nat.le_refl _, hR, fun k hk ↦ ?_⟩
      obtain rfl := Nat.le_zero.mp hk
      exact ⟨s₀', rfl, hR⟩
    | succ n ih =>
      obtain ⟨ops, pos, s', hops, hmono, hle, hR, hall⟩ := ih (Nat.le_of_succ_le hn)
      obtain ⟨s₁', ⟨more, hmore⟩, hR'⟩ := hstep (List.getElem?_eq_getElem hn) hR
      have hexec : execAll exec' s₀' (ops ++ more) = some s₁' := by
        rw [execAll_append, hops, Option.bind_some, hmore]
      have hbound (k : ℕ) : pos k ≤ (ops ++ more).length :=
        Nat.le_trans (hle k) (by rw [List.length_append]; exact Nat.le_add_right ..)
      refine ⟨ops ++ more, fun k ↦ if k ≤ n then pos k else (ops ++ more).length, s₁', hexec,
        fun j k hjk ↦ ?_, fun k ↦ ?_, hR', fun k hk ↦ ?_⟩
      · by_cases hk : k ≤ n
        · simpa [hk, Nat.le_trans hjk hk] using hmono hjk
        · simp only [hk, ↓reduceIte]
          split_ifs
          · exact hbound j
          · exact Nat.le_refl _
      · dsimp only
        split_ifs
        · exact hbound k
        · exact Nat.le_refl _
      · by_cases hkn : k ≤ n
        · obtain ⟨s₁, hs₁, hR₁⟩ := hall k hkn
          refine ⟨s₁, ?_, hR₁⟩
          simpa [hkn, List.take_append_of_le_length (hle k)] using hs₁
        · obtain rfl : k = n + 1 := Nat.le_antisymm hk (Nat.lt_of_not_le hkn)
          refine ⟨s₁', ?_, hR'⟩
          simp only [hkn, ↓reduceIte, List.take_length]
          exact hexec
  obtain ⟨ops, pos, s', hops, hmono, hle, -, hall⟩ := hsim e.ops.length (Nat.le_refl _)
  refine ⟨ofOps ops (Option.isSome_of_eq_some hops), pos, hmono, fun k hk ↦ ⟨hle k, ?_⟩⟩
  obtain ⟨s₁, hs₁, hR⟩ := hall k hk
  simpa [ofOps, hs₁] using hR

end Simulation

/-! ### Projections -/

section Projection

variable {τ β : Type*} {exec' : τ → β → Option τ} {t₀ : τ} (f : α → Option β) (v : σ → τ)

/-- How many of the calls before a point are seen in a projection. -/
def seen (k : ℕ) : ℕ := ((e.ops.take k).filterMap f).length

variable {f} in
theorem seen_succ {k : ℕ} {o : α} (ho : e.ops[k]? = some o) :
    e.seen f (k + 1) = e.seen f k + (f o).isSome.toNat := by
  rw [seen, seen, List.take_add_one, ho, List.filterMap_append, List.length_append]
  cases h : f o <;> simp [h]

theorem seen_mono {j k : ℕ} (h : j ≤ k) : e.seen f j ≤ e.seen f k :=
  ((List.take_sublist_take_left h).filterMap f).length_le

theorem seen_length : e.seen f e.ops.length = (e.ops.filterMap f).length := by
  rw [seen, List.take_length]

/-- A call of the projection is seen at some point. -/
theorem exists_of_getElem?_filterMap {j : ℕ} {o' : β} (h : (e.ops.filterMap f)[j]? = some o') :
    ∃ k o, e.ops[k]? = some o ∧ f o = some o' ∧ e.seen f k = j := by
  unfold seen
  generalize e.ops = ops at h
  induction ops generalizing j with
  | nil => simp at h
  | cons a ops ih =>
    cases ha : f a with
    | none =>
      rw [List.filterMap_cons_none ha] at h
      obtain ⟨k, o, ho, hf, hj⟩ := ih h
      exact ⟨k + 1, o, ho, hf, by simp [ha, hj]⟩
    | some b =>
      rw [List.filterMap_cons_some ha] at h
      cases j with
      | zero => exact ⟨0, a, rfl, ha.trans h, rfl⟩
      | succ j =>
        obtain ⟨k, o, ho, hf, hj⟩ := ih h
        exact ⟨k + 1, o, ho, hf, by simp [ha, hj]⟩

variable {f v}

/-- Every call of an execution is one of another system for the view of the states, or does not
change the view. -/
structure Projects (exec' : τ → β → Option τ) (f : α → Option β) (v : σ → τ) : Prop where
  exec_of_some {k : ℕ} {o : α} {o' : β} (ho : e.ops[k]? = some o) (h : f o = some o') :
    exec' (v (e.state k)) o' = some (v (e.state (k + 1)))
  view_of_none {k : ℕ} {o : α} (ho : e.ops[k]? = some o) (h : f o = none) :
    v (e.state (k + 1)) = v (e.state k)

variable {e}

theorem Projects.execAll_filterMap (hp : e.Projects exec' f v) {k : ℕ} (hk : k ≤ e.ops.length) :
    execAll exec' (v s₀) ((e.ops.take k).filterMap f) = some (v (e.state k)) := by
  induction k with
  | zero => rw [e.state_zero]; rfl
  | succ k ih =>
    have ho := List.getElem?_eq_getElem hk
    have hih := ih (Nat.le_of_succ_le hk)
    rw [List.take_add_one, ho, List.filterMap_append, execAll_append, hih, Option.bind_some]
    cases hf : f e.ops[k] with
    | none => simp [hf, execAll, hp.view_of_none ho hf]
    | some o' => simp [hf, execAll, hp.exec_of_some ho hf]

/-- The calls of an execution that are seen. -/
def project (hp : e.Projects exec' f v) (h₀ : v s₀ = t₀) : Execution exec' t₀ :=
  ofOps (e.ops.filterMap f) (by
    have h := hp.execAll_filterMap (Nat.le_refl _)
    rw [List.take_length, h₀] at h
    rw [h]
    rfl)

theorem project_state (hp : e.Projects exec' f v) (h₀ : v s₀ = t₀) {k : ℕ}
    (hk : k ≤ e.ops.length) : (project hp h₀).state (e.seen f k) = v (e.state k) := by
  have htake : (e.ops.filterMap f).take (e.seen f k) = (e.ops.take k).filterMap f := by
    conv_lhs => rw [← List.take_append_drop k e.ops, List.filterMap_append]
    exact List.take_left
  simp only [project, ofOps, htake, ← h₀, hp.execAll_filterMap hk, Option.getD_some]

end Projection

end Execution

end WebTSan
