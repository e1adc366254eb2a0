import Mathlib.Tactic.Common

/-!
# Machines with outputs

A machine reads a list of inputs. For every input it gives an output and moves to a new state, or it
fails. Two machines give the same outputs if their states are related, and the relation is kept by
every pair of steps on the same input.

## Main definitions

* `WebTSan.runAll`: the outputs for a list of inputs, and the state after it.

## Main results

* `WebTSan.exists_runAll_of_simulation`: related machines give the same outputs.
* `WebTSan.exists_runAll_of_invariant`: a machine with an invariant does not fail.
-/

namespace WebTSan

variable {σ τ α β : Type*}

/-- The outputs of a machine for a list of inputs, and the state after it. -/
def runAll (step : σ → α → Option (β × σ)) (s : σ) : List α → Option (List β × σ)
  | [] => some ([], s)
  | a :: as => (step s a).bind fun r ↦ (runAll step r.2 as).map fun r' ↦ (r.1 :: r'.1, r'.2)

theorem runAll_cons {step : σ → α → Option (β × σ)} {s s' s'' : σ} {a : α} {as : List α} {b : β}
    {bs : List β} (h : step s a = some (b, s')) (hs : runAll step s' as = some (bs, s'')) :
    runAll step s (a :: as) = some (b :: bs, s'') := by
  rw [runAll, h, Option.bind_some, hs, Option.map_some]

/-- If related states step to related states, with the same output and without failing, then the
machines give the same outputs. -/
theorem exists_runAll_of_simulation {step : σ → α → Option (β × σ)} {step' : τ → α → Option (β × τ)}
    {R : σ → τ → Prop} (hstep : ∀ {s t} (a), R s t →
      ∃ b s' t', step s a = some (b, s') ∧ step' t a = some (b, t') ∧ R s' t')
    {s : σ} {t : τ} (h : R s t) (as : List α) :
    ∃ bs s' t', runAll step s as = some (bs, s') ∧ runAll step' t as = some (bs, t') ∧ R s' t' := by
  induction as generalizing s t with
  | nil => exact ⟨[], s, t, rfl, rfl, h⟩
  | cons a as ih =>
    obtain ⟨b, s₁, t₁, hs, ht, h₁⟩ := hstep a h
    obtain ⟨bs, s', t', hs', ht', h'⟩ := ih h₁
    exact ⟨b :: bs, s', t', runAll_cons hs hs', runAll_cons ht ht', h'⟩

/-- A machine that does not fail in states with an invariant never fails. -/
theorem exists_runAll_of_invariant {step : σ → α → Option (β × σ)} {P : σ → Prop}
    (hstep : ∀ {s} (a), P s → ∃ b s', step s a = some (b, s') ∧ P s') {s : σ} (h : P s)
    (as : List α) : ∃ bs s', runAll step s as = some (bs, s') ∧ P s' := by
  have hsim {s t : σ} (a : α) (hst : s = t ∧ P s) :
      ∃ b s' t', step s a = some (b, s') ∧ step t a = some (b, t') ∧ s' = t' ∧ P s' := by
    obtain ⟨rfl, hs⟩ := hst
    obtain ⟨b, s', hb, hs'⟩ := hstep a hs
    exact ⟨b, s', s', hb, hb, rfl, hs'⟩
  obtain ⟨bs, s', _, hrun, -, -, hs'⟩ :=
    exists_runAll_of_simulation (R := fun s t ↦ s = t ∧ P s) hsim ⟨rfl, h⟩ as
  exact ⟨bs, s', hrun, hs'⟩

end WebTSan
