import Mathlib.Logic.Function.Basic
import Mathlib.Order.BooleanAlgebra.Set
import Mathlib.Tactic.Common

/-!
# Owners of resources

A `Holding` says which resource each owner holds, and which resources are in use. Its moves are
the ones of a resource manager: a resource is granted to an owner, an owner hands its resource on
or gives it up, and a resource is freed without a look at its owner.

## Main definitions

* `WebTSan.Holding`, with `grant`, `transfer`, `release` and `free`.
* `WebTSan.Holding.Exclusive`: held resources are in use, and by one owner each.
* `WebTSan.Holding.Covered`: resources in use are held.

## Main results

* `WebTSan.Holding.Exclusive.grant`, `transfer`, `release`, `free_iff`: what keeps exclusiveness.
* `WebTSan.Holding.Covered.grant`, `release`: what keeps coverage.
* `WebTSan.Holding.Exclusive.own_transfer_ne`: taking over a second resource leaks the first.
-/

namespace WebTSan

/-- The resources that owners hold and the resources in use. -/
@[ext] structure Holding (ι ρ : Type*) where
  own : ι → Option ρ
  live : Set ρ

namespace Holding

variable {ι ρ : Type*} [DecidableEq ι] (h : Holding ι ρ)

/-- Put `r` into use and give it to `o`. -/
def grant (o : ι) (r : ρ) : Holding ι ρ where
  own := Function.update h.own o (some r)
  live := insert r h.live

/-- The owner `o` hands its resource on to `o'`. -/
def transfer (o o' : ι) : Holding ι ρ where
  own := Function.update (Function.update h.own o none) o' (h.own o)
  live := h.live

/-- The owner `o` gives up its resource. -/
def release (o : ι) : Holding ι ρ where
  own := Function.update h.own o none
  live := h.live \ {r | h.own o = some r}

/-- Free the resource `r`. -/
def free (r : ρ) : Holding ι ρ where
  own := h.own
  live := h.live \ {r}

/-- Held resources are in use, and no two owners hold the same resource. -/
structure Exclusive (h : Holding ι ρ) : Prop where
  live_of_own {o : ι} {r : ρ} : h.own o = some r → r ∈ h.live
  eq_of_own {o o' : ι} {r : ρ} : h.own o = some r → h.own o' = some r → o = o'

/-- Every resource in use is held. -/
def Covered (h : Holding ι ρ) : Prop := ∀ r ∈ h.live, ∃ o, h.own o = some r

variable {h} {o o' o₁ : ι} {r r' : ρ}

theorem own_grant_iff :
    (h.grant o r).own o₁ = some r' ↔ o₁ = o ∧ r' = r ∨ o₁ ≠ o ∧ h.own o₁ = some r' := by
  by_cases he : o₁ = o
  · simp [grant, he, eq_comm]
  · simp [grant, he]

/-- What is held after a transfer was held before, by the receiver's source or by the same owner. -/
theorem own_transfer_iff :
    (h.transfer o o').own o₁ = some r ↔
      o₁ = o' ∧ h.own o = some r ∨ o₁ ≠ o' ∧ o₁ ≠ o ∧ h.own o₁ = some r := by
  by_cases he' : o₁ = o'
  · simp [transfer, he']
  · by_cases he : o₁ = o
    · simp [transfer, he, he ▸ he']
    · simp [transfer, he, he']

theorem own_release_iff : (h.release o).own o₁ = some r ↔ o₁ ≠ o ∧ h.own o₁ = some r := by
  by_cases he : o₁ = o
  · simp [release, he]
  · simp [release, he]

namespace Exclusive

/-- Granting keeps exclusiveness if the resource was not in use. -/
theorem grant (hh : h.Exclusive) (hr : r ∉ h.live) (o : ι) : (h.grant o r).Exclusive where
  live_of_own h₁ := by
    rcases own_grant_iff.mp h₁ with ⟨-, rfl⟩ | ⟨-, h₁⟩
    · exact Set.mem_insert ..
    · exact Set.mem_insert_of_mem _ (hh.live_of_own h₁)
  eq_of_own h₁ h₂ := by
    rcases own_grant_iff.mp h₁ with ⟨he₁, hr₁⟩ | ⟨-, g₁⟩ <;>
      rcases own_grant_iff.mp h₂ with ⟨he₂, hr₂⟩ | ⟨-, g₂⟩
    · exact he₁.trans he₂.symm
    · exact absurd (hr₁ ▸ hh.live_of_own g₂) hr
    · exact absurd (hr₂ ▸ hh.live_of_own g₁) hr
    · exact hh.eq_of_own g₁ g₂

theorem transfer (hh : h.Exclusive) (o o' : ι) : (h.transfer o o').Exclusive where
  live_of_own h₁ := by
    rcases own_transfer_iff.mp h₁ with ⟨-, h₁⟩ | ⟨-, -, h₁⟩ <;> exact hh.live_of_own h₁
  eq_of_own h₁ h₂ := by
    rcases own_transfer_iff.mp h₁ with ⟨he₁, g₁⟩ | ⟨-, ho₁, g₁⟩ <;>
      rcases own_transfer_iff.mp h₂ with ⟨he₂, g₂⟩ | ⟨-, ho₂, g₂⟩
    · exact he₁.trans he₂.symm
    · exact absurd (hh.eq_of_own g₂ g₁) ho₂
    · exact absurd (hh.eq_of_own g₁ g₂) ho₁
    · exact hh.eq_of_own g₁ g₂

/-- Giving up a resource keeps exclusiveness, since nobody else holds it. -/
theorem release (hh : h.Exclusive) (o : ι) : (h.release o).Exclusive where
  live_of_own h₁ := by
    obtain ⟨hne, h₁⟩ := own_release_iff.mp h₁
    exact ⟨hh.live_of_own h₁, fun h₂ ↦ hne (hh.eq_of_own h₁ h₂)⟩
  eq_of_own h₁ h₂ := hh.eq_of_own (own_release_iff.mp h₁).2 (own_release_iff.mp h₂).2

omit [DecidableEq ι] in
/-- Freeing a resource keeps exclusiveness exactly if nobody holds it. -/
theorem free_iff (hh : h.Exclusive) : (h.free r).Exclusive ↔ ∀ o, h.own o ≠ some r := by
  constructor
  · intro hf o ho
    exact (hf.live_of_own ho).2 rfl
  · intro hr
    exact ⟨fun {o r'} ho ↦ ⟨hh.live_of_own ho, fun he ↦ hr o (he ▸ ho)⟩, hh.eq_of_own⟩

/-- An owner that takes over a second resource leaves its first one to nobody. -/
theorem own_transfer_ne (hh : h.Exclusive) (hr : h.own o' = some r) (hne : o ≠ o') :
    ∀ o₁, (h.transfer o o').own o₁ ≠ some r := by
  intro o₁ h₁
  rcases own_transfer_iff.mp h₁ with ⟨-, h₁⟩ | ⟨ho₁, -, h₁⟩
  · exact hne (hh.eq_of_own h₁ hr)
  · exact ho₁ (hh.eq_of_own h₁ hr)

end Exclusive

namespace Covered

/-- Granting keeps coverage if the owner had nothing before. -/
theorem grant (hc : h.Covered) (ho : h.own o = none) (r : ρ) : (h.grant o r).Covered := by
  rintro r' (rfl | hr')
  · exact ⟨o, own_grant_iff.mpr (.inl ⟨rfl, rfl⟩)⟩
  · obtain ⟨o', ho'⟩ := hc r' hr'
    refine ⟨o', own_grant_iff.mpr (.inr ⟨?_, ho'⟩)⟩
    rintro rfl
    rw [ho] at ho'
    cases ho'

theorem release (hc : h.Covered) (o : ι) : (h.release o).Covered := by
  rintro r ⟨hr, hne⟩
  obtain ⟨o', ho'⟩ := hc r hr
  refine ⟨o', own_release_iff.mpr ⟨?_, ho'⟩⟩
  rintro rfl
  exact hne ho'

end Covered

end Holding

end WebTSan
