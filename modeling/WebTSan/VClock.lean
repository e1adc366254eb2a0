import Mathlib

/-!
# Vector clocks of logical threads

The detector identifies a logical thread by its slot, a number below `kMaxThreads`. A slot is a
`Tid`, so that an index outside of the clock arrays cannot be written down. Which of the entry
points that receive a `uint32_t` check it against the bound is the subject of `WebTSan.RawTid`. A
clock has one 64-bit counter per slot. The counters are natural numbers, and the wrap-around of
`clk_[tid]++` is written out.

## Main definitions

* `WebTSan.Tid`, `WebTSan.VClock`.
* `WebTSan.VClock.increment`, `WebTSan.VClock.happensBefore`, `WebTSan.VClock.join`.

## Main results

* `WebTSan.VClock.join_eq_sup`: joining clocks is the pointwise supremum.
* `WebTSan.VClock.happensBefore_iff`: the comparison loop decides the pointwise order.
-/

namespace WebTSan

/-- Maximum number of concurrent logical threads (workers and main thread). -/
def kMaxThreads : ℕ := 64

/-- Number of shadow cells per byte of a shared buffer. -/
def kShadowCellsPerByte : ℕ := 2

instance : NeZero kMaxThreads := ⟨by decide⟩

/-- `UINT32_MAX`, which stands for "no thread". -/
def uint32Max : ℕ := 4294967295

/-- The slot of a logical thread. -/
abbrev Tid := Fin kMaxThreads

/-- A vector clock: one counter for every slot. -/
abbrev VClock := Tid → ℕ

/-- `v++` on a `uint64_t`. -/
def bump (v : ℕ) : ℕ := (v + 1) % 2 ^ 64

theorem bump_of_lt {v : ℕ} (h : v + 1 < 2 ^ 64) : bump v = v + 1 := Nat.mod_eq_of_lt h

theorem bump_le (v : ℕ) : bump v ≤ v + 1 := Nat.mod_le _ _

namespace VClock

/-- The clock of the constructor, with every counter zero. -/
def empty : VClock := fun _ ↦ 0

/-- `clk_[tid]++`. -/
def increment (clk : VClock) (tid : Tid) : VClock := Function.update clk tid (bump (clk tid))

/-- Every counter of `clk` is at most the one of `other`. -/
def happensBefore (clk other : VClock) : Bool :=
  (List.finRange kMaxThreads).all fun i ↦ !decide (clk i > other i)

/-- Take over every counter of `other` that is ahead. -/
def join (clk other : VClock) : VClock := fun i ↦ if other i > clk i then other i else clk i

theorem empty_eq_bot : empty = ⊥ := rfl

@[simp] theorem empty_apply (t : Tid) : empty t = 0 := rfl

@[simp] theorem increment_self (clk : VClock) (t : Tid) : clk.increment t t = bump (clk t) :=
  Function.update_self ..

theorem increment_of_ne (clk : VClock) {t u : Tid} (h : u ≠ t) : clk.increment t u = clk u :=
  Function.update_of_ne h ..

/-- Joining clocks is the supremum of the pointwise order. -/
theorem join_eq_sup (clk other : VClock) : clk.join other = clk ⊔ other := by
  funext i
  simp only [join, Pi.sup_apply]
  split_ifs with h
  · exact (sup_eq_right.mpr h.le).symm
  · exact (sup_eq_left.mpr (not_lt.mp h)).symm

@[simp] theorem join_apply (clk other : VClock) (i : Tid) : clk.join other i = clk i ⊔ other i := by
  rw [join_eq_sup, Pi.sup_apply]

/-- The comparison loop of the source decides the pointwise order. -/
theorem happensBefore_iff (clk other : VClock) : clk.happensBefore other = true ↔ clk ≤ other := by
  simp [happensBefore, Pi.le_def]

end VClock

end WebTSan
