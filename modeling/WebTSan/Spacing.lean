import Mathlib.Data.List.Range
import Mathlib.Data.List.Nodup
import Mathlib.Tactic.Common

/-!
# Evenly spaced points

The points `a`, `a + d`, `a + 2 d`, … of a range of numbers. Two neighbouring points leave `d - 1`
numbers between them, and the last one leaves the rest of the range.

## Main definitions

* `WebTSan.spacedPoints`, `WebTSan.IsGap`.

## Main results

* `WebTSan.IsGap.length_le`: a gap lies between two neighbouring points or behind the last one.
* `WebTSan.forall_isGap_lt_iff`: the gaps are short exactly if the one behind the last point is.
-/

namespace WebTSan

/-- The points `a`, `a + d`, …, of which there are `n`. -/
def spacedPoints (a d n : ℕ) : List ℕ := (List.range n).map fun i ↦ a + i * d

/-- None of the `len` numbers from `lo` on is a point. -/
def IsGap (a d n lo len : ℕ) : Prop := ∀ b, lo ≤ b → b < lo + len → b ∉ spacedPoints a d n

variable {a d n m lo len b : ℕ}

theorem mem_spacedPoints : b ∈ spacedPoints a d n ↔ ∃ i < n, a + i * d = b := by
  simp [spacedPoints]

theorem length_spacedPoints : (spacedPoints a d n).length = n := by simp [spacedPoints]

theorem nodup_spacedPoints (hd : 0 < d) : (spacedPoints a d n).Nodup := by
  refine List.Nodup.map (fun i j hij ↦ ?_) List.nodup_range
  exact Nat.eq_of_mul_eq_mul_right hd (Nat.add_left_cancel hij)

/-- The point at or behind a number. -/
theorem exists_point (hd : 0 < d) (hlo : a ≤ lo) (h : lo ≤ a + (n - 1) * d) (hn : 0 < n) :
    ∃ b ∈ spacedPoints a d n, lo ≤ b ∧ b < lo + d := by
  -- the index of the point is the quotient, rounded up
  have hceil : lo - a ≤ (lo - a + d - 1) / d * d := by
    have hlt := Nat.lt_div_mul_add (a := lo - a + d - 1) hd
    omega
  have hfloor : (lo - a + d - 1) / d * d ≤ lo - a + d - 1 := Nat.div_mul_le_self _ _
  have hindex : (lo - a + d - 1) / d < n := by
    rw [Nat.div_lt_iff_lt_mul hd]
    obtain ⟨n, rfl⟩ := Nat.exists_eq_add_one.mpr hn
    rw [Nat.add_sub_cancel] at h
    rw [Nat.succ_mul]
    omega
  exact ⟨_, mem_spacedPoints.mpr ⟨_, hindex, rfl⟩, by omega, by omega⟩

/-- A gap in a range that starts with the first point lies between two neighbouring points, or
behind the last one. -/
theorem IsGap.length_le (h : IsGap a d n lo len) (hn : 0 < n) (hd : 0 < d) (hlo : a ≤ lo)
    (hend : lo + len ≤ a + m) : len ≤ d - 1 ∨ len ≤ m - 1 - (n - 1) * d := by
  rcases Nat.lt_or_ge (a + (n - 1) * d) lo with hlt | hge
  · right
    omega
  · left
    obtain ⟨b, hb, hlob, hbd⟩ := exists_point hd hlo hge hn
    have hout : ¬b < lo + len := fun hlt ↦ h b hlob hlt hb
    omega

/-- There is no point behind the last one. -/
theorem isGap_tail (len : ℕ) : IsGap a d n (a + (n - 1) * d + 1) len := by
  intro b hb _ hmem
  obtain ⟨i, hi, rfl⟩ := mem_spacedPoints.mp hmem
  have hle : i * d ≤ (n - 1) * d := Nat.mul_le_mul_right d (by omega)
  omega

/-- If neighbouring points are close, then all gaps of a range are shorter than `k` exactly if the
one behind the last point is. -/
theorem forall_isGap_lt_iff {k : ℕ} (hn : 0 < n) (hd : 0 < d) (hdk : d ≤ k)
    (hm : (n - 1) * d < m) :
    (∀ lo len, a ≤ lo → lo + len ≤ a + m → IsGap a d n lo len → len < k) ↔
      m - 1 - (n - 1) * d < k := by
  constructor
  · intro h
    exact h _ _ (by omega) (by omega) (isGap_tail _)
  · intro h lo len hlo hend hgap
    rcases hgap.length_le hn hd hlo hend with hle | hle <;> omega

end WebTSan
