/-
A mean that is kept as an integer and updated with every new value: `(avg * n + d) / (n + 1)`, with
the division of Go, which truncates.

Every update loses less than one unit of `n + 1` in the sum, so after `n` values that are not
negative the mean is below the exact one by at most `(n - 1) / 2` (`IsMean.step`), and it stays
between the bounds of the values.
-/
import Mathlib

set_option autoImplicit false

namespace RunningMean

/-- What an updated mean of `n` values is: not above the exact one, and by how much below. -/
structure IsMean (n sum avg : ℤ) : Prop where
  le : avg * n ≤ sum
  loss : 2 * (sum - avg * n) ≤ n * (n - 1)

variable {n sum avg d lo hi : ℤ} (hn : 0 ≤ n)
include hn

/-- The division of one step loses at most `n`. -/
theorem tdiv_spec (havg : 0 ≤ avg) (hd : 0 ≤ d) :
    (avg * n + d).tdiv (n + 1) * (n + 1) ≤ avg * n + d ∧
      avg * n + d ≤ (avg * n + d).tdiv (n + 1) * (n + 1) + n := by
  have hnum : 0 ≤ avg * n + d := Int.add_nonneg (Int.mul_nonneg havg hn) hd
  rw [Int.tdiv_eq_ediv_of_nonneg hnum]
  have hdiv := Int.mul_ediv_add_emod (avg * n + d) (n + 1)
  have hmod := Int.emod_nonneg (avg * n + d) (show n + 1 ≠ 0 by omega)
  have hlt := Int.emod_lt_of_pos (avg * n + d) (show 0 < n + 1 by omega)
  constructor
  · linarith
  · linarith

/-- One more value moves the mean by what it adds, up to rounding. -/
theorem IsMean.step (h : IsMean n sum avg) (havg : 0 ≤ avg) (hd : 0 ≤ d) :
    IsMean (n + 1) (sum + d) ((avg * n + d).tdiv (n + 1)) := by
  obtain ⟨hle, hlt⟩ := tdiv_spec hn havg hd
  have hsum := h.le
  have hloss := h.loss
  constructor
  · linarith
  · linarith

theorem le_tdiv (havg : lo ≤ avg) (hd : lo ≤ d) (havg₀ : 0 ≤ avg) (hd₀ : 0 ≤ d) :
    lo ≤ (avg * n + d).tdiv (n + 1) := by
  rw [Int.tdiv_eq_ediv_of_nonneg (Int.add_nonneg (Int.mul_nonneg havg₀ hn) hd₀),
    Int.le_ediv_iff_mul_le (by omega)]
  nlinarith

theorem tdiv_le (havg : avg ≤ hi) (hd : d ≤ hi) (havg₀ : 0 ≤ avg) (hd₀ : 0 ≤ d) :
    (avg * n + d).tdiv (n + 1) ≤ hi := by
  rw [Int.tdiv_eq_ediv_of_nonneg (Int.add_nonneg (Int.mul_nonneg havg₀ hn) hd₀)]
  refine Int.lt_add_one_iff.mp (Int.ediv_lt_of_lt_mul (by omega) ?_)
  nlinarith

omit hn in
theorem IsMean.rat (h : IsMean n sum avg) (hpos : 0 < n) :
    (avg : ℚ) ≤ sum / n ∧ (sum : ℚ) / n - avg ≤ (n - 1) / 2 := by
  have hn : (0 : ℚ) < n := by exact_mod_cast hpos
  have hle : (avg * n : ℚ) ≤ sum := by exact_mod_cast h.le
  have hloss : (2 * (sum - avg * n) : ℚ) ≤ n * (n - 1) := by exact_mod_cast h.loss
  refine ⟨(le_div_iff₀ hn).mpr hle, ?_⟩
  rw [sub_le_iff_le_add, div_le_iff₀ hn]
  linarith

end RunningMean
