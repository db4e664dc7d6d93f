import Mathlib.Analysis.SpecialFunctions.Pow.Real

/-! # Exponential decay above a floor

A value loses half of itself in every half-life and is raised to a floor each time it is read.  A
sequence of readings then leaves what a single reading at its end would have left.
-/
namespace FragmentMemory.ExponentialDecay

variable {halfLife a b c floor value factor : ℝ}

/-- What is left at `b` of one unit at `a`. -/
noncomputable def remaining (halfLife a b : ℝ) : ℝ := 2 ^ (-(b - a) / halfLife)

theorem remaining_pos : 0 < remaining halfLife a b := Real.rpow_pos_of_pos two_pos _

@[simp] theorem remaining_self : remaining halfLife a a = 1 := by simp [remaining]

theorem remaining_mul_remaining : remaining halfLife a b * remaining halfLife b c = remaining halfLife a c := by
  have hexponent : -(b - a) / halfLife + -(c - b) / halfLife = -(c - a) / halfLife := by ring
  rw [remaining, remaining, ← Real.rpow_add two_pos, hexponent, remaining]

theorem remaining_le_one (hhalfLife : 0 < halfLife) (hle : a ≤ b) : remaining halfLife a b ≤ 1 := by
  apply Real.rpow_le_one_of_one_le_of_nonpos one_le_two
  apply div_nonpos_of_nonpos_of_nonneg
  · linarith
  · exact hhalfLife.le

/-- A value after a factor, raised to the floor. -/
noncomputable def floored (floor value factor : ℝ) : ℝ := max floor (value * factor)

theorem floored_le (hle : floor ≤ value) (hvalue : 0 ≤ value) (hfactor : factor ≤ 1) :
    floored floor value factor ≤ value :=
  max_le hle (mul_le_of_le_one_right hvalue hfactor)

/-- Raising to the floor in between is not seen after a further loss. -/
theorem floored_floored (hfloor : 0 ≤ floor) {later : ℝ} (hlater : 0 ≤ later) (hle : later ≤ 1) :
    floored floor (floored floor value factor) later = floored floor value (factor * later) := by
  have hraised : floor * later ≤ floor := mul_le_of_le_one_right hfloor hle
  calc max floor (max floor (value * factor) * later)
      = max floor (max (floor * later) (value * factor * later)) := by rw [max_mul_of_nonneg _ _ hlater]
    _ = max floor (value * factor * later) := by rw [← max_assoc, max_eq_left hraised]
    _ = max floor (value * (factor * later)) := by rw [mul_assoc]

/-- Two readings leave what the second alone would have left. -/
theorem floored_remaining (hfloor : 0 ≤ floor) (hhalfLife : 0 < halfLife) (hle : b ≤ c) :
    floored floor (floored floor value (remaining halfLife a b)) (remaining halfLife b c) =
      floored floor value (remaining halfLife a c) := by
  rw [floored_floored hfloor remaining_pos.le (remaining_le_one hhalfLife hle), remaining_mul_remaining]

end FragmentMemory.ExponentialDecay
