import Mathlib.Analysis.CStarAlgebra.Classes
import Mathlib.Analysis.InnerProductSpace.Basic
import Mathlib.Analysis.SpecialFunctions.Complex.Arg
import Mathlib.LinearAlgebra.LinearIndependent.Lemmas
/-!
# Turning in the plane

Vectors of the plane are complex numbers. The turn from `z` to `w` is the angle of `w / z`, in
`(-π, π]` and counterclockwise when positive. Its side is the sign of `wedge z w`, the signed area of
the parallelogram, which vanishes for linearly dependent vectors only.
-/

namespace Turn

open Real

/-- The signed area of the parallelogram on `z` and `w`. -/
def wedge (z w : ℂ) : ℝ := z.re * w.im - z.im * w.re

/-- The angle from `z` to `w`; zero when one of them is. -/
noncomputable def turn (z w : ℂ) : ℝ := Complex.arg (w / z)

theorem wedge_zero_left (w : ℂ) : wedge 0 w = 0 := by
  simp [wedge]

theorem im_div (z w : ℂ) : (w / z).im = wedge z w / Complex.normSq z := by
  rw [Complex.div_im, wedge]
  ring

theorem im_div_pos_iff {z w : ℂ} : 0 < (w / z).im ↔ 0 < wedge z w := by
  by_cases hz : z = 0
  · simp [hz, wedge_zero_left]
  · rw [im_div, div_pos_iff_of_pos_right (Complex.normSq_pos.2 hz)]

theorem im_div_neg_iff {z w : ℂ} : (w / z).im < 0 ↔ wedge z w < 0 := by
  by_cases hz : z = 0
  · simp [hz, wedge_zero_left]
  · rw [im_div, div_lt_iff₀ (Complex.normSq_pos.2 hz), zero_mul]

/-- A left turn. -/
theorem turn_pos_iff {z w : ℂ} : 0 < turn z w ∧ turn z w < π ↔ 0 < wedge z w := by
  rw [← im_div_pos_iff, turn]
  constructor
  · rintro ⟨h0, hπ⟩
    have hne : (w / z).im ≠ 0 := by
      intro e
      rcases le_or_gt 0 (w / z).re with hre | hre
      · exact h0.ne' (Complex.arg_eq_zero_iff.2 ⟨hre, e⟩)
      · exact hπ.ne (Complex.arg_eq_pi_iff.2 ⟨hre, e⟩)
    exact lt_of_le_of_ne (Complex.arg_nonneg_iff.1 h0.le) hne.symm
  · intro h
    have hle := Complex.arg_nonneg_iff.2 h.le
    refine ⟨lt_of_le_of_ne hle fun e => ?_, Complex.arg_lt_pi_iff.2 (Or.inr h.ne')⟩
    exact h.ne' (Complex.arg_eq_zero_iff.1 e.symm).2

/-- A right turn. -/
theorem turn_neg_iff {z w : ℂ} : turn z w < 0 ↔ wedge z w < 0 := by
  rw [← im_div_neg_iff, turn, Complex.arg_neg_iff]

theorem linearIndependent_iff {z w : ℂ} : LinearIndependent ℝ ![z, w] ↔ wedge z w ≠ 0 := by
  rw [LinearIndependent.pair_iff]
  constructor
  · intro h e
    have e' : z.re * w.im = z.im * w.re := sub_eq_zero.1 e
    -- the two combinations that cancel a coordinate cancel the other one too
    have cre : w.re • z + -z.re • w = 0 := by
      apply Complex.ext
      · simp; ring
      · simp; linarith
    have cim : w.im • z + -z.im • w = 0 := by
      apply Complex.ext
      · simp; linarith
      · simp; ring
    have hz : z = 0 := by
      apply Complex.ext
      · simpa using (h _ _ cre).2
      · simpa using (h _ _ cim).2
    exact one_ne_zero (h 1 0 (by simp [hz])).1
  · intro h s t e
    have ere : s * z.re + t * w.re = 0 := by simpa using congrArg Complex.re e
    have eim : s * z.im + t * w.im = 0 := by simpa using congrArg Complex.im e
    have hs : s * wedge z w = 0 := by
      rw [wedge]
      linear_combination w.im * ere - w.re * eim
    have ht : t * wedge z w = 0 := by
      rw [wedge]
      linear_combination z.re * eim - z.im * ere
    exact ⟨(mul_eq_zero.1 hs).resolve_right h, (mul_eq_zero.1 ht).resolve_right h⟩

end Turn
