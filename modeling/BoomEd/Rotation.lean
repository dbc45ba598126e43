import BoomEd.Mat22
import BoomEd.Lib.Bracketing
import Mathlib.Analysis.SpecialFunctions.Trigonometric.Basic
/-!
# Rotations (`mat22::make_rot`, mat22.h:42-51)

`std::sin` and `std::cos` enter through their laws alone (`Trig`). The rotation by `t` has the columns
`{cos t, sin t}` and `{-sin t, cos t}`: it takes the x axis towards the y axis. Angles add under the
product (`makeRot_mul`), so the rotations are a group and every finite product is one rotation; a
matrix of determinant 1 whose transpose is its inverse preserves `dot`, `cross` and `distancesqr`
(`rigid_of_transpose`).

`make_rot` is declared without `static` (mat22.h:20) but reads no member: the matrix it is called on
does not enter.
-/

namespace BoomEd

universe u

variable {K : Type u} [Field K]

/-- Sine and cosine, with what is used of them. -/
structure Trig (K : Type u) [Field K] where
  sin : K → K
  cos : K → K
  sin_sq_add_cos_sq : ∀ t, sin t ^ 2 + cos t ^ 2 = 1
  sin_add : ∀ s t, sin (s + t) = sin s * cos t + cos s * sin t
  cos_add : ∀ s t, cos (s + t) = cos s * cos t - sin s * sin t
  sin_neg : ∀ t, sin (-t) = -sin t
  cos_neg : ∀ t, cos (-t) = cos t

namespace Trig

noncomputable def real : Trig ℝ where
  sin := Real.sin
  cos := Real.cos
  sin_sq_add_cos_sq := Real.sin_sq_add_cos_sq
  sin_add := Real.sin_add
  cos_add := Real.cos_add
  sin_neg := Real.sin_neg
  cos_neg := Real.cos_neg

variable (T : Trig K)

theorem sin_zero : T.sin 0 = 0 := by
  have h := T.sin_add 0 (-0)
  rw [T.sin_neg, T.cos_neg, neg_zero, add_zero] at h
  rw [h]
  ring

theorem cos_zero : T.cos 0 = 1 := by
  have h := T.cos_add 0 (-0)
  rw [T.sin_neg, T.cos_neg, neg_zero, add_zero] at h
  rw [h, ← T.sin_sq_add_cos_sq 0]
  ring

end Trig

namespace Mat22

/-- mat22.h:44. -/
def makeRot (T : Trig K) (angle : K) : Mat22 K :=
  let s := T.sin angle
  let c := T.cos angle
  ⟨⟨c, s⟩, ⟨-s, c⟩⟩

/-! ## Matrices that preserve the products -/

/-- What a rotation does not change; `inverse` is the transpose. -/
structure Rigid (m : Mat22 K) : Prop where
  determinant : m.determinant = 1
  inverse : m.inverse = m.transpose
  dot : ∀ u v : Vec2 K, Vec2.dot (m * u) (m * v) = Vec2.dot u v
  cross : ∀ u v : Vec2 K, Vec2.cross (m * u) (m * v) = Vec2.cross u v
  distancesqr : ∀ u v : Vec2 K, Vec2.distancesqr (m * u) (m * v) = Vec2.distancesqr u v

theorem realDot_of_transpose {m : Mat22 K} (h : m.transpose * m = 1) (u v : Vec2 K) :
    Vec2.realDot (m * u) (m * v) = Vec2.realDot u v := by
  rw [realDot_mulVec, ← mul_mulVec, h, one_mulVec]

theorem rigid_of_transpose {m : Mat22 K} (hdet : m.determinant = 1) (h : m * m.transpose = 1) :
    Rigid m := by
  have hinv : m.inverse = m.transpose := inverse_eq_of_mul h
  have hleft : m.transpose * m = 1 := hinv ▸ inverse_mul_self (determinant_ne_zero_of_mul h)
  refine ⟨hdet, hinv, fun u v => ?_, fun u v => ?_, fun u v => ?_⟩
  · exact congrArg some (realDot_of_transpose hleft u v)
  · show some (Vec2.realCross (m * u) (m * v)) = some (Vec2.realCross u v)
    rw [realCross_mulVec, hdet, one_mul]
  · show some (Vec2.realDot (m * v - m * u) (m * v - m * u)) = some (Vec2.realDot (v - u) (v - u))
    have hsub : m * v - m * u = m * (v - u) := (m.toLin.map_sub v u).symm
    rw [hsub, realDot_of_transpose hleft]

/-! ## The rotations -/

section Rot
variable (T : Trig K)

theorem makeRot_mul (s t : K) : makeRot T s * makeRot T t = makeRot T (s + t) := by
  ext
  · simp [makeRot, T.cos_add]; ring
  · simp [makeRot, T.sin_add]
  · simp [makeRot, T.sin_add]
  · simp [makeRot, T.cos_add]; ring

theorem makeRot_zero : makeRot T 0 = 1 := by
  ext <;> simp [makeRot, T.sin_zero, T.cos_zero]

theorem transpose_makeRot (t : K) : (makeRot T t).transpose = makeRot T (-t) := by
  ext <;> simp [makeRot, T.sin_neg, T.cos_neg]

theorem determinant_makeRot (t : K) : (makeRot T t).determinant = 1 := by
  rw [determinant_eq, ← T.sin_sq_add_cos_sq t]
  simp only [makeRot]
  ring

theorem makeRot_mul_transpose (t : K) : makeRot T t * (makeRot T t).transpose = 1 := by
  rw [transpose_makeRot, makeRot_mul, add_neg_cancel, makeRot_zero]

theorem makeRot_rigid (t : K) : Rigid (makeRot T t) :=
  rigid_of_transpose (determinant_makeRot T t) (makeRot_mul_transpose T t)

theorem inverse_makeRot (t : K) : (makeRot T t).inverse = makeRot T (-t) :=
  (makeRot_rigid T t).inverse.trans (transpose_makeRot T t)

/-- A product of rotations is the rotation by the sum of the angles. -/
theorem prod_makeRot (l : List K) : (l.map (makeRot T)).prod = makeRot T l.sum := by
  induction l with
  | nil => exact (makeRot_zero T).symm
  | cons t l ih => rw [List.map_cons, List.prod_cons, ih, makeRot_mul, List.sum_cons]

/-- The same however the product is bracketed. -/
theorem eval_makeRot (b : Bracketing K) :
    Bracketing.eval (· * ·) (FreeMagma.map (makeRot T) b) = makeRot T (Bracketing.leaves b).sum := by
  rw [Bracketing.eval_eq_prod, Bracketing.leaves_map, prod_makeRot]

/-- **The rotations are a group of isometries.** Angles add under the product; a rotation has
determinant 1 and preserves `dot`, `cross` and `distancesqr`; its inverse is its transpose and the
rotation by the opposite angle. Every product of rotations, in every bracketing, is the rotation by
the sum of the angles and has the same properties. -/
theorem rotations_form_group :
    (∀ s t : K, makeRot T s * makeRot T t = makeRot T (s + t)) ∧
    (∀ t : K, Rigid (makeRot T t) ∧ (makeRot T t).inverse = makeRot T (-t)) ∧
    (∀ l : List K, (l.map (makeRot T)).prod = makeRot T l.sum ∧
      Rigid (l.map (makeRot T)).prod ∧
      (l.map (makeRot T)).prod.inverse = makeRot T (-l.sum)) ∧
    (∀ b : Bracketing K,
      let m := Bracketing.eval (· * ·) (FreeMagma.map (makeRot T) b)
      m = makeRot T (Bracketing.leaves b).sum ∧ Rigid m ∧
        m.inverse = makeRot T (-(Bracketing.leaves b).sum)) := by
  refine ⟨makeRot_mul T, fun t => ⟨makeRot_rigid T t, inverse_makeRot T t⟩, fun l => ?_, fun b => ?_⟩
  · rw [prod_makeRot]
    exact ⟨rfl, makeRot_rigid T _, inverse_makeRot T _⟩
  · intro m
    have e : m = makeRot T (Bracketing.leaves b).sum := eval_makeRot T b
    rw [e]
    exact ⟨rfl, makeRot_rigid T _, inverse_makeRot T _⟩

end Rot

/-- Two quarter turns make a half turn; a quarter turn takes the x axis to the y axis. -/
theorem rotations_form_group_quarter :
    makeRot Trig.real (Real.pi / 2) * makeRot Trig.real (Real.pi / 2) = makeRot Trig.real Real.pi ∧
      makeRot Trig.real (Real.pi / 2) * (Vec2.axisx : Vec2 ℝ) = Vec2.axisy := by
  obtain ⟨hmul, -⟩ := rotations_form_group Trig.real
  refine ⟨?_, ?_⟩
  · rw [hmul, add_halves]
  · ext <;> simp [makeRot, Trig.real]

end Mat22

end BoomEd
