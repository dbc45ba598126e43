import BoomEd.Mat22
import Mathlib.Algebra.Order.Field.Basic
import Mathlib.Analysis.Real.Sqrt
import Mathlib.Tactic.Linarith
/-!
# Lengths (`vec2::len`, `distance`, `normalised`)

| here | there |
| --- | --- |
| `Root`               | `static_cast<scalar_result>(std::sqrt(…))` (vec2.h:129), per result type |
| `Vec2.len`           | vec2.h:126-130 |
| `Vec2.distance`      | vec2.h:160-164 |
| `Vec2.normalised`    | vec2.h:132-136, real types only |
| `realLen` …          | the same at a real type, where they cannot fail |

At a real type `std::sqrt` enters through its laws (`ExactSqrt`). There `distance` is a metric
(`distance_metric`) and `normalised` the direction of a vector (`normalised_direction`).
-/

namespace BoomEd

open Cxx

universe u

/-- The root of a squared length, cast back to its type. -/
class Root (R : Type u) where
  sqrtCast : R → Option R

/-- An ordered field with square roots. -/
class ExactSqrt (K : Type u) [Field K] [LinearOrder K] where
  sqrt : K → K
  sqrt_nonneg : ∀ x, 0 ≤ sqrt x
  mul_self_sqrt : ∀ x, 0 ≤ x → sqrt x * sqrt x = x

noncomputable instance : ExactSqrt ℝ where
  sqrt := Real.sqrt
  sqrt_nonneg := Real.sqrt_nonneg
  mul_self_sqrt _ := Real.mul_self_sqrt

instance {K : Type u} [Field K] [LinearOrder K] [ExactSqrt K] : Root K :=
  ⟨fun x => some (ExactSqrt.sqrt x)⟩

namespace Vec2

section Scalar
variable {T : Type u} [Scalar T] [Root (Scalar.Result T)]

/-- vec2.h:128. -/
def len (a : Vec2 T) : Option (Scalar.Result T) := do
  let l ← lensqr a
  Root.sqrtCast l

/-- vec2.h:162: as in `distancesqr` the difference is taken in `T`. -/
def distance (a b : Vec2 T) : Option (Scalar.Result T) := do
  let d ← sub b a
  len d

end Scalar

section Field
variable {K : Type u} [Field K] [LinearOrder K] [ExactSqrt K]

instance : Root (Scalar.Result K) := inferInstanceAs (Root K)

/-- vec2.h:134. -/
def normalised (a : Vec2 K) : Option (Vec2 K) := do
  let l ← len a
  sdiv a l

def realLen (a : Vec2 K) : K := (len a).get rfl
def realDistance (a b : Vec2 K) : K := (distance a b).get rfl
def realNormalised (a : Vec2 K) : Vec2 K := (normalised a).get rfl

theorem len_eq (a : Vec2 K) : len a = some (realLen a) := rfl
theorem normalised_eq (a : Vec2 K) : normalised a = some (realNormalised a) := rfl
theorem realDistance_eq (a b : Vec2 K) : realDistance a b = realLen (b - a) := rfl

theorem realNormalised_eq (a : Vec2 K) : realNormalised a = (realLen a)⁻¹ • a := by
  ext <;> exact div_eq_mul_inv _ _

end Field

/-! ## The length at a real type -/

section Products
variable {K : Type u} [Field K]

/-- The squares of the two products add up to the product of the squared lengths. -/
theorem realDot_sq_add_realCross_sq (a b : Vec2 K) :
    realDot a b ^ 2 + realCross a b ^ 2 = realDot a a * realDot b b := by
  simp only [realDot_eq, realCross_eq]
  ring

theorem realDot_add_self (a b : Vec2 K) :
    realDot (a + b) (a + b) = realDot a a + 2 * realDot a b + realDot b b := by
  simp only [realDot_eq, add_x, add_y]
  ring

theorem realDot_smul_self (s : K) (a : Vec2 K) : realDot (s • a) (s • a) = s * s * realDot a a := by
  simp only [realDot_eq, smul_x, smul_y]
  ring

variable [LinearOrder K] [IsStrictOrderedRing K]

theorem realDot_self_nonneg (a : Vec2 K) : 0 ≤ realDot a a :=
  add_nonneg (mul_self_nonneg a.x) (mul_self_nonneg a.y)

theorem realDot_self_eq_zero {a : Vec2 K} : realDot a a = 0 ↔ a = 0 := by
  rw [realDot_eq, add_eq_zero_iff_of_nonneg (mul_self_nonneg _) (mul_self_nonneg _),
    mul_self_eq_zero, mul_self_eq_zero, Vec2.ext_iff, zero_x, zero_y]

end Products

section Length
variable {K : Type u} [Field K] [LinearOrder K] [IsStrictOrderedRing K] [ExactSqrt K]

theorem realLen_mul_self (a : Vec2 K) : realLen a * realLen a = realDot a a :=
  ExactSqrt.mul_self_sqrt _ (realDot_self_nonneg a)

/-- The length is the non-negative root. -/
theorem realLen_eq_iff {a : Vec2 K} {r : K} : realLen a = r ↔ 0 ≤ r ∧ r * r = realDot a a := by
  constructor
  · rintro rfl
    exact ⟨ExactSqrt.sqrt_nonneg _, realLen_mul_self a⟩
  · rintro ⟨h0, h⟩
    exact (mul_self_inj (ExactSqrt.sqrt_nonneg _) h0).1 ((realLen_mul_self a).trans h.symm)

theorem realLen_nonneg (a : Vec2 K) : 0 ≤ realLen a := (realLen_eq_iff.1 rfl).1

theorem realLen_eq_zero {a : Vec2 K} : realLen a = 0 ↔ a = 0 := by
  rw [← realDot_self_eq_zero, ← realLen_mul_self, mul_self_eq_zero]

theorem realLen_pos {a : Vec2 K} : 0 < realLen a ↔ a ≠ 0 := by
  rw [(realLen_nonneg a).lt_iff_ne', Ne, realLen_eq_zero]

theorem realLen_smul (s : K) (a : Vec2 K) : realLen (s • a) = |s| * realLen a := by
  refine realLen_eq_iff.2 ⟨mul_nonneg (abs_nonneg s) (realLen_nonneg a), ?_⟩
  rw [mul_mul_mul_comm, abs_mul_abs_self, realLen_mul_self, realDot_smul_self]

theorem realLen_neg (a : Vec2 K) : realLen (-a) = realLen a := by
  rw [← neg_one_smul K a, realLen_smul, abs_neg, abs_one, one_mul]

/-- The dot product is at most the product of the lengths. -/
theorem abs_realDot_le (a b : Vec2 K) : |realDot a b| ≤ realLen a * realLen b := by
  apply abs_le_of_sq_le_sq _ (mul_nonneg (realLen_nonneg a) (realLen_nonneg b))
  rw [mul_pow, sq (realLen a), sq (realLen b), realLen_mul_self, realLen_mul_self,
    ← realDot_sq_add_realCross_sq]
  exact le_add_of_nonneg_right (sq_nonneg _)

theorem realLen_add_le (a b : Vec2 K) : realLen (a + b) ≤ realLen a + realLen b := by
  apply nonneg_le_nonneg_of_sq_le_sq (add_nonneg (realLen_nonneg a) (realLen_nonneg b))
  have hdot := (le_abs_self _).trans (abs_realDot_le a b)
  calc realLen (a + b) * realLen (a + b) = realDot a a + 2 * realDot a b + realDot b b := by
        rw [realLen_mul_self, realDot_add_self]
    _ ≤ realDot a a + 2 * (realLen a * realLen b) + realDot b b := by linarith
    _ = (realLen a + realLen b) * (realLen a + realLen b) := by
        rw [← realLen_mul_self a, ← realLen_mul_self b]
        ring

/-- **`distance` is a metric at a real type**, the one of the norm `len`: it vanishes just on equal
points, does not depend on the order of its arguments, obeys the triangle inequality, is not changed
by a translation and scales with its arguments. -/
theorem distance_metric (a b c : Vec2 K) (s : K) :
    (∃ d, distance a b = some d ∧ 0 ≤ d ∧ (d = 0 ↔ a = b) ∧ distance b a = some d ∧
      distance (a + c) (b + c) = some d ∧ distance (s • a) (s • b) = some (|s| * d)) ∧
    (∃ ab bc ac, distance a b = some ab ∧ distance b c = some bc ∧ distance a c = some ac ∧
      ac ≤ ab + bc) ∧
    (∃ l m p, len a = some l ∧ len b = some m ∧ dot a b = some p ∧ |p| ≤ l * m) := by
  refine ⟨⟨realDistance a b, rfl, realLen_nonneg _, ?_, ?_, ?_, ?_⟩,
    ⟨realDistance a b, realDistance b c, realDistance a c, rfl, rfl, rfl, ?_⟩,
    realLen a, realLen b, realDot a b, rfl, rfl, rfl, abs_realDot_le a b⟩
  · rw [realDistance_eq, realLen_eq_zero, sub_eq_zero, eq_comm]
  · show some (realLen (a - b)) = some (realLen (b - a))
    rw [← realLen_neg, neg_sub]
  · show some (realLen (b + c - (a + c))) = some (realLen (b - a))
    rw [add_sub_add_right_eq_sub]
  · show some (realLen (s • b - s • a)) = some (|s| * realLen (b - a))
    rw [← smul_sub, realLen_smul]
  · have h := realLen_add_le (b - a) (c - b)
    rwa [sub_add_sub_cancel'] at h

/-- In the plane over `ℝ`, shifted and doubled. -/
theorem distance_metric_shifted :
    let a : Vec2 ℝ := ⟨1, 1⟩
    let b : Vec2 ℝ := ⟨4, 5⟩
    ∃ d : ℝ, 0 ≤ d ∧ distance b a = some d ∧ distance (a + b) (b + b) = some d ∧
      distance ((2 : ℝ) • a) ((2 : ℝ) • b) = some (|2| * d) := by
  intro a b
  obtain ⟨⟨d, -, hd, -, hba, hshift, hscale⟩, -⟩ := distance_metric a b b (2 : ℝ)
  exact ⟨d, hd, hba, hshift, hscale⟩

/-! ## Directions -/

theorem realLen_realNormalised {a : Vec2 K} (h : a ≠ 0) : realLen (realNormalised a) = 1 := by
  have hpos := realLen_pos.2 h
  rw [realNormalised_eq, realLen_smul, abs_of_pos (inv_pos.2 hpos), inv_mul_cancel₀ hpos.ne']

/-- A unit vector is the direction of its positive multiples. -/
theorem realNormalised_smul {u : Vec2 K} {s : K} (hu : realLen u = 1) (hs : 0 < s) :
    realNormalised (s • u) = u := by
  rw [realNormalised_eq, realLen_smul, hu, mul_one, abs_of_pos hs, smul_smul, inv_mul_cancel₀ hs.ne',
    one_smul]

theorem smul_realNormalised {a : Vec2 K} (h : a ≠ 0) : realLen a • realNormalised a = a := by
  rw [realNormalised_eq, smul_smul, mul_inv_cancel₀ (realLen_pos.2 h).ne', one_smul]

/-- **`normalised` is the direction of a vector.** Of a non-zero vector it is the one unit vector the
vector is a positive multiple of. So it ignores positive factors, turns round under negative ones and
fixes its own results. -/
theorem normalised_direction (v : Vec2 K) (h : v ≠ 0) :
    (∀ u, normalised v = some u ↔ len u = some 1 ∧ ∃ s : K, 0 < s ∧ v = s • u) ∧
    (∀ s : K, 0 < s → normalised (s • v) = normalised v) ∧
    (∀ s : K, s < 0 → normalised (s • v) = (normalised v).bind neg) ∧
    (normalised v).bind normalised = normalised v := by
  have hunit := realLen_realNormalised h
  have hpos := realLen_pos.2 h
  have hv := smul_realNormalised h
  simp only [normalised_eq, len_eq, Option.bind_some, Option.some.injEq]
  refine ⟨fun u => ?_, fun s hs => ?_, fun s hs => ?_, ?_⟩
  · constructor
    · rintro rfl
      exact ⟨hunit, realLen v, hpos, hv.symm⟩
    · rintro ⟨hu, s, hs, rfl⟩
      exact realNormalised_smul hu hs
  · have e : s • v = (s * realLen v) • realNormalised v := by rw [mul_smul, hv]
    rw [e, realNormalised_smul hunit (mul_pos hs hpos)]
  · have e : s • v = (-s * realLen v) • -realNormalised v := by
      rw [smul_neg, mul_smul, hv, neg_smul, neg_neg]
    have hneg : realLen (-realNormalised v) = 1 := by rw [realLen_neg, hunit]
    rw [e, realNormalised_smul hneg (mul_pos (neg_pos.2 hs) hpos)]
    rfl
  · have e := realNormalised_smul hunit one_pos
    rwa [one_smul] at e

end Length

theorem normalised_direction_three_four :
    normalised (⟨3, 4⟩ : Vec2 ℝ) = some ⟨3 / 5, 4 / 5⟩ := by
  have hne : (⟨3, 4⟩ : Vec2 ℝ) ≠ 0 := fun e => by
    have := congrArg Vec2.x e
    norm_num at this
  refine ((normalised_direction _ hne).1 _).2 ⟨congrArg some (realLen_eq_iff.2 ?_), 5, by norm_num, ?_⟩
  · norm_num [realDot_eq]
  · ext <;> norm_num

end Vec2

end BoomEd
