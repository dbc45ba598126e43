import BoomEd.Products
import BoomEd.Lib.Turn
/-!
# The orientation test (`vec2::cross`, vec2.h:146-152)

The extreme positive and the extreme negative product cannot meet: up to 32 bits the difference of two
products stays `2^31` inside the range of `std::int64_t`, on both sides. So `cross` is exact on every
input, changes sign when its arguments are swapped, and its sign is the side of the turn from the
first vector to the second (`cross_orients`).
-/

namespace BoomEd.Vec2

open Cxx Turn

variable {t : IntType}

/-- The vector as a point of the plane. -/
def toComplex (a : Vec2 (SInt t)) : ℂ := ⟨a.x.val, a.y.val⟩

/-- The cross product of the two vectors as integers. -/
def exactCross (a b : Vec2 (SInt t)) : Int := a.x.val * b.y.val - a.y.val * b.x.val

theorem exactCross_swap (a b : Vec2 (SInt t)) : exactCross b a = -exactCross a b := by
  unfold exactCross
  ring

theorem wedge_toComplex (a b : Vec2 (SInt t)) :
    wedge (toComplex a) (toComplex b) = (exactCross a b : ℤ) := by
  simp [wedge, toComplex, exactCross]

/-- The difference of the two products keeps `2^31` clear of the ends of the range. -/
theorem exactCross_bounds (ht : t.width ≤ 32) (a b : Vec2 (SInt t)) :
    -9223372034707292160 ≤ exactCross a b ∧ exactCross a b ≤ 9223372034707292160 := by
  have h := mul_val_bounds ht a.x b.y
  have h' := mul_val_bounds ht a.y b.x
  unfold exactCross
  omega

theorem exactCross_inRange (ht : t.width ≤ 32) (a b : Vec2 (SInt t)) :
    IntType.int64.InRange (exactCross a b) := by
  have h := exactCross_bounds ht a b
  unfold IntType.InRange
  rw [IntType.half_int64]
  omega

theorem cross_exact (ht : t.width ≤ 32) (a b : Vec2 (SInt t)) :
    cross a b = some ⟨exactCross a b, exactCross_inRange ht a b⟩ :=
  (cross_eval ht a b).trans (SInt.ofExpr_of_inRange (exactCross_inRange ht a b))

/-- Swapping the arguments negates the result, and the negation does not overflow. -/
theorem cross_swap (ht : t.width ≤ 32) (a b : Vec2 (SInt t)) :
    SInt.neg ⟨exactCross a b, exactCross_inRange ht a b⟩ = cross b a := by
  have hr : IntType.int64.InRange (-exactCross a b) :=
    exactCross_swap a b ▸ exactCross_inRange ht b a
  rw [cross_exact ht, SInt.neg, SInt.ofExpr_of_inRange hr]
  exact congrArg some (SInt.ext (exactCross_swap a b).symm)

/-- **The orientation test is exact.** For all vectors of at most 32-bit coordinates both products are
exact in the result type and so is their difference; its negation is representable and is the result
with the arguments swapped; the result is positive for a left turn from `a` to `b`, negative for a
right turn, and zero just when the two vectors are linearly dependent. -/
theorem cross_orients (ht : t.width ≤ 32) (a b : Vec2 (SInt t)) :
    (∃ p q : SInt IntType.int64,
      Arith.mul (Scalar.toResult a.x) (Scalar.toResult b.y) = some p ∧
      Arith.mul (Scalar.toResult a.y) (Scalar.toResult b.x) = some q ∧
      p.val = a.x.val * b.y.val ∧ q.val = a.y.val * b.x.val) ∧
    ∃ r s : SInt IntType.int64,
      cross a b = some r ∧ r.val = a.x.val * b.y.val - a.y.val * b.x.val ∧
      SInt.neg r = some s ∧ s.val = -r.val ∧ cross b a = some s ∧
      (0 < r.val ↔ 0 < turn (toComplex a) (toComplex b) ∧ turn (toComplex a) (toComplex b) < Real.pi) ∧
      (r.val < 0 ↔ turn (toComplex a) (toComplex b) < 0) ∧
      (r.val = 0 ↔ ¬ LinearIndependent ℝ ![toComplex a, toComplex b]) := by
  refine ⟨⟨_, _, mul_toResult ht a.x b.y, mul_toResult ht a.y b.x, rfl, rfl⟩,
    _, _, cross_exact ht a b, rfl, (cross_swap ht a b).trans (cross_exact ht b a),
    exactCross_swap a b, cross_exact ht b a, ?_, ?_, ?_⟩
  · rw [turn_pos_iff, wedge_toComplex, Int.cast_pos]
  · rw [turn_neg_iff, wedge_toComplex, Int.cast_lt_zero]
  · rw [linearIndependent_iff, wedge_toComplex, not_not, Int.cast_eq_zero]

/-- The lowest corner against its neighbour, where the two products are farthest apart. -/
theorem cross_orients_lowest :
    let a : Vec2 (SInt IntType.int32) := ⟨Arith.lit (-2147483648), Arith.lit 2147483647⟩
    let b : Vec2 (SInt IntType.int32) := ⟨Arith.lit (-2147483648), Arith.lit (-2147483648)⟩
    ∃ r : SInt IntType.int64, cross a b = some r ∧ 0 < r.val ∧
      0 < turn (toComplex a) (toComplex b) := by
  intro a b
  obtain ⟨-, r, s, hr, e, -, -, -, hpos, -, -⟩ :=
    cross_orients (t := IntType.int32) (by decide) a b
  have h0 : 0 < r.val := e ▸ (by decide : 0 < a.x.val * b.y.val - a.y.val * b.x.val)
  exact ⟨r, hr, h0, (hpos.1 h0).1⟩

end BoomEd.Vec2
