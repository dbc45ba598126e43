import BoomEd.Vec2
import Mathlib.Algebra.Order.Ring.Abs
import Mathlib.Algebra.Order.Ring.Int
import Mathlib.Tactic.Linarith
import Mathlib.Tactic.Ring
/-!
# The scalar products of integer vectors (vec2.h:120-158)

`dot` and `cross` widen each coordinate to `std::int64_t` before they multiply, so up to 32 bits the
products are exact and only the last addition or subtraction can leave the range (`dot_eval`,
`cross_eval`). The addition does, at one pair of vectors (`dot_lensqr_exact_iff`). `distancesqr`
subtracts first, in `vec2<T>`: the difference of two coordinates can leave `T`, wraps for the types
narrower than `int` and is undefined from `int` on (`distancesqr_exact_iff`).
-/

namespace BoomEd.Vec2

open Cxx

variable {t : IntType}

/-! ## Products in `scalar_result` -/

/-- A coordinate of at most 32 bits is a value of `int`. -/
theorem val_inRange_int32 (ht : t.width ≤ 32) (v : SInt t) : IntType.int32.InRange v.val := by
  have hh : t.half ≤ IntType.int32.half := IntType.half_le_half ht
  have hv := v.inRange
  unfold IntType.InRange at *
  omega

/-- The product of two coordinates is at most `2^62`, and `2^31` short of that on the negative
side. -/
theorem mul_val_bounds (ht : t.width ≤ 32) (v w : SInt t) :
    -4611686016279904256 ≤ v.val * w.val ∧ v.val * w.val ≤ 4611686018427387904 := by
  have hv := val_inRange_int32 ht v
  have hw := val_inRange_int32 ht w
  have hlo := hv.neg_le_mul hw
  have hhi := hv.mul_le hw
  rw [IntType.half_int32] at hlo hhi
  omega

/-- Only the lowest values reach `2^62`. -/
theorem mul_val_eq_iff (ht : t.width ≤ 32) (v w : SInt t) :
    v.val * w.val = 4611686018427387904 ↔ v.val = -2147483648 ∧ w.val = -2147483648 := by
  have h := (val_inRange_int32 ht v).mul_eq_iff (val_inRange_int32 ht w)
  rwa [IntType.half_int32] at h

theorem mul_inRange (ht : t.width ≤ 32) (v w : SInt t) : IntType.int64.InRange (v.val * w.val) := by
  have h := mul_val_bounds ht v w
  unfold IntType.InRange
  rw [IntType.half_int64]
  omega

/-- `static_cast<scalar_result>(v) * static_cast<scalar_result>(w)` is exact. -/
theorem mul_toResult (ht : t.width ≤ 32) (v w : SInt t) :
    (Arith.mul (Scalar.toResult v) (Scalar.toResult w) : Option (SInt IntType.int64)) =
      some ⟨v.val * w.val, mul_inRange ht v w⟩ := by
  have h64 : t.width ≤ 64 := ht.trans (by decide)
  show SInt.ofExpr IntType.int64 _ = _
  rw [toResult_val h64, toResult_val h64]
  exact SInt.ofExpr_of_inRange (mul_inRange ht v w)

theorem dot_eval (ht : t.width ≤ 32) (a b : Vec2 (SInt t)) :
    dot a b = SInt.ofExpr IntType.int64 (a.x.val * b.x.val + a.y.val * b.y.val) := by
  have hx := mul_toResult ht a.x b.x
  have hy := mul_toResult ht a.y b.y
  unfold dot
  rw [hx, hy]
  rfl

theorem cross_eval (ht : t.width ≤ 32) (a b : Vec2 (SInt t)) :
    cross a b = SInt.ofExpr IntType.int64 (a.x.val * b.y.val - a.y.val * b.x.val) := by
  have hx := mul_toResult ht a.x b.y
  have hy := mul_toResult ht a.y b.x
  unfold cross
  rw [hx, hy]
  rfl

/-! ## Dot product and squared length -/

/-- `dot` evaluates without overflow to the exact dot product. -/
def DotExact (a b : Vec2 (SInt t)) : Prop :=
  ∃ r : SInt IntType.int64, dot a b = some r ∧ r.val = a.x.val * b.x.val + a.y.val * b.y.val

/-- `lensqr` evaluates without overflow to the exact squared length, which is zero for the zero
vector only. -/
def LensqrExact (a : Vec2 (SInt t)) : Prop :=
  ∃ r : SInt IntType.int64, lensqr a = some r ∧ r.val = a.x.val ^ 2 + a.y.val ^ 2 ∧
    0 ≤ r.val ∧ (r.val = 0 ↔ a = Vec2.zero)

/-- Both coordinates are `-2^31`, which only a 32-bit type has. -/
def AtCorner (a : Vec2 (SInt t)) : Prop := a.x.val = -2147483648 ∧ a.y.val = -2147483648

instance (a : Vec2 (SInt t)) : Decidable (AtCorner a) := by unfold AtCorner; infer_instance

theorem eq_zero_iff {a : Vec2 (SInt t)} : a = Vec2.zero ↔ a.x.val = 0 ∧ a.y.val = 0 := by
  have h0 : t.InRange 0 := by
    have := t.half_ge
    unfold IntType.InRange
    omega
  have e : (Arith.lit 0 : SInt t) = ⟨0, h0⟩ := SInt.wrap_of_inRange h0
  rw [zero, e, Vec2.ext_iff, SInt.ext_iff, SInt.ext_iff]

/-- The two products add up to `2^63` at one pair of vectors, and to a value of `scalar_result`
everywhere else. -/
theorem dot_inRange_iff (ht : t.width ≤ 32) (a b : Vec2 (SInt t)) :
    IntType.int64.InRange (a.x.val * b.x.val + a.y.val * b.y.val) ↔
      ¬ (AtCorner a ∧ AtCorner b) := by
  have hx := mul_val_bounds ht a.x b.x
  have hy := mul_val_bounds ht a.y b.y
  have ex := mul_val_eq_iff ht a.x b.x
  have ey := mul_val_eq_iff ht a.y b.y
  unfold IntType.InRange AtCorner
  rw [IntType.half_int64]
  generalize a.x.val * b.x.val = X at *
  generalize a.y.val * b.y.val = Y at *
  omega

theorem dot_exact (ht : t.width ≤ 32) {a b : Vec2 (SInt t)}
    (h : IntType.int64.InRange (a.x.val * b.x.val + a.y.val * b.y.val)) :
    dot a b = some ⟨_, h⟩ := (dot_eval ht a b).trans (SInt.ofExpr_of_inRange h)

theorem dotExact_iff (ht : t.width ≤ 32) {a b : Vec2 (SInt t)} :
    DotExact a b ↔ ¬ (AtCorner a ∧ AtCorner b) := by
  rw [← dot_inRange_iff ht]
  constructor
  · rintro ⟨r, -, e⟩
    exact e ▸ r.inRange
  · intro h
    exact ⟨⟨_, h⟩, dot_exact ht h, rfl⟩

theorem lensqrExact_iff (ht : t.width ≤ 32) {a : Vec2 (SInt t)} :
    LensqrExact a ↔ ¬ AtCorner a := by
  have hdot : DotExact a a ↔ ¬ AtCorner a := by rw [dotExact_iff ht, and_self]
  rw [← hdot]
  constructor
  · rintro ⟨r, hr, e, -⟩
    exact ⟨r, hr, by rw [e]; ring⟩
  · rintro ⟨r, hr, e⟩
    have e2 : r.val = a.x.val ^ 2 + a.y.val ^ 2 := by rw [e]; ring
    have hx := sq_nonneg a.x.val
    have hy := sq_nonneg a.y.val
    refine ⟨r, hr, e2, by omega, ?_⟩
    rw [eq_zero_iff, e2, ← pow_eq_zero_iff (n := 2) (a := a.x.val) (by decide),
      ← pow_eq_zero_iff (n := 2) (a := a.y.val) (by decide)]
    omega

/-- **When dot product and squared length are exact.** Up to 32 bits `dot` evaluates without overflow
to the exact value save at one pair of vectors, both at the lowest corner; `lensqr` fails at that
corner alone. -/
theorem dot_lensqr_exact_iff (ht : t.width ≤ 32) :
    (∀ a b : Vec2 (SInt t), DotExact a b ↔ ¬ (AtCorner a ∧ AtCorner b)) ∧
    (∀ a : Vec2 (SInt t), LensqrExact a ↔ ¬ AtCorner a) :=
  ⟨fun _ _ => dotExact_iff ht, fun _ => lensqrExact_iff ht⟩

theorem dot_lensqr_exact_iff_lowest :
    let a : Vec2 (SInt IntType.int32) := ⟨Arith.lit (-2147483648), Arith.lit (-2147483648)⟩
    let b : Vec2 (SInt IntType.int32) := ⟨Arith.lit (-2147483648), Arith.lit (-2147483647)⟩
    DotExact a b ∧ LensqrExact b := by
  intro a b
  obtain ⟨hdot, hlen⟩ := dot_lensqr_exact_iff (t := IntType.int32) (by decide)
  exact ⟨(hdot a b).2 (by decide), (hlen b).2 (by decide)⟩

/-- `int32`: at the lowest corner the sum of the two squares is `2^63`, one more than the largest
`std::int64_t`. -/
theorem dot_overflows :
    let a : Vec2 (SInt IntType.int32) := ⟨Arith.lit (-2147483648), Arith.lit (-2147483648)⟩
    a.x.val * a.x.val + a.y.val * a.y.val = 9223372036854775808 ∧ dot a a = none ∧
      lensqr a = none := by
  decide

/-! ## Squared distance -/

/-- The squared distance of the two points as integers. -/
def exactDistancesqr (a b : Vec2 (SInt t)) : Int :=
  (b.x.val - a.x.val) ^ 2 + (b.y.val - a.y.val) ^ 2

/-- Both coordinate differences are values of `T`. -/
def DifferenceFits (a b : Vec2 (SInt t)) : Prop :=
  t.InRange (b.x.val - a.x.val) ∧ t.InRange (b.y.val - a.y.val)

/-- The difference `b - a` is defined and neither component wrapped. -/
def DifferenceExact (a b : Vec2 (SInt t)) : Prop :=
  ∃ d, sub b a = some d ∧ d.x.val = b.x.val - a.x.val ∧ d.y.val = b.y.val - a.y.val

/-- `distancesqr` returns the exact squared distance. -/
def DistancesqrExact (a b : Vec2 (SInt t)) : Prop :=
  ∃ r : SInt IntType.int64, distancesqr a b = some r ∧ r.val = exactDistancesqr a b

theorem differenceExact_iff {a b : Vec2 (SInt t)} : DifferenceExact a b ↔ DifferenceFits a b := by
  constructor
  · rintro ⟨d, -, hx, hy⟩
    exact ⟨hx ▸ d.x.inRange, hy ▸ d.y.inRange⟩
  · rintro ⟨hx, hy⟩
    have ex : Arith.sub b.x a.x = some ⟨_, hx⟩ := SInt.ofExpr_of_inRange hx
    have ey : Arith.sub b.y a.y = some ⟨_, hy⟩ := SInt.ofExpr_of_inRange hy
    exact ⟨⟨⟨_, hx⟩, ⟨_, hy⟩⟩, by simp [sub, ex, ey], rfl, rfl⟩

/-- The squared length of the difference, where its sum of squares fits the result type. -/
theorem distancesqr_of_sub (ht : t.width ≤ 32) {a b d : Vec2 (SInt t)} (hd : sub b a = some d)
    {n : Int} (e : d.x.val * d.x.val + d.y.val * d.y.val = n) (hn : IntType.int64.InRange n) :
    distancesqr a b = some ⟨n, hn⟩ := by
  subst e
  unfold distancesqr
  rw [hd]
  exact dot_exact ht hn

/-- An exact difference makes an exact squared distance, where that fits the result type. -/
theorem distancesqrExact_of_fits (ht : t.width ≤ 32) {a b : Vec2 (SInt t)}
    (hfit : IntType.int64.InRange (exactDistancesqr a b)) (h : DifferenceFits a b) :
    DistancesqrExact a b := by
  obtain ⟨d, hd, hx, hy⟩ := differenceExact_iff.2 h
  have e : d.x.val * d.x.val + d.y.val * d.y.val = exactDistancesqr a b := by
    rw [hx, hy, exactDistancesqr]
    ring
  exact ⟨⟨_, hfit⟩, distancesqr_of_sub ht hd e hfit, rfl⟩

/-! ### What wrapping does to the value -/

theorem sub_abs_lt (v w : SInt t) : -(2 * t.half) < v.val - w.val ∧ v.val - w.val < 2 * t.half := by
  have hv := v.inRange
  have hw := w.inRange
  unfold IntType.InRange at hv hw
  omega

/-- A wrapped difference is closer to zero than the true one, save at `half`, which wraps to
`-half`. -/
theorem sq_wrap {d : Int} (hd : -(2 * t.half) < d ∧ d < 2 * t.half) :
    (SInt.wrap t d).val ^ 2 ≤ d ^ 2 ∧ ((SInt.wrap t d).val ^ 2 = d ^ 2 ↔ |d| ≤ t.half) := by
  have hh := t.half_ge
  rw [abs_le]
  by_cases hlo : d < -t.half
  · -- below the range: one period up
    have hr : t.InRange (d + 2 * t.half) := by unfold IntType.InRange; omega
    have e : (SInt.wrap t d).val = d + 2 * t.half := by
      have := SInt.wrap_add_mul hr (-1)
      rwa [show d + 2 * t.half + -1 * (2 * t.half) = d by ring] at this
    have hlt : (d + 2 * t.half) ^ 2 < d ^ 2 := by nlinarith
    rw [e]
    exact ⟨hlt.le, iff_of_false hlt.ne (by omega)⟩
  by_cases hhi : d < t.half
  · have hr : t.InRange d := ⟨by omega, hhi⟩
    rw [SInt.wrap_of_inRange hr]
    exact ⟨le_rfl, iff_of_true rfl (by omega)⟩
  · -- above the range: one period down
    have hr : t.InRange (d - 2 * t.half) := by unfold IntType.InRange; omega
    have e : (SInt.wrap t d).val = d - 2 * t.half := by
      have := SInt.wrap_add_mul hr 1
      rwa [show d - 2 * t.half + 1 * (2 * t.half) = d by ring] at this
    rw [e]
    rcases eq_or_ne d t.half with rfl | hne
    · have hsq : (t.half - 2 * t.half) ^ 2 = t.half ^ 2 := by ring
      exact ⟨hsq.le, iff_of_true hsq (by omega)⟩
    · have hgt : t.half < d := by omega
      have hlt : (d - 2 * t.half) ^ 2 < d ^ 2 := by nlinarith
      exact ⟨hlt.le, iff_of_false hlt.ne (by omega)⟩

/-- Below `int` the difference is always defined: each component wraps. -/
theorem sub_narrow (ht : t.width < 32) (a b : Vec2 (SInt t)) :
    sub b a = some ⟨SInt.wrap t (b.x.val - a.x.val), SInt.wrap t (b.y.val - a.y.val)⟩ := by
  have ex : Arith.sub b.x a.x = some (SInt.wrap t (b.x.val - a.x.val)) :=
    if_pos (IntType.promote_inRange_sub ht b.x.inRange a.x.inRange)
  have ey : Arith.sub b.y a.y = some (SInt.wrap t (b.y.val - a.y.val)) :=
    if_pos (IntType.promote_inRange_sub ht b.y.inRange a.y.inRange)
  simp [sub, ex, ey]

/-- From `int` on a difference that does not fit is undefined, and so is the squared distance. -/
theorem distancesqr_undefined (ht : 32 ≤ t.width) {a b : Vec2 (SInt t)} (h : ¬ DifferenceFits a b) :
    distancesqr a b = none := by
  have hsub : sub b a = none := sub_undefined ht h
  simp [distancesqr, hsub]

/-- Below `int` the wrapped components are squared: the value survives when neither square changed. -/
theorem distancesqrExact_iff_narrow (ht : t.width < 32) {a b : Vec2 (SInt t)}
    (hfit : IntType.int64.InRange (exactDistancesqr a b)) :
    DistancesqrExact a b ↔ |b.x.val - a.x.val| ≤ t.half ∧ |b.y.val - a.y.val| ≤ t.half := by
  obtain ⟨lex, eqx⟩ := sq_wrap (sub_abs_lt b.x a.x)
  obtain ⟨ley, eqy⟩ := sq_wrap (sub_abs_lt b.y a.y)
  have hsub := sub_narrow ht a b
  generalize SInt.wrap t (b.x.val - a.x.val) = X at lex eqx hsub
  generalize SInt.wrap t (b.y.val - a.y.val) = Y at ley eqy hsub
  have hr : IntType.int64.InRange (X.val ^ 2 + Y.val ^ 2) := by
    have hx0 := sq_nonneg X.val
    have hy0 := sq_nonneg Y.val
    have hh := IntType.int64.half_ge
    unfold IntType.InRange exactDistancesqr at *
    omega
  have hval : distancesqr a b = some ⟨_, hr⟩ := distancesqr_of_sub ht.le hsub (by ring) hr
  rw [← eqx, ← eqy]
  constructor
  · rintro ⟨r, hr', e⟩
    rw [hval] at hr'
    cases hr'
    unfold exactDistancesqr at e
    simp only at e
    constructor <;> omega
  · rintro ⟨ex, ey⟩
    exact ⟨_, hval, by simp only [exactDistancesqr, ex, ey]⟩

theorem distancesqrExact_iff_wide (hw : 32 ≤ t.width) (ht : t.width ≤ 32) {a b : Vec2 (SInt t)}
    (hfit : IntType.int64.InRange (exactDistancesqr a b)) :
    DistancesqrExact a b ↔ DifferenceFits a b := by
  constructor
  · rintro ⟨r, hr, -⟩
    by_contra h
    rw [distancesqr_undefined hw h] at hr
    cases hr
  · exact distancesqrExact_of_fits ht hfit

/-- The value alone survives one more case: below `int`, a difference of exactly `half` in either
direction. -/
theorem distancesqrExact_iff (ht : t.width ≤ 32) {a b : Vec2 (SInt t)}
    (hfit : IntType.int64.InRange (exactDistancesqr a b)) :
    DistancesqrExact a b ↔ if t.width < 32
      then |b.x.val - a.x.val| ≤ t.half ∧ |b.y.val - a.y.val| ≤ t.half
      else DifferenceFits a b := by
  by_cases hlt : t.width < 32
  · rw [if_pos hlt]
    exact distancesqrExact_iff_narrow hlt hfit
  · rw [if_neg hlt]
    exact distancesqrExact_iff_wide (not_lt.1 hlt) ht hfit

/-- **When squared distance is exact.** Up to 32 bits and with a squared distance that fits the result
type, `distancesqr` evaluates without overflow or wrapping to the exact value just when both
coordinate differences are values of `T`; the value alone is also right for narrow types when a
difference is `half`. Where the differences fit, comparing results compares distances. -/
theorem distancesqr_exact_iff (ht : t.width ≤ 32) :
    (∀ a b : Vec2 (SInt t), IntType.int64.InRange (exactDistancesqr a b) →
      (DifferenceExact a b ∧ DistancesqrExact a b ↔ DifferenceFits a b)) ∧
    (∀ a b : Vec2 (SInt t), IntType.int64.InRange (exactDistancesqr a b) →
      (DistancesqrExact a b ↔ if t.width < 32
        then |b.x.val - a.x.val| ≤ t.half ∧ |b.y.val - a.y.val| ≤ t.half
        else DifferenceFits a b)) ∧
    (∀ a b c : Vec2 (SInt t), IntType.int64.InRange (exactDistancesqr a b) →
      IntType.int64.InRange (exactDistancesqr a c) → DifferenceFits a b → DifferenceFits a c →
      ∃ r s : SInt IntType.int64, distancesqr a b = some r ∧ distancesqr a c = some s ∧
        (r < s ↔ exactDistancesqr a b < exactDistancesqr a c)) := by
  refine ⟨fun a b hfit => ?_, fun a b hfit => distancesqrExact_iff ht hfit,
    fun a b c hb hc fb fc => ?_⟩
  · rw [differenceExact_iff]
    exact and_iff_left_of_imp (distancesqrExact_of_fits ht hfit)
  · obtain ⟨r, hr, er⟩ := distancesqrExact_of_fits ht hb fb
    obtain ⟨s, hs, es⟩ := distancesqrExact_of_fits ht hc fc
    exact ⟨r, s, hr, hs, by rw [SInt.lt_iff, er, es]⟩

theorem distancesqr_exact_iff_near :
    let a : Vec2 (SInt IntType.int32) := ⟨Arith.lit 1, Arith.lit 2⟩
    let b : Vec2 (SInt IntType.int32) := ⟨Arith.lit (-2), Arith.lit 6⟩
    DifferenceExact a b ∧ DistancesqrExact a b := by
  intro a b
  obtain ⟨h, -⟩ := distancesqr_exact_iff (t := IntType.int32) (by decide)
  exact (h a b (by decide)).2 ⟨by decide, by decide⟩

/-- `int8`: the 255 between -128 and 127 wraps to -1, so that point comes out nearer than one two
units away. `int32`: the difference of -1 and 2147483647 overflows. -/
theorem distancesqr_wraps :
    let a : Vec2 (SInt IntType.int8) := ⟨Arith.lit (-128), Arith.lit 0⟩
    let b : Vec2 (SInt IntType.int8) := ⟨Arith.lit 127, Arith.lit 0⟩
    let c : Vec2 (SInt IntType.int8) := ⟨Arith.lit (-126), Arith.lit 0⟩
    let d : Vec2 (SInt IntType.int32) := ⟨Arith.lit (-1), Arith.lit 0⟩
    let e : Vec2 (SInt IntType.int32) := ⟨Arith.lit 2147483647, Arith.lit 0⟩
    (exactDistancesqr a b = 65025 ∧ (distancesqr a b).map SInt.val = some 1) ∧
    (exactDistancesqr a c = 4 ∧ (distancesqr a c).map SInt.val = some 4) ∧
    IntType.int64.InRange (exactDistancesqr d e) ∧ distancesqr d e = none := by
  decide

end BoomEd.Vec2
