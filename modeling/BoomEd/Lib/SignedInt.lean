import Mathlib.Algebra.Order.Ring.Int
import Mathlib.Data.Int.Order.Basic
import Mathlib.Order.Lattice
import Mathlib.Tactic.Common
import Mathlib.Tactic.Linarith
import Mathlib.Tactic.Ring
/-!
# C++ signed integer types

A signed integer type is its width; a value is a mathematical `Int` in the two's-complement range.
An arithmetic expression on operands of type `T` is evaluated after the integer promotions: in
`int` (32 bits) when `T` is narrower, else in `T` itself. Leaving the range of that type is
undefined behaviour, modelled as `none`; a conversion back to `T` wraps modulo `2^width`.
-/

namespace Cxx

/-- A signed integer type: at least a byte wide. -/
structure IntType where
  width : Nat
  byte : 8 ≤ width
deriving DecidableEq

namespace IntType

def int8 : IntType := ⟨8, by decide⟩
def int16 : IntType := ⟨16, by decide⟩
def int32 : IntType := ⟨32, by decide⟩
def int64 : IntType := ⟨64, by decide⟩

/-- `2^(width - 1)`: the values are `-half, …, half - 1`. -/
def half (t : IntType) : Int := 2 ^ (t.width - 1)

def InRange (t : IntType) (v : Int) : Prop := -t.half ≤ v ∧ v < t.half

instance (t : IntType) : DecidablePred t.InRange := fun v => by unfold InRange; infer_instance

/-- The type `T` operands have after the integer promotions (`int` is 32 bits). -/
def promote (t : IntType) : IntType := if t.width < 32 then int32 else t

@[simp] theorem half_int32 : int32.half = 2147483648 := by decide
@[simp] theorem half_int64 : int64.half = 9223372036854775808 := by decide

theorem half_le_half {s t : IntType} (h : s.width ≤ t.width) : s.half ≤ t.half := by
  unfold half
  exact_mod_cast Nat.pow_le_pow_right (by decide : 0 < 2) (Nat.sub_le_sub_right h 1)

theorem half_ge (t : IntType) : 128 ≤ t.half := by
  have h : int8.half ≤ t.half := half_le_half t.byte
  have h8 : int8.half = 128 := by decide
  omega

/-- One more bit doubles the range. -/
theorem two_mul_half_le {s t : IntType} (h : s.width < t.width) : 2 * s.half ≤ t.half := by
  have hb := s.byte
  have e : (2 : Int) * 2 ^ (s.width - 1) = 2 ^ s.width := by
    rw [← Int.pow_succ', Nat.sub_add_cancel (by omega)]
  unfold half
  rw [e]
  exact_mod_cast Nat.pow_le_pow_right (by decide : 0 < 2) (by omega : s.width ≤ t.width - 1)

theorem promote_of_lt {t : IntType} (h : t.width < 32) : t.promote = int32 := if_pos h

theorem promote_of_le {t : IntType} (h : 32 ≤ t.width) : t.promote = t := if_neg (by omega)

theorem half_le_promote (t : IntType) : t.half ≤ t.promote.half := by
  by_cases h : t.width < 32
  · rw [promote_of_lt h]
    exact half_le_half (show t.width ≤ int32.width by simp only [int32]; omega)
  · exact le_of_eq (congrArg half (promote_of_le (by omega)).symm)

theorem InRange.promote {t : IntType} {v : Int} (h : t.InRange v) : t.promote.InRange v := by
  have := t.half_le_promote
  unfold InRange at *
  omega

/-- Narrower than `int`: the difference of two values fits the promoted type. -/
theorem promote_inRange_sub {t : IntType} (h : t.width < 32) {v w : Int} (hv : t.InRange v)
    (hw : t.InRange w) : t.promote.InRange (v - w) := by
  have h2 : 2 * t.half ≤ int32.half := two_mul_half_le h
  rw [promote_of_lt h]
  unfold InRange at *
  omega

/-! ### Products of two values

The range is not symmetric: only `-half * -half` reaches `half * half`, and no product goes as low as
its negation. -/

theorem InRange.slack_nonneg {t : IntType} {v w : Int} (hv : t.InRange v) (hw : t.InRange w) :
    0 ≤ (t.half - v) * (t.half + w) :=
  mul_nonneg (by have := hv.2; omega) (by have := hw.1; omega)

/-- Twice what is missing to `half * half` is the sum of the two slacks. -/
theorem InRange.mul_le {t : IntType} {v w : Int} (hv : t.InRange v) (hw : t.InRange w) :
    v * w ≤ t.half * t.half := by
  have h1 := hv.slack_nonneg hw
  have h2 := hw.slack_nonneg hv
  linarith

theorem InRange.mul_eq_iff {t : IntType} {v w : Int} (hv : t.InRange v) (hw : t.InRange w) :
    v * w = t.half * t.half ↔ v = -t.half ∧ w = -t.half := by
  constructor
  · intro h
    have h1 := hv.slack_nonneg hw
    have h2 := hw.slack_nonneg hv
    have e1 : (t.half - v) * (t.half + w) = 0 := by linarith
    have e2 : (t.half - w) * (t.half + v) = 0 := by linarith
    have hv' : t.half - v ≠ 0 := by have := hv.2; omega
    have hw' : t.half - w ≠ 0 := by have := hw.2; omega
    have ew := (mul_eq_zero.1 e1).resolve_left hv'
    have ev := (mul_eq_zero.1 e2).resolve_left hw'
    exact ⟨by omega, by omega⟩
  · rintro ⟨rfl, rfl⟩
    exact neg_mul_neg _ _

theorem InRange.neg_le_mul {t : IntType} {v w : Int} (hv : t.InRange v) (hw : t.InRange w) :
    -(t.half * (t.half - 1)) ≤ v * w := by
  have hh := t.half_ge
  obtain ⟨hv1, hv2⟩ := hv
  obtain ⟨hw1, hw2⟩ := hw
  rcases le_or_gt 0 v with h0 | h0
  · have h1 : v * -t.half ≤ v * w := mul_le_mul_of_nonneg_left hw1 h0
    have h2 : t.half * v ≤ t.half * (t.half - 1) :=
      mul_le_mul_of_nonneg_left (by omega) (by omega)
    linarith
  · have h1 : v * (t.half - 1) ≤ v * w := mul_le_mul_of_nonpos_left (by omega) h0.le
    have h2 : -v * (t.half - 1) ≤ t.half * (t.half - 1) :=
      mul_le_mul_of_nonneg_right (by omega) (by omega)
    linarith

end IntType

/-- A value of the type. -/
@[ext] structure SInt (t : IntType) where
  val : Int
  inRange : t.InRange val
deriving DecidableEq

namespace SInt

variable {t : IntType}

theorem val_injective : Function.Injective (val : SInt t → Int) := fun _ _ h => SInt.ext h

instance : LinearOrder (SInt t) := LinearOrder.lift' val val_injective

theorem le_iff {a b : SInt t} : a ≤ b ↔ a.val ≤ b.val := Iff.rfl
theorem lt_iff {a b : SInt t} : a < b ↔ a.val < b.val := Iff.rfl

/-! ## Conversion and arithmetic -/

theorem wrap_inRange (t : IntType) (v : Int) : t.InRange ((v + t.half) % (2 * t.half) - t.half) := by
  have hh := t.half_ge
  have h0 := Int.emod_nonneg (v + t.half) (show 2 * t.half ≠ 0 by omega)
  have h1 := Int.emod_lt_of_pos (v + t.half) (show 0 < 2 * t.half by omega)
  unfold IntType.InRange
  omega

/-- Conversion to `t`: the representable value congruent modulo `2^width`. -/
def wrap (t : IntType) (v : Int) : SInt t := ⟨(v + t.half) % (2 * t.half) - t.half, wrap_inRange t v⟩

/-- A value off by a multiple of `2^width` converts to the representative. -/
theorem wrap_add_mul {v : Int} (h : t.InRange v) (k : Int) : (wrap t (v + k * (2 * t.half))).val = v := by
  have e : v + k * (2 * t.half) + t.half = v + t.half + k * (2 * t.half) := by omega
  unfold IntType.InRange at h
  simp only [wrap]
  rw [e, Int.add_mul_emod_self_right, Int.emod_eq_of_lt (by omega) (by omega)]
  omega

theorem wrap_of_inRange {v : Int} (h : t.InRange v) : wrap t v = ⟨v, h⟩ := by
  ext
  simpa using wrap_add_mul h 0

/-- Conversion moves a value by a multiple of `2^width`. -/
theorem exists_eq_wrap_add (t : IntType) (v : Int) : ∃ k, v = (wrap t v).val + k * (2 * t.half) := by
  refine ⟨(v + t.half) / (2 * t.half), ?_⟩
  have h := Int.emod_add_mul_ediv (v + t.half) (2 * t.half)
  rw [mul_comm (2 * t.half)] at h
  simp only [wrap]
  omega

/-- Opposite values convert to opposite values, save for `-half`, which has none. -/
theorem natAbs_wrap_neg (t : IntType) (v : Int) : (wrap t (-v)).val.natAbs = (wrap t v).val.natAbs := by
  obtain ⟨k, hk⟩ := exists_eq_wrap_add t v
  have hr := (wrap t v).inRange
  generalize (wrap t v).val = w at *
  by_cases hw : w = -t.half
  · have e : -v = w + (1 - k) * (2 * t.half) := by rw [hk, hw]; ring
    rw [e, wrap_add_mul hr]
  · have hneg : t.InRange (-w) := by unfold IntType.InRange at *; omega
    have e : -v = -w + -k * (2 * t.half) := by rw [hk]; ring
    rw [e, wrap_add_mul hneg, Int.natAbs_neg]

/-- `static_cast<T>(e)` for an arithmetic expression `e` on `T` operands whose exact value is `v`. -/
def ofExpr (t : IntType) (v : Int) : Option (SInt t) :=
  if t.promote.InRange v then some (wrap t v) else none

def neg (a : SInt t) : Option (SInt t) := ofExpr t (-a.val)
def add (a b : SInt t) : Option (SInt t) := ofExpr t (a.val + b.val)
def sub (a b : SInt t) : Option (SInt t) := ofExpr t (a.val - b.val)
def mul (a b : SInt t) : Option (SInt t) := ofExpr t (a.val * b.val)
/-- Division truncates towards zero; a zero divisor is undefined. -/
def div (a b : SInt t) : Option (SInt t) := if b.val = 0 then none else ofExpr t (a.val.tdiv b.val)

theorem ofExpr_of_inRange {v : Int} (h : t.InRange v) : ofExpr t v = some ⟨v, h⟩ := by
  rw [ofExpr, if_pos h.promote, wrap_of_inRange h]

theorem ofExpr_eq_some {v : Int} {r : SInt t} (h : ofExpr t v = some r) : r = wrap t v := by
  unfold ofExpr at h
  split at h
  · exact (Option.some.inj h).symm
  · cases h

/-- From `int` upwards there is no narrowing: the result is exact or undefined. -/
theorem ofExpr_of_le_width (hw : 32 ≤ t.width) (v : Int) :
    ofExpr t v = if h : t.InRange v then some ⟨v, h⟩ else none := by
  by_cases h : t.InRange v
  · rw [ofExpr_of_inRange h, dif_pos h]
  · rw [ofExpr, IntType.promote_of_le hw, if_neg h, dif_neg h]

end SInt

end Cxx
