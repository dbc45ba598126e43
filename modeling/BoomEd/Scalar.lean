import BoomEd.Lib.SignedInt
import Mathlib.Algebra.Field.Basic
/-!
# Scalars (`math/concepts.h`)

The templates are generic in a `Scalar`: a signed integral type or a real one. Their arithmetic is
always written `static_cast<T>(e)` (vec2.h:53-96), so a scalar type is given by what that expression
yields for each operator, `none` where its evaluation is undefined. Real types are read as exact:
any field, where evaluation never fails.

| here | there |
| --- | --- |
| `Arith`            | the arithmetic of a `Scalar` (concepts.h:10) inside `static_cast<T>(…)` |
| `Scalar.Result`    | `vec2::scalar_result` (vec2.h:14): `T` for real types, `std::int64_t` for integral ones |
| `Scalar.toResult`  | `static_cast<scalar_result>(…)` (vec2.h:142-143) |
| `SInt t`           | a signed integral type |
| any `Field`        | a real type (`ScalarReal`, concepts.h:7), exact |
-/

namespace BoomEd

open Cxx

universe u

/-- The arithmetic of a scalar type; `lit n` is the literal `n` converted to it. -/
class Arith (T : Type u) where
  lit : Int → T
  neg : T → Option T
  add : T → T → Option T
  sub : T → T → Option T
  mul : T → T → Option T
  div : T → T → Option T

class Scalar (T : Type u) extends Arith T where
  Result : Type u
  arithResult : Arith Result
  toResult : T → Result

instance {T : Type u} [Scalar T] : Arith (Scalar.Result T) := Scalar.arithResult

instance (t : IntType) : Arith (SInt t) where
  lit := SInt.wrap t
  neg := SInt.neg
  add := SInt.add
  sub := SInt.sub
  mul := SInt.mul
  div := SInt.div

instance (t : IntType) : Scalar (SInt t) where
  Result := SInt IntType.int64
  arithResult := inferInstance
  toResult a := SInt.wrap IntType.int64 a.val

instance {K : Type u} [Field K] : Arith K where
  lit n := n
  neg a := some (-a)
  add a b := some (a + b)
  sub a b := some (a - b)
  mul a b := some (a * b)
  div a b := some (a / b)

instance {K : Type u} [Field K] : Scalar K where
  Result := K
  arithResult := inferInstance
  toResult a := a

/-- Widening to `scalar_result` keeps the value of every type no wider than it. -/
theorem toResult_val {t : IntType} (h : t.width ≤ 64) (a : SInt t) :
    (Scalar.toResult a : SInt IntType.int64).val = a.val := by
  have hh : t.half ≤ IntType.int64.half := IntType.half_le_half h
  have ha : IntType.int64.InRange a.val := by
    have := a.inRange
    unfold IntType.InRange at *
    omega
  show (SInt.wrap IntType.int64 a.val).val = a.val
  rw [SInt.wrap_of_inRange ha]

end BoomEd
