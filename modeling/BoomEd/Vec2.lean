import BoomEd.Scalar
import Mathlib.Algebra.Module.Defs
import Mathlib.Algebra.Group.Prod
import Mathlib.Algebra.Module.Prod
import Mathlib.Algebra.Group.InjSurj
/-!
# `vec2` (`math/vec2.h`)

| here | there |
| --- | --- |
| `Vec2.neg` … `Vec2.sdiv`      | the operators (vec2.h:53-96), `none` when a component's evaluation is undefined |
| `Vec2.dot`, `cross`, `lensqr` | vec2.h:120-152, evaluated in `scalar_result` |
| `Vec2.distancesqr`            | vec2.h:154-158 |
| `Vec2.min`, `Vec2.max`        | vec2.h:166-182 |
| `a + b`, `v.scale s`, `realDot` … | the same operators and products at a real type, where they cannot fail |

`len`, `distance` and `normalised`, which go through `std::sqrt`, are in `Length` and `IntLength`.
-/

namespace BoomEd

open Cxx

universe u

@[ext] structure Vec2 (T : Type u) where
  x : T
  y : T
deriving DecidableEq

namespace Vec2

section Arith
variable {T : Type u} [Arith T]

/-- `vec2{}`: both members value-initialised (vec2.h:11-12). -/
instance : Inhabited (Vec2 T) := ⟨⟨Arith.lit 0, Arith.lit 0⟩⟩

/-- vec2.h:22-24. -/
def zero : Vec2 T := ⟨Arith.lit 0, Arith.lit 0⟩
def axisx : Vec2 T := ⟨Arith.lit 1, Arith.lit 0⟩
def axisy : Vec2 T := ⟨Arith.lit 0, Arith.lit 1⟩

/-- Unary `operator -` (vec2.h:55). -/
def neg (a : Vec2 T) : Option (Vec2 T) := do
  return ⟨← Arith.neg a.x, ← Arith.neg a.y⟩

/-- `operator +` (vec2.h:64). -/
def add (a b : Vec2 T) : Option (Vec2 T) := do
  return ⟨← Arith.add a.x b.x, ← Arith.add a.y b.y⟩

/-- Binary `operator -` (vec2.h:73). -/
def sub (a b : Vec2 T) : Option (Vec2 T) := do
  return ⟨← Arith.sub a.x b.x, ← Arith.sub a.y b.y⟩

/-- `operator *(vec2, T)` (vec2.h:82). -/
def smul (v : Vec2 T) (s : T) : Option (Vec2 T) := do
  return ⟨← Arith.mul v.x s, ← Arith.mul v.y s⟩

/-- `operator /(vec2, T)` (vec2.h:91). -/
def sdiv (v : Vec2 T) (s : T) : Option (Vec2 T) := do
  return ⟨← Arith.div v.x s, ← Arith.div v.y s⟩

end Arith

section Scalar
variable {T : Type u} [Scalar T]

/-- vec2.h:140: both products and their sum are taken in `scalar_result`. -/
def dot (a b : Vec2 T) : Option (Scalar.Result T) := do
  let xx ← Arith.mul (Scalar.toResult a.x) (Scalar.toResult b.x)
  let yy ← Arith.mul (Scalar.toResult a.y) (Scalar.toResult b.y)
  Arith.add xx yy

/-- vec2.h:148. -/
def cross (a b : Vec2 T) : Option (Scalar.Result T) := do
  let xy ← Arith.mul (Scalar.toResult a.x) (Scalar.toResult b.y)
  let yx ← Arith.mul (Scalar.toResult a.y) (Scalar.toResult b.x)
  Arith.sub xy yx

/-- vec2.h:122. -/
def lensqr (a : Vec2 T) : Option (Scalar.Result T) := dot a a

/-- vec2.h:156: the difference is a `vec2<T>`, so it is taken in `T` before anything is widened. -/
def distancesqr (a b : Vec2 T) : Option (Scalar.Result T) := do
  let d ← sub b a
  lensqr d

end Scalar

/-- From `int` upwards a difference with an unrepresentable component is undefined. -/
theorem sub_undefined {t : IntType} (ht : 32 ≤ t.width) {a b : Vec2 (SInt t)}
    (h : ¬ (t.InRange (a.x.val - b.x.val) ∧ t.InRange (a.y.val - b.y.val))) : sub a b = none := by
  by_cases hx : t.InRange (a.x.val - b.x.val)
  · have hy : ¬ t.InRange (a.y.val - b.y.val) := fun hy => h ⟨hx, hy⟩
    have e : Arith.sub a.y b.y = none := (SInt.ofExpr_of_le_width ht _).trans (dif_neg hy)
    simp [sub, e]
  · have e : Arith.sub a.x b.x = none := (SInt.ofExpr_of_le_width ht _).trans (dif_neg hx)
    simp [sub, e]

section Order
variable {T : Type u} [LinearOrder T]

/-- Componentwise minimum (vec2.h:168). -/
protected def min (a b : Vec2 T) : Vec2 T := ⟨Min.min a.x b.x, Min.min a.y b.y⟩

/-- Componentwise maximum (vec2.h:177). -/
protected def max (a b : Vec2 T) : Vec2 T := ⟨Max.max a.x b.x, Max.max a.y b.y⟩

@[simp] theorem min_x (a b : Vec2 T) : (Vec2.min a b).x = Min.min a.x b.x := rfl
@[simp] theorem min_y (a b : Vec2 T) : (Vec2.min a b).y = Min.min a.y b.y := rfl
@[simp] theorem max_x (a b : Vec2 T) : (Vec2.max a b).x = Max.max a.x b.x := rfl
@[simp] theorem max_y (a b : Vec2 T) : (Vec2.max a b).y = Max.max a.y b.y := rfl

end Order

/-! ## Exact arithmetic: the operators are total -/

section Field
variable {K : Type u} [Field K]

instance : Zero (Vec2 K) := ⟨zero⟩
instance : Neg (Vec2 K) := ⟨fun a => (neg a).get rfl⟩
instance : Add (Vec2 K) := ⟨fun a b => (add a b).get rfl⟩
instance : Sub (Vec2 K) := ⟨fun a b => (sub a b).get rfl⟩
/-- `v.scale s` is the source's `v * s`. -/
def scale (v : Vec2 K) (s : K) : Vec2 K := (smul v s).get rfl

/-- The products of real vectors. -/
def realDot (a b : Vec2 K) : K := (dot a b).get rfl
def realCross (a b : Vec2 K) : K := (cross a b).get rfl

@[simp] theorem zero_x : (0 : Vec2 K).x = 0 := Int.cast_zero
@[simp] theorem zero_y : (0 : Vec2 K).y = 0 := Int.cast_zero
@[simp] theorem axisx_x : (axisx : Vec2 K).x = 1 := Int.cast_one
@[simp] theorem axisx_y : (axisx : Vec2 K).y = 0 := Int.cast_zero
@[simp] theorem axisy_x : (axisy : Vec2 K).x = 0 := Int.cast_zero
@[simp] theorem axisy_y : (axisy : Vec2 K).y = 1 := Int.cast_one
@[simp] theorem neg_x (a : Vec2 K) : (-a).x = -a.x := rfl
@[simp] theorem neg_y (a : Vec2 K) : (-a).y = -a.y := rfl
@[simp] theorem add_x (a b : Vec2 K) : (a + b).x = a.x + b.x := rfl
@[simp] theorem add_y (a b : Vec2 K) : (a + b).y = a.y + b.y := rfl
@[simp] theorem sub_x (a b : Vec2 K) : (a - b).x = a.x - b.x := rfl
@[simp] theorem sub_y (a b : Vec2 K) : (a - b).y = a.y - b.y := rfl
@[simp] theorem scale_x (v : Vec2 K) (s : K) : (v.scale s).x = v.x * s := rfl
@[simp] theorem scale_y (v : Vec2 K) (s : K) : (v.scale s).y = v.y * s := rfl

theorem realDot_eq (a b : Vec2 K) : realDot a b = a.x * b.x + a.y * b.y := rfl
theorem realCross_eq (a b : Vec2 K) : realCross a b = a.x * b.y - a.y * b.x := rfl

end Field

end Vec2

end BoomEd
