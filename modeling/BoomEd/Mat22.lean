import BoomEd.Vec2
import BoomEd.Lib.Inverses
import Mathlib.Algebra.Module.LinearMap.End
import Mathlib.Tactic.LinearCombination
import Mathlib.Tactic.Ring
/-!
# `mat22` (`math/mat22.h`)

Matrices exist at real types only (`ScalarReal`), read as exact: entries in any field. Storage is by
column, `columnx` being the image of the x axis.

| here | there |
| --- | --- |
| `A * v`, `A * B`, `A.scale s`        | mat22.h:81-103 |
| `A + B`, `A - B`                     | mat22.h:63-79 |
| `determinant`, `transpose`, `inverse`| mat22.h:105-129 |
| `-A`                                 | used in mat23.h:70, declared nowhere: read as componentwise |

Over these the vectors are a module and `toLin` turns a matrix into a linear map; products are
compositions (`mul_mulVec`), which makes the matrices a monoid.
-/

namespace BoomEd

universe u

variable {K : Type u} [Field K]

/-! ## Vectors as a module -/

namespace Vec2

instance : AddCommGroup (Vec2 K) where
  add_assoc a b c := by ext <;> simp [add_assoc]
  zero_add a := by ext <;> simp
  add_zero a := by ext <;> simp
  add_comm a b := by ext <;> simp [add_comm]
  neg_add_cancel a := by ext <;> simp
  sub_eq_add_neg a b := by ext <;> simp [sub_eq_add_neg]
  nsmul := nsmulRec
  zsmul := zsmulRec

/-- `s • v` is the source's `v * s`. -/
instance : SMul K (Vec2 K) := ⟨fun s v => v.scale s⟩

@[simp] theorem smul_x (s : K) (v : Vec2 K) : (s • v).x = v.x * s := rfl
@[simp] theorem smul_y (s : K) (v : Vec2 K) : (s • v).y = v.y * s := rfl

instance : Module K (Vec2 K) where
  one_smul v := by ext <;> simp
  mul_smul r s v := by ext <;> simp <;> ring
  smul_zero s := by ext <;> simp
  smul_add s v w := by ext <;> simp <;> ring
  add_smul r s v := by ext <;> simp <;> ring
  zero_smul v := by ext <;> simp

end Vec2

@[ext] structure Mat22 (K : Type u) where
  columnx : Vec2 K
  columny : Vec2 K
deriving DecidableEq

namespace Mat22

/-- mat22.h:54. -/
def zero : Mat22 K := ⟨Vec2.zero, Vec2.zero⟩

/-- mat22.h:59. -/
def identity : Mat22 K := ⟨Vec2.axisx, Vec2.axisy⟩

instance : Zero (Mat22 K) := ⟨zero⟩
instance : One (Mat22 K) := ⟨identity⟩
instance : Add (Mat22 K) := ⟨fun a b => ⟨a.columnx + b.columnx, a.columny + b.columny⟩⟩
instance : Sub (Mat22 K) := ⟨fun a b => ⟨a.columnx - b.columnx, a.columny - b.columny⟩⟩
instance : Neg (Mat22 K) := ⟨fun a => ⟨-a.columnx, -a.columny⟩⟩

/-- The source's `m * s` for a scalar `s`. -/
def scale (m : Mat22 K) (s : K) : Mat22 K := ⟨m.columnx.scale s, m.columny.scale s⟩

/-- mat22.h:92. -/
def mulVec (m : Mat22 K) (v : Vec2 K) : Vec2 K := m.columnx.scale v.x + m.columny.scale v.y

instance : HMul (Mat22 K) (Vec2 K) (Vec2 K) := ⟨mulVec⟩

/-- mat22.h:98. -/
instance : Mul (Mat22 K) := ⟨fun a b => ⟨a * b.columnx, a * b.columny⟩⟩

/-- mat22.h:107. -/
def determinant (m : Mat22 K) : K := (Vec2.cross m.columnx m.columny).get rfl

/-- mat22.h:113. -/
def transpose (m : Mat22 K) : Mat22 K :=
  ⟨⟨m.columnx.x, m.columny.x⟩, ⟨m.columnx.y, m.columny.y⟩⟩

/-- mat22.h:122. -/
def inverse (m : Mat22 K) : Mat22 K :=
  let det := m.determinant
  let d := 1 / det
  ⟨⟨m.columny.y * d, -m.columnx.y * d⟩, ⟨-m.columny.x * d, m.columnx.x * d⟩⟩

/-! ## Components -/

@[simp] theorem one_columnx : (1 : Mat22 K).columnx = Vec2.axisx := rfl
@[simp] theorem one_columny : (1 : Mat22 K).columny = Vec2.axisy := rfl
@[simp] theorem neg_columnx (m : Mat22 K) : (-m).columnx = -m.columnx := rfl
@[simp] theorem neg_columny (m : Mat22 K) : (-m).columny = -m.columny := rfl
@[simp] theorem mulVec_x (m : Mat22 K) (v : Vec2 K) :
    (m * v).x = m.columnx.x * v.x + m.columny.x * v.y := rfl
@[simp] theorem mulVec_y (m : Mat22 K) (v : Vec2 K) :
    (m * v).y = m.columnx.y * v.x + m.columny.y * v.y := rfl
@[simp] theorem mul_columnx (a b : Mat22 K) : (a * b).columnx = a * b.columnx := rfl
@[simp] theorem mul_columny (a b : Mat22 K) : (a * b).columny = a * b.columny := rfl

@[simp] theorem transpose_columnx {T : Type u} (m : Mat22 T) :
    m.transpose.columnx = ⟨m.columnx.x, m.columny.x⟩ := rfl
@[simp] theorem transpose_columny {T : Type u} (m : Mat22 T) :
    m.transpose.columny = ⟨m.columnx.y, m.columny.y⟩ := rfl

theorem determinant_eq (m : Mat22 K) :
    m.determinant = m.columnx.x * m.columny.y - m.columnx.y * m.columny.x := rfl

/-! ## Matrices as linear maps -/

theorem mulVec_add (m : Mat22 K) (v w : Vec2 K) : m * (v + w) = m * v + m * w := by
  ext <;> simp <;> ring

theorem mulVec_smul (m : Mat22 K) (s : K) (v : Vec2 K) : m * (s • v) = s • (m * v) := by
  ext <;> simp <;> ring

theorem mulVec_zero (m : Mat22 K) : m * (0 : Vec2 K) = 0 := by
  ext <;> simp

theorem neg_mulVec (m : Mat22 K) (v : Vec2 K) : -m * v = -(m * v) := by
  ext <;> simp <;> ring

def toLin (m : Mat22 K) : Vec2 K →ₗ[K] Vec2 K where
  toFun v := m * v
  map_add' := mulVec_add m
  map_smul' := mulVec_smul m

/-- A matrix is determined by what it does to the axes. -/
theorem ext_mulVec {a b : Mat22 K} (h : ∀ v : Vec2 K, a * v = b * v) : a = b := by
  have hx := h Vec2.axisx
  have hy := h Vec2.axisy
  simp only [Vec2.ext_iff, mulVec_x, mulVec_y, Vec2.axisx_x, Vec2.axisx_y, Vec2.axisy_x,
    Vec2.axisy_y, mul_one, mul_zero, add_zero, zero_add] at hx hy
  ext
  · exact hx.1
  · exact hx.2
  · exact hy.1
  · exact hy.2

/-- The product is composition. -/
theorem mul_mulVec (a b : Mat22 K) (v : Vec2 K) : (a * b) * v = a * (b * v) := by
  ext <;> simp <;> ring

theorem one_mulVec (v : Vec2 K) : (1 : Mat22 K) * v = v := by
  ext <;> simp

instance : Monoid (Mat22 K) where
  mul_assoc a b c := ext_mulVec fun v => by rw [mul_mulVec, mul_mulVec, mul_mulVec, mul_mulVec]
  one_mul a := ext_mulVec fun v => by rw [mul_mulVec, one_mulVec]
  mul_one a := ext_mulVec fun v => by rw [mul_mulVec, one_mulVec]

/-! ## Determinant and transpose

The determinant is what a matrix does to `cross`, the transpose is the adjoint for `dot`. -/

/-- A matrix scales signed areas by its determinant. -/
theorem realCross_mulVec (m : Mat22 K) (u v : Vec2 K) :
    Vec2.realCross (m * u) (m * v) = m.determinant * Vec2.realCross u v := by
  simp only [Vec2.realCross_eq, determinant_eq, mulVec_x, mulVec_y]
  ring

theorem determinant_mul (a b : Mat22 K) : (a * b).determinant = a.determinant * b.determinant :=
  realCross_mulVec a b.columnx b.columny

theorem realDot_mulVec (m : Mat22 K) (u v : Vec2 K) :
    Vec2.realDot (m * u) v = Vec2.realDot u (m.transpose * v) := by
  simp only [Vec2.realDot_eq, mulVec_x, mulVec_y, transpose_columnx, transpose_columny]
  ring

/-- Vectors are told apart by their products with the axes. -/
theorem eq_of_realDot {v w : Vec2 K} (h : ∀ u, Vec2.realDot u v = Vec2.realDot u w) : v = w := by
  have hx := h Vec2.axisx
  have hy := h Vec2.axisy
  simp only [Vec2.realDot_eq, Vec2.axisx_x, Vec2.axisx_y, Vec2.axisy_x, Vec2.axisy_y, one_mul,
    zero_mul, add_zero, zero_add] at hx hy
  ext
  · exact hx
  · exact hy

/-- There is one adjoint. -/
theorem eq_transpose {m n : Mat22 K}
    (h : ∀ u v : Vec2 K, Vec2.realDot (m * u) v = Vec2.realDot u (n * v)) : n = m.transpose :=
  ext_mulVec fun v => eq_of_realDot fun u => (h u v).symm.trans (realDot_mulVec m u v)

theorem transpose_mul (a b : Mat22 K) : (a * b).transpose = b.transpose * a.transpose := by
  refine (eq_transpose fun u v => ?_).symm
  calc Vec2.realDot ((a * b) * u) v = Vec2.realDot (a * (b * u)) v := by rw [mul_mulVec]
    _ = Vec2.realDot (b * u) (a.transpose * v) := realDot_mulVec a _ v
    _ = Vec2.realDot u (b.transpose * (a.transpose * v)) := realDot_mulVec b u _
    _ = Vec2.realDot u ((b.transpose * a.transpose) * v) := by rw [mul_mulVec]

theorem transpose_one : (1 : Mat22 K).transpose = 1 := by
  refine (eq_transpose fun u v => ?_).symm
  rw [one_mulVec, one_mulVec]

/-! ## Inverse -/

theorem determinant_one : (1 : Mat22 K).determinant = 1 := by
  simp [determinant_eq]

/-- The reciprocal of the determinant, and the matrix `inverse` builds with it. -/
theorem inverse_spec {m : Mat22 K} (h : m.determinant ≠ 0) :
    ∃ d, (m.columnx.x * m.columny.y - m.columnx.y * m.columny.x) * d = 1 ∧
      m.inverse = ⟨⟨m.columny.y * d, -m.columnx.y * d⟩, ⟨-m.columny.x * d, m.columnx.x * d⟩⟩ :=
  ⟨1 / m.determinant, mul_one_div_cancel h, rfl⟩

theorem inverse_mul_self {m : Mat22 K} (h : m.determinant ≠ 0) : m.inverse * m = 1 := by
  obtain ⟨d, hd, e⟩ := inverse_spec h
  rw [e]
  ext
  · simp; linear_combination hd
  · simp; ring
  · simp; ring
  · simp; linear_combination hd

theorem determinant_ne_zero_of_mul {a b : Mat22 K} (h : a * b = 1) : a.determinant ≠ 0 := by
  intro h0
  have e := congrArg determinant h
  rw [determinant_mul, determinant_one, h0, zero_mul] at e
  exact zero_ne_one e

theorem determinant_inverse_ne_zero {m : Mat22 K} (h : m.determinant ≠ 0) :
    m.inverse.determinant ≠ 0 := determinant_ne_zero_of_mul (inverse_mul_self h)

/-- `inverse` inverts the matrices with a non-zero determinant. -/
theorem invertsOn : Inverses.InvertsOn (fun m : Mat22 K => m.determinant ≠ 0) inverse where
  inv_mul_self := inverse_mul_self
  inv_closed := determinant_inverse_ne_zero
  mul_closed {a b} ha hb := determinant_mul a b ▸ mul_ne_zero ha hb

theorem mul_inverse_self {m : Mat22 K} (h : m.determinant ≠ 0) : m * m.inverse = 1 :=
  invertsOn.mul_inv_self h

theorem inverse_eq_of_mul {a b : Mat22 K} (h : a * b = 1) : a.inverse = b :=
  invertsOn.inv_eq_of_mul (determinant_ne_zero_of_mul h) h

theorem inverse_transpose {m : Mat22 K} (h : m.determinant ≠ 0) :
    m.transpose.inverse = m.inverse.transpose := by
  apply inverse_eq_of_mul
  rw [← transpose_mul, inverse_mul_self h, transpose_one]

/-- **Determinant, transpose and inverse fit the product.** The determinant is the factor by which a
matrix scales `cross`, the transpose moves it across `dot`; both respect products, the transpose
reversing them. A matrix with a non-zero determinant has the inverse on both sides, which reverses
products and commutes with the transpose. -/
theorem determinant_transpose_inverse (K : Type u) [Field K] :
    (∀ (a : Mat22 K) (u v : Vec2 K),
      Vec2.realCross (a * u) (a * v) = a.determinant * Vec2.realCross u v) ∧
    (∀ a b : Mat22 K, (a * b).determinant = a.determinant * b.determinant) ∧
    (∀ (a : Mat22 K) (u v : Vec2 K),
      Vec2.realDot (a * u) v = Vec2.realDot u (a.transpose * v)) ∧
    (∀ a b : Mat22 K, (a * b).transpose = b.transpose * a.transpose) ∧
    (∀ a : Mat22 K, a.determinant ≠ 0 → a * a.inverse = identity ∧ a.inverse * a = identity ∧
      a.transpose.inverse = a.inverse.transpose) ∧
    (∀ a b : Mat22 K, a.determinant ≠ 0 → b.determinant ≠ 0 →
      (a * b).inverse = b.inverse * a.inverse) :=
  ⟨realCross_mulVec, determinant_mul, realDot_mulVec, transpose_mul,
    fun _ h => ⟨mul_inverse_self h, inverse_mul_self h, inverse_transpose h⟩,
    fun _ _ ha hb => invertsOn.inv_mul ha hb⟩

/-- Two matrices that do not commute, over the rationals. -/
theorem determinant_transpose_inverse_shear :
    let a : Mat22 ℚ := ⟨⟨2, 1⟩, ⟨3, 4⟩⟩
    let b : Mat22 ℚ := ⟨⟨1, 0⟩, ⟨5, 1⟩⟩
    a * a.inverse = identity ∧ (a * b).inverse = b.inverse * a.inverse ∧
      (a * b).inverse ≠ a.inverse * b.inverse := by
  intro a b
  obtain ⟨-, -, -, -, hinv, hrev⟩ := determinant_transpose_inverse ℚ
  have ha : a.determinant ≠ 0 := by decide +kernel
  have hb : b.determinant ≠ 0 := by decide +kernel
  exact ⟨(hinv a ha).1, hrev a b ha hb, by decide +kernel⟩

end Mat22

end BoomEd
