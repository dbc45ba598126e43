import BoomEd.Mat23
import Mathlib.LinearAlgebra.Matrix.NonsingularInverse
/-!
# Formulas in matrices (`math/mat22.h`, `math/mat23.h`)

What the structs stand for: a `mat22` for a matrix of two rows, a `mat23` for the homogeneous matrix of
three rows whose last row is `0 0 1`. `MatExpr` is code in all operators of `mat22`; `formulas_denote`
says that it computes what it says. `products_homogeneous` is the same for products of both kinds.

| here | there |
| --- | --- |
| `MatExpr`          | an expression in `+`, `-`, `* s`, `*` (mat22.h:63-103), `transpose`, `inverse` |
| `Mat22.toMatrix`   | the entries by row; the struct keeps columns |
| `Factor.toMatrix`  | homogeneous coordinates |
-/

namespace BoomEd

open Matrix

universe u

variable {K : Type u} [Field K]

/-! ## `mat22` -/

namespace Mat22

def toMatrix (m : Mat22 K) : Matrix (Fin 2) (Fin 2) K :=
  !![m.columnx.x, m.columny.x; m.columnx.y, m.columny.y]

omit [Field K] in
theorem toMatrix_injective : Function.Injective (toMatrix : Mat22 K → _) := by
  intro a b h
  have h00 := congrFun (congrFun h 0) 0
  have h01 := congrFun (congrFun h 0) 1
  have h10 := congrFun (congrFun h 1) 0
  have h11 := congrFun (congrFun h 1) 1
  exact Mat22.ext (Vec2.ext h00 h10) (Vec2.ext h01 h11)

omit [Field K] in
theorem toMatrix_surjective : Function.Surjective (toMatrix : Mat22 K → _) := fun A =>
  ⟨⟨⟨A 0 0, A 1 0⟩, A 0 1, A 1 1⟩, (eta_fin_two A).symm⟩

theorem toMatrix_add (a b : Mat22 K) : (a + b).toMatrix = a.toMatrix + b.toMatrix := by
  ext i j
  fin_cases i <;> fin_cases j <;> rfl

theorem toMatrix_sub (a b : Mat22 K) : (a - b).toMatrix = a.toMatrix - b.toMatrix := by
  ext i j
  fin_cases i <;> fin_cases j <;> rfl

theorem toMatrix_scale (a : Mat22 K) (s : K) : (a.scale s).toMatrix = s • a.toMatrix := by
  ext i j
  fin_cases i <;> fin_cases j <;> simp [toMatrix, scale, mul_comm]

theorem toMatrix_mul (a b : Mat22 K) : (a * b).toMatrix = a.toMatrix * b.toMatrix := by
  simp [toMatrix]

omit [Field K] in
theorem toMatrix_transpose (a : Mat22 K) : a.transpose.toMatrix = a.toMatrixᵀ := by
  ext i j
  fin_cases i <;> fin_cases j <;> rfl

theorem toMatrix_one : (1 : Mat22 K).toMatrix = 1 := by
  simp [toMatrix, Matrix.one_fin_two]

theorem toMatrix_zero : (0 : Mat22 K).toMatrix = 0 := by
  ext i j
  fin_cases i <;> fin_cases j <;> exact Int.cast_zero

theorem det_toMatrix (a : Mat22 K) : a.toMatrix.det = a.determinant := by
  rw [toMatrix, Matrix.det_fin_two_of, determinant_eq]
  ring

/-- With a determinant to divide by. -/
theorem toMatrix_inverse {a : Mat22 K} (h : a.determinant ≠ 0) :
    a.inverse.toMatrix = a.toMatrix⁻¹ := by
  refine (Matrix.inv_eq_left_inv ?_).symm
  rw [← toMatrix_mul, inverse_mul_self h, toMatrix_one]

theorem mulVec_toMatrix (a : Mat22 K) (v : Vec2 K) :
    a.toMatrix *ᵥ ![v.x, v.y] = ![(a * v).x, (a * v).y] := by
  ext i
  fin_cases i <;> simp [toMatrix, mul_comm]

end Mat22

/-- Formulas in the matrix type; `lit` is any matrix, computed or given. -/
inductive MatExpr (K : Type u) where
  | lit (m : Mat22 K)
  | zero
  | identity
  | add (a b : MatExpr K)
  | sub (a b : MatExpr K)
  | scale (e : MatExpr K) (s : K)
  | mul (a b : MatExpr K)
  | transpose (e : MatExpr K)
  | inverse (e : MatExpr K)

namespace MatExpr

def eval : MatExpr K → Mat22 K
  | lit m => m
  | zero => Mat22.zero
  | identity => Mat22.identity
  | add a b => a.eval + b.eval
  | sub a b => a.eval - b.eval
  | scale e s => e.eval.scale s
  | mul a b => a.eval * b.eval
  | transpose e => e.eval.transpose
  | inverse e => e.eval.inverse

/-- The matrix that the formula means. -/
noncomputable def denote : MatExpr K → Matrix (Fin 2) (Fin 2) K
  | lit m => m.toMatrix
  | zero => 0
  | identity => 1
  | add a b => a.denote + b.denote
  | sub a b => a.denote - b.denote
  | scale e s => s • e.denote
  | mul a b => a.denote * b.denote
  | transpose e => e.denoteᵀ
  | inverse e => e.denote⁻¹

/-- Only regular matrices are inverted. -/
def Regular : MatExpr K → Prop
  | lit _ | zero | identity => True
  | add a b | sub a b | mul a b => a.Regular ∧ b.Regular
  | scale e _ | transpose e => e.Regular
  | inverse e => e.Regular ∧ e.denote.det ≠ 0

theorem toMatrix_eval (e : MatExpr K) : e.Regular → e.eval.toMatrix = e.denote := by
  induction e with
  | lit m => exact fun _ => rfl
  | zero => exact fun _ => Mat22.toMatrix_zero
  | identity => exact fun _ => Mat22.toMatrix_one
  | add a b iha ihb =>
    rintro ⟨ha, hb⟩
    rw [eval, denote, Mat22.toMatrix_add, iha ha, ihb hb]
  | sub a b iha ihb =>
    rintro ⟨ha, hb⟩
    rw [eval, denote, Mat22.toMatrix_sub, iha ha, ihb hb]
  | scale e s ih =>
    intro h
    rw [eval, denote, Mat22.toMatrix_scale, ih h]
  | mul a b iha ihb =>
    rintro ⟨ha, hb⟩
    rw [eval, denote, Mat22.toMatrix_mul, iha ha, ihb hb]
  | transpose e ih =>
    intro h
    rw [eval, denote, Mat22.toMatrix_transpose, ih h]
  | inverse e ih =>
    rintro ⟨h, hdet⟩
    rw [← ih h, Mat22.det_toMatrix] at hdet
    rw [eval, denote, Mat22.toMatrix_inverse hdet, ih h]

/-- **Formulas in `mat22` compute in the matrix ring.** A formula in all the operators, however nested,
that inverts regular matrices only, has the value it means: in its entries, its determinant and its
effect on a vector. So two such formulas that are equal as matrices evaluate to the same struct, and
every matrix is the value of one. -/
theorem formulas_denote (e : MatExpr K) (h : e.Regular) :
    e.eval.toMatrix = e.denote ∧ e.eval.determinant = e.denote.det ∧
    (∀ v : Vec2 K, ![(e.eval * v).x, (e.eval * v).y] = e.denote *ᵥ ![v.x, v.y]) ∧
    (∀ e' : MatExpr K, e'.Regular → (e'.eval = e.eval ↔ e'.denote = e.denote)) ∧
    ∀ A : Matrix (Fin 2) (Fin 2) K, ∃ m : Mat22 K, m.toMatrix = A := by
  have he := toMatrix_eval e h
  refine ⟨he, ?_, fun v => ?_, fun e' h' => ?_, Mat22.toMatrix_surjective⟩
  · rw [← he, Mat22.det_toMatrix]
  · rw [← he, Mat22.mulVec_toMatrix]
  · rw [← he, ← toMatrix_eval e' h', Mat22.toMatrix_injective.eq_iff]

/-- `(A + B)² = A² + A B + B A + B²`, without multiplying out. -/
theorem formulas_denote_square :
    let a : MatExpr ℚ := lit ⟨⟨2, 1⟩, ⟨3, 4⟩⟩
    let b : MatExpr ℚ := inverse (lit ⟨⟨1, 0⟩, ⟨5, 1⟩⟩)
    (mul (add a b) (add a b)).eval =
      (add (add (mul a a) (mul a b)) (add (mul b a) (mul b b))).eval := by
  intro a b
  have hb : b.Regular := ⟨trivial, by
    rw [denote, Mat22.det_toMatrix]
    decide +kernel⟩
  have hright : (add (add (mul a a) (mul a b)) (add (mul b a) (mul b b))).Regular :=
    ⟨⟨⟨trivial, trivial⟩, trivial, hb⟩, ⟨hb, trivial⟩, hb, hb⟩
  have hleft : (mul (add a b) (add a b)).Regular := ⟨⟨trivial, hb⟩, trivial, hb⟩
  obtain ⟨-, -, -, hsame, -⟩ := formulas_denote _ hright
  refine (hsame _ hleft).2 ?_
  simp only [denote]
  rw [mul_add, add_mul, add_mul]
  abel

end MatExpr

/-! ## Products of both kinds -/

namespace Mat23

/-- Homogeneous coordinates. -/
def toMatrix (m : Mat23 K) : Matrix (Fin 3) (Fin 3) K :=
  !![m.rot.columnx.x, m.rot.columny.x, m.trans.x;
     m.rot.columnx.y, m.rot.columny.y, m.trans.y;
     0, 0, 1]

theorem toMatrix_injective : Function.Injective (toMatrix : Mat23 K → _) := by
  intro a b h
  have h0 := congrFun h 0
  have h1 := congrFun h 1
  exact Mat23.ext (Mat22.ext (Vec2.ext (congrFun h0 0) (congrFun h1 0))
    (Vec2.ext (congrFun h0 1) (congrFun h1 1))) (Vec2.ext (congrFun h0 2) (congrFun h1 2))

theorem toMatrix_mul (a b : Mat23 K) : (a * b).toMatrix = a.toMatrix * b.toMatrix := by
  ext i j
  fin_cases i <;> fin_cases j <;> simp [toMatrix, Matrix.mul_apply, Fin.sum_univ_three, apply_eq]

theorem toMatrix_one : (1 : Mat23 K).toMatrix = 1 := by
  ext i j
  fin_cases i <;> fin_cases j <;> simp [toMatrix]

theorem mulVec_toMatrix (m : Mat23 K) (v : Vec2 K) :
    m.toMatrix *ᵥ ![v.x, v.y, 1] = ![(m * v).x, (m * v).y, 1] := by
  ext i
  fin_cases i <;> simp [toMatrix, apply_eq, Matrix.mulVec, dotProduct, Fin.sum_univ_three]

theorem det_toMatrix (m : Mat23 K) : m.toMatrix.det = m.rot.determinant := by
  rw [Matrix.det_fin_three, Mat22.determinant_eq]
  simp [toMatrix]
  ring

theorem toMatrix_inverse {m : Mat23 K} (h : m.rot.determinant ≠ 0) :
    m.inverse.toMatrix = m.toMatrix⁻¹ := by
  refine (Matrix.inv_eq_left_inv ?_).symm
  rw [← toMatrix_mul, inverse_mul_self h, toMatrix_one]

end Mat23

namespace Factor

/-- A `mat22` is the `mat23` without translation. -/
def toMat23 : Factor K → Mat23 K
  | m22 a => ⟨a, 0⟩
  | m23 m => m

def toMatrix (f : Factor K) : Matrix (Fin 3) (Fin 3) K := f.toMat23.toMatrix

theorem apply_toMat23 (f : Factor K) (v : Vec2 K) : f.toMat23 * v = f.apply v := by
  cases f with
  | m22 a => exact add_zero (a * v)
  | m23 m => rfl

theorem toMat23_mul (f g : Factor K) : (f.mul g).toMat23 = f.toMat23 * g.toMat23 := by
  refine Mat23.ext_apply fun v => ?_
  rw [Mat23.mul_apply, apply_toMat23, apply_toMat23, apply_toMat23, mul_apply]

theorem toMatrix_mul (f g : Factor K) : (f.mul g).toMatrix = f.toMatrix * g.toMatrix := by
  rw [toMatrix, toMat23_mul, Mat23.toMatrix_mul]
  rfl

/-- **Products of both kinds compute in homogeneous matrices.** A product of `mat22`s and `mat23`s in
any mix and bracketing is, in homogeneous coordinates, the matrix product of its factors: it takes a
vector where that matrix does, has its determinant and, if that is not zero, its inverse; and two
products are one transform just when their matrices are equal. -/
theorem products_homogeneous (t : Bracketing (Factor K)) :
    (Bracketing.eval mul t).toMatrix = ((Bracketing.leaves t).map toMatrix).prod ∧
    (∀ v : Vec2 K, ![((Bracketing.eval mul t).apply v).x, ((Bracketing.eval mul t).apply v).y, 1] =
      ((Bracketing.leaves t).map toMatrix).prod *ᵥ ![v.x, v.y, 1]) ∧
    (Bracketing.eval mul t).toMat23.rot.determinant = ((Bracketing.leaves t).map toMatrix).prod.det ∧
    (((Bracketing.leaves t).map toMatrix).prod.det ≠ 0 →
      (Bracketing.eval mul t).toMat23.inverse.toMatrix =
        ((Bracketing.leaves t).map toMatrix).prod⁻¹) ∧
    ∀ t' : Bracketing (Factor K),
      ((∀ v : Vec2 K, (Bracketing.eval mul t').apply v = (Bracketing.eval mul t).apply v) ↔
        ((Bracketing.leaves t').map toMatrix).prod = ((Bracketing.leaves t).map toMatrix).prod) := by
  have hprod := Bracketing.denote_eval toMatrix toMatrix_mul t
  have hdet : (Bracketing.eval mul t).toMat23.rot.determinant =
      ((Bracketing.leaves t).map toMatrix).prod.det := by
    rw [← hprod, toMatrix, Mat23.det_toMatrix]
  refine ⟨hprod, fun v => ?_, hdet, fun h => ?_, fun t' => ?_⟩
  · rw [← hprod, toMatrix, Mat23.mulVec_toMatrix, apply_toMat23]
  · rw [← hdet] at h
    rw [← hprod, Mat23.toMatrix_inverse h]
    rfl
  · rw [← hprod, ← Bracketing.denote_eval toMatrix toMatrix_mul t', toMatrix, toMatrix,
      Mat23.toMatrix_injective.eq_iff]
    constructor
    · intro h
      exact Mat23.ext_apply fun v => by rw [apply_toMat23, apply_toMat23, h]
    · intro h v
      rw [← apply_toMat23, ← apply_toMat23, h]

end Factor

end BoomEd
