import BoomEd.Mat22
import BoomEd.Lib.Bracketing
import Mathlib.LinearAlgebra.AffineSpace.AffineMap
import Mathlib.Tactic.Abel
/-!
# `mat23` (`math/mat23.h`): affine transforms

A `mat23` is a `mat22` and a translation. `operator *` is overloaded on every pair that makes sense;
each overload treats the translation column by hand, and each is composition of the affine maps the
operands denote (`denote_mul`). So a product of any mix of factors means the product of those maps in
the monoid of affine endomorphisms, whatever its bracketing (`affine_products`), and the inverse is
the inverse in the monoid of `mat23`s (`affine_inverse`).

| here | there |
| --- | --- |
| `M * v`, `M * N`, `A * M`, `M * A` | mat23.h:42-64 |
| `makeTranslation`                  | mat23.h:36-40 |
| `inverse`                          | mat23.h:66-71 |
| `Factor.mul`                       | overload resolution on the two matrix types |
-/

namespace BoomEd

universe u

variable {K : Type u} [Field K]

@[ext] structure Mat23 (K : Type u) where
  rot : Mat22 K
  trans : Vec2 K
deriving DecidableEq

namespace Mat23

/-- mat23.h:38. -/
def makeTranslation (t : Vec2 K) : Mat23 K := ⟨Mat22.identity, t⟩

/-- mat23.h:44. -/
instance : HMul (Mat23 K) (Vec2 K) (Vec2 K) := ⟨fun m v => m.rot * v + m.trans⟩

/-- mat23.h:50. -/
instance : Mul (Mat23 K) := ⟨fun a b => ⟨a.rot * b.rot, a * b.trans⟩⟩

/-- mat23.h:56. -/
instance : HMul (Mat22 K) (Mat23 K) (Mat23 K) := ⟨fun a b => ⟨a * b.rot, a * b.trans⟩⟩

/-- mat23.h:62. -/
instance : HMul (Mat23 K) (Mat22 K) (Mat23 K) := ⟨fun a b => ⟨a.rot * b, a.trans⟩⟩

/-- mat23.h:68. -/
def inverse (m : Mat23 K) : Mat23 K :=
  let mi := m.rot.inverse
  ⟨mi, -mi * m.trans⟩

instance : One (Mat23 K) := ⟨makeTranslation 0⟩

theorem apply_eq (m : Mat23 K) (v : Vec2 K) : m * v = m.rot * v + m.trans := rfl

@[simp] theorem one_rot : (1 : Mat23 K).rot = 1 := rfl
@[simp] theorem one_trans : (1 : Mat23 K).trans = 0 := rfl
@[simp] theorem mul_rot (a b : Mat23 K) : (a * b).rot = a.rot * b.rot := rfl
@[simp] theorem mul_trans (a b : Mat23 K) : (a * b).trans = a * b.trans := rfl

/-! ## Each overload composes -/

theorem mul_apply (a b : Mat23 K) (v : Vec2 K) : (a * b) * v = a * (b * v) := by
  simp only [apply_eq, mul_rot, mul_trans, Mat22.mul_mulVec, Mat22.mulVec_add]
  abel

theorem mat22_mul_apply (a : Mat22 K) (b : Mat23 K) (v : Vec2 K) : (a * b) * v = a * (b * v) := by
  show (a * b.rot) * v + a * b.trans = a * (b.rot * v + b.trans)
  rw [Mat22.mul_mulVec, Mat22.mulVec_add]

theorem mul_mat22_apply (a : Mat23 K) (b : Mat22 K) (v : Vec2 K) : (a * b) * v = a * (b * v) := by
  show (a.rot * b) * v + a.trans = a.rot * (b * v) + a.trans
  rw [Mat22.mul_mulVec]

theorem one_apply (v : Vec2 K) : (1 : Mat23 K) * v = v := by
  rw [apply_eq, one_rot, one_trans, Mat22.one_mulVec, add_zero]

/-- A transform is determined by its effect: on the origin, then on the axes. -/
theorem ext_apply {a b : Mat23 K} (h : ∀ v : Vec2 K, a * v = b * v) : a = b := by
  have ht : a.trans = b.trans := by simpa [apply_eq, Mat22.mulVec_zero] using h 0
  refine Mat23.ext (Mat22.ext_mulVec fun v => ?_) ht
  have hv := h v
  rw [apply_eq, apply_eq, ht] at hv
  exact add_right_cancel hv

instance : Monoid (Mat23 K) where
  mul_assoc a b c := ext_apply fun v => by rw [mul_apply, mul_apply, mul_apply, mul_apply]
  one_mul a := ext_apply fun v => by rw [mul_apply, one_apply]
  mul_one a := ext_apply fun v => by rw [mul_apply, one_apply]

end Mat23

/-! ## Products of any mix of factors -/

/-- One factor of a product: either matrix type. -/
inductive Factor (K : Type u) where
  | m22 (a : Mat22 K)
  | m23 (m : Mat23 K)

namespace Factor

/-- The overload the two operand types select. -/
def mul : Factor K → Factor K → Factor K
  | m22 a, m22 b => m22 (a * b)
  | m22 a, m23 n => m23 (a * n)
  | m23 m, m22 b => m23 (m * b)
  | m23 m, m23 n => m23 (m * n)

/-- The application overloads. -/
def apply : Factor K → Vec2 K → Vec2 K
  | m22 a, v => a * v
  | m23 m, v => m * v

/-- The affine map a factor denotes. -/
def denote : Factor K → Vec2 K →ᵃ[K] Vec2 K
  | m22 a => a.toLin.toAffineMap
  | m23 m => {
      toFun := fun v => m * v
      linear := m.rot.toLin
      map_vadd' := fun p v => by
        show m.rot * (v + p) + m.trans = m.rot * v + (m.rot * p + m.trans)
        rw [Mat22.mulVec_add, add_assoc] }

@[simp] theorem denote_apply (f : Factor K) (v : Vec2 K) : f.denote v = f.apply v := by
  cases f <;> rfl

/-- All four overloads together: a product applies its right operand first. -/
theorem mul_apply (f g : Factor K) (v : Vec2 K) : (f.mul g).apply v = f.apply (g.apply v) := by
  cases f with
  | m22 a =>
    cases g with
    | m22 b => exact Mat22.mul_mulVec a b v
    | m23 n => exact Mat23.mat22_mul_apply a n v
  | m23 m =>
    cases g with
    | m22 b => exact Mat23.mul_mat22_apply m b v
    | m23 n => exact Mat23.mul_apply m n v

theorem denote_mul (f g : Factor K) : (f.mul g).denote = f.denote * g.denote := by
  ext1 v
  rw [AffineMap.coe_mul, Function.comp_apply, denote_apply, denote_apply, denote_apply, mul_apply]

/-- A bracketed product of matrices denotes the product of what its factors denote. -/
theorem denote_eval (t : Bracketing (Factor K)) :
    (Bracketing.eval mul t).denote = ((Bracketing.leaves t).map denote).prod :=
  Bracketing.denote_eval denote denote_mul t

end Factor

/-- A product that ends in a vector: in every bracketing that the overloads accept, a matrix product
is applied to what is left, down to the vector. -/
inductive VecExpr (K : Type u) where
  | vec (v : Vec2 K)
  | app (m : Bracketing (Factor K)) (e : VecExpr K)

namespace VecExpr

def eval : VecExpr K → Vec2 K
  | vec v => v
  | app m e => (Bracketing.eval Factor.mul m).apply e.eval

/-- The matrix factors from left to right. -/
def factors : VecExpr K → List (Factor K)
  | vec _ => []
  | app m e => Bracketing.leaves m ++ e.factors

/-- The vector at the end. -/
def vector : VecExpr K → Vec2 K
  | vec v => v
  | app _ e => e.vector

/-- The value is the composed map of the factors at the vector: the bracketing has dropped out. -/
theorem eval_eq (e : VecExpr K) : e.eval = (e.factors.map Factor.denote).prod e.vector := by
  induction e with
  | vec v => rfl
  | app m e ih =>
    rw [eval, factors, vector, List.map_append, List.prod_append, ← Factor.denote_eval,
      AffineMap.coe_mul, Function.comp_apply, Factor.denote_apply, ih]

end VecExpr

/-- **Affine composition is composition of maps.** Every overload composes; hence a product ending in a
vector has one value and a product of matrices one meaning, whatever the bracketing. The mixed
overloads are the full product with `mat23{A, zero}`, and the identities are neutral. -/
theorem affine_products :
    (∀ (A B : Mat22 K) (M N : Mat23 K) (v : Vec2 K),
      (A * B) * v = A * (B * v) ∧ (M * N) * v = M * (N * v) ∧
      (A * M) * v = A * (M * v) ∧ (M * A) * v = M * (A * v)) ∧
    (∀ e e' : VecExpr K, e.factors = e'.factors → e.vector = e'.vector → e.eval = e'.eval) ∧
    (∀ s t : Bracketing (Factor K), Bracketing.leaves s = Bracketing.leaves t →
      (Bracketing.eval Factor.mul s).denote = (Bracketing.eval Factor.mul t).denote) ∧
    (∀ (A : Mat22 K) (M : Mat23 K),
      A * M = (⟨A, Vec2.zero⟩ : Mat23 K) * M ∧ M * A = M * (⟨A, Vec2.zero⟩ : Mat23 K)) ∧
    (∀ (A : Mat22 K) (M : Mat23 K) (v : Vec2 K),
      (Mat23.makeTranslation Vec2.zero * M = M ∧ M * Mat23.makeTranslation Vec2.zero = M ∧
        (Mat23.makeTranslation Vec2.zero : Mat23 K) * v = v ∧
        (Mat23.makeTranslation Vec2.zero : Mat23 K) * A = (⟨A, Vec2.zero⟩ : Mat23 K) ∧
        A * (Mat23.makeTranslation Vec2.zero : Mat23 K) = (⟨A, Vec2.zero⟩ : Mat23 K)) ∧
      (Mat22.identity * A = A ∧ A * Mat22.identity = A ∧
        (Mat22.identity : Mat22 K) * v = v ∧
        (Mat22.identity : Mat22 K) * M = M ∧ M * (Mat22.identity : Mat22 K) = M)) := by
  refine ⟨fun A B M N v => ?_, fun e e' hf hv => ?_, fun s t h => ?_, fun A M => ?_, fun A M v => ?_⟩
  · exact ⟨Mat22.mul_mulVec A B v, Mat23.mul_apply M N v, Mat23.mat22_mul_apply A M v,
      Mat23.mul_mat22_apply M A v⟩
  · rw [VecExpr.eval_eq, VecExpr.eval_eq, hf, hv]
  · rw [Factor.denote_eval, Factor.denote_eval, h]
  · constructor
    · exact Mat23.ext rfl (add_zero (A * M.trans)).symm
    · refine Mat23.ext rfl ?_
      show M.trans = M.rot * (0 : Vec2 K) + M.trans
      rw [Mat22.mulVec_zero, zero_add]
  · refine ⟨⟨one_mul M, mul_one M, Mat23.one_apply v, ?_, ?_⟩, one_mul A, mul_one A,
      Mat22.one_mulVec v, ?_, ?_⟩
    · exact Mat23.ext (one_mul A) rfl
    · exact Mat23.ext (mul_one A) (Mat22.mulVec_zero A)
    · exact Mat23.ext (one_mul M.rot) (Mat22.one_mulVec M.trans)
    · exact Mat23.ext (mul_one M.rot) rfl

/-! ## Inverse -/

namespace Mat23

theorem inverse_mul_self {m : Mat23 K} (h : m.rot.determinant ≠ 0) : m.inverse * m = 1 := by
  refine Mat23.ext (Mat22.inverse_mul_self h) ?_
  show m.rot.inverse * m.trans + -m.rot.inverse * m.trans = 0
  rw [Mat22.neg_mulVec, add_neg_cancel]

/-- `inverse` inverts the transforms whose matrix has a non-zero determinant. -/
theorem invertsOn : Inverses.InvertsOn (fun m : Mat23 K => m.rot.determinant ≠ 0) inverse where
  inv_mul_self := inverse_mul_self
  inv_closed := Mat22.determinant_inverse_ne_zero
  mul_closed := Mat22.invertsOn.mul_closed

end Mat23

/-- **The affine inverse undoes the transform**, on both sides; it is an involution and reverses
products. -/
theorem affine_inverse (M N : Mat23 K) (hM : M.rot.determinant ≠ 0) (hN : N.rot.determinant ≠ 0)
    (v : Vec2 K) :
    (M.inverse * (M * v) = v ∧ M * (M.inverse * v) = v) ∧
    (M.inverse * M = ⟨Mat22.identity, Vec2.zero⟩ ∧ M * M.inverse = ⟨Mat22.identity, Vec2.zero⟩) ∧
    M.inverse.inverse = M ∧ (M * N).inverse = N.inverse * M.inverse := by
  have hleft : M.inverse * M = 1 := Mat23.inverse_mul_self hM
  have hright : M * M.inverse = 1 := Mat23.invertsOn.mul_inv_self hM
  refine ⟨⟨?_, ?_⟩, ⟨hleft, hright⟩, Mat23.invertsOn.inv_inv hM, Mat23.invertsOn.inv_mul hM hN⟩
  · rw [← Mat23.mul_apply, hleft, Mat23.one_apply]
  · rw [← Mat23.mul_apply, hright, Mat23.one_apply]

/-- A shear and a scaling, both with a translation. -/
theorem affine_inverse_shear :
    let M : Mat23 ℚ := ⟨⟨⟨1, 0⟩, ⟨3, 1⟩⟩, ⟨5, 7⟩⟩
    let N : Mat23 ℚ := ⟨⟨⟨2, 0⟩, ⟨0, -1⟩⟩, ⟨0, 4⟩⟩
    M.inverse * (M * (⟨1, 2⟩ : Vec2 ℚ)) = ⟨1, 2⟩ ∧ (M * N).inverse = N.inverse * M.inverse := by
  intro M N
  have h := affine_inverse M N (by decide +kernel) (by decide +kernel) ⟨1, 2⟩
  exact ⟨h.1.1, h.2.2.2⟩

end BoomEd
