import Mathlib.Algebra.Group.Basic
/-!
# Inverses on part of a monoid

An operation `inv` that inverts the elements of a subset `p` from the left, and maps `p` into itself,
inverts them on both sides: an element is the right inverse of its inverse, whose own inverse it must
then be. It is an involution of `p` and reverses products.
-/

namespace Inverses

universe u

variable {M : Type u} [Monoid M] {p : M → Prop} {inv : M → M}

/-- `inv` is a left inverse on `p`, which it and the product preserve. -/
structure InvertsOn (p : M → Prop) (inv : M → M) : Prop where
  inv_mul_self : ∀ {a}, p a → inv a * a = 1
  inv_closed : ∀ {a}, p a → p (inv a)
  mul_closed : ∀ {a b}, p a → p b → p (a * b)

namespace InvertsOn

variable {a b : M}

/-- A right inverse is the inverse. -/
theorem inv_eq_of_mul (h : InvertsOn p inv) (ha : p a) (e : a * b = 1) : inv a = b :=
  left_inv_eq_right_inv (h.inv_mul_self ha) e

theorem inv_inv (h : InvertsOn p inv) (ha : p a) : inv (inv a) = a :=
  h.inv_eq_of_mul (h.inv_closed ha) (h.inv_mul_self ha)

theorem mul_inv_self (h : InvertsOn p inv) (ha : p a) : a * inv a = 1 := by
  have hleft := h.inv_mul_self (h.inv_closed ha)
  rwa [h.inv_inv ha] at hleft

theorem inv_mul (h : InvertsOn p inv) (ha : p a) (hb : p b) : inv (a * b) = inv b * inv a := by
  apply h.inv_eq_of_mul (h.mul_closed ha hb)
  calc a * b * (inv b * inv a) = a * (b * inv b) * inv a := by simp only [mul_assoc]
    _ = a * inv a := by rw [h.mul_inv_self hb, mul_one]
    _ = 1 := h.mul_inv_self ha

end InvertsOn

end Inverses
