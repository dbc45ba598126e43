import BoomEd.Length
import BoomEd.Mat23
import BoomEd.Rotation
/-!
# Rigid motions

Rotations and translations, composed by the overloads of `operator *`: what a chain of them does to
points, distances and directions. `make_sincos` (vec2.h:110-117) is the unit vector of a heading; it has
the sine first, so headings go clockwise from the y axis and a rotation subtracts its angle.

| here | there |
| --- | --- |
| `Vec2.makeSincos`   | vec2.h:110-117 |
| `Motion.toFactor`   | `make_rot` (mat22.h:44), `make_translation` (mat23.h:38), `mat23{m, v}` (mat23.h:29) |
-/

namespace BoomEd

universe u

variable {K : Type u} [Field K]

/-- vec2.h:112. -/
def Vec2.makeSincos (T : Trig K) (angle : K) : Vec2 K := ⟨T.sin angle, T.cos angle⟩

/-- A turn, a shift, or a turn followed by a shift. -/
inductive Motion (K : Type u) where
  | rot (angle : K)
  | trans (t : Vec2 K)
  | both (angle : K) (t : Vec2 K)

namespace Motion

variable (T : Trig K)

def toFactor : Motion K → Factor K
  | rot t => .m22 (Mat22.makeRot T t)
  | trans v => .m23 (Mat23.makeTranslation v)
  | both t v => .m23 ⟨Mat22.makeRot T t, v⟩

def angle : Motion K → K
  | rot t => t
  | trans _ => 0
  | both t _ => t

def shift : Motion K → Vec2 K
  | rot _ => 0
  | trans v => v
  | both _ v => v

theorem apply_toFactor (m : Motion K) (v : Vec2 K) :
    (m.toFactor T).apply v = Mat22.makeRot T m.angle * v + m.shift := by
  cases m with
  | rot t => exact (add_zero _).symm
  | trans w =>
    rw [angle, Mat22.makeRot_zero]
    rfl
  | both t w => rfl

/-- The product of a chain, and the sum of its angles. -/
def product (t : Bracketing (Motion K)) : Factor K :=
  Bracketing.eval Factor.mul (FreeMagma.map (toFactor T) t)

def turn (t : Bracketing (Motion K)) : K := ((Bracketing.leaves t).map angle).sum

theorem apply_product_mul (s t : Bracketing (Motion K)) (v : Vec2 K) :
    (product T (s * t)).apply v = (product T s).apply ((product T t).apply v) :=
  Factor.mul_apply _ _ v

theorem turn_mul (s t : Bracketing (Motion K)) : turn (s * t) = turn s + turn t := by
  rw [turn, Bracketing.leaves_mul, List.map_append, List.sum_append]
  rfl

/-- A chain of motions is one motion, by the sum of the angles. -/
theorem exists_shift (t : Bracketing (Motion K)) :
    ∃ w, ∀ v : Vec2 K, (product T t).apply v = Mat22.makeRot T (turn t) * v + w := by
  induction t with
  | of m =>
    refine ⟨m.shift, fun v => (apply_toFactor T m v).trans ?_⟩
    rw [turn, Bracketing.leaves_of, List.map_singleton, List.sum_singleton]
  | mul s t hs ht =>
    obtain ⟨w, hw⟩ := hs
    obtain ⟨w', hw'⟩ := ht
    refine ⟨Mat22.makeRot T (turn s) * w' + w, fun v => ?_⟩
    calc (product T (s * t)).apply v = (product T s).apply ((product T t).apply v) :=
          apply_product_mul T s t v
      _ = (Mat22.makeRot T (turn s) * Mat22.makeRot T (turn t)) * v +
            (Mat22.makeRot T (turn s) * w' + w) := by
          rw [hw', hw, Mat22.mulVec_add, ← Mat22.mul_mulVec, add_assoc]
      _ = Mat22.makeRot T (turn (s * t)) * v + (Mat22.makeRot T (turn s) * w' + w) := by
          rw [Mat22.makeRot_mul, turn_mul]

/-- What a chain does to the way from one point to another. -/
theorem product_sub (t : Bracketing (Motion K)) (a b : Vec2 K) :
    (product T t).apply b - (product T t).apply a = Mat22.makeRot T (turn t) * (b - a) := by
  obtain ⟨w, hw⟩ := exists_shift T t
  rw [hw, hw, add_sub_add_right_eq_sub]
  exact ((Mat22.makeRot T (turn t)).toLin.map_sub b a).symm

/-- Opposite turns cancel. -/
theorem makeRot_mulVec_cancel {s t : K} (h : s + t = 0) (v : Vec2 K) :
    Mat22.makeRot T s * (Mat22.makeRot T t * v) = v := by
  rw [← Mat22.mul_mulVec, Mat22.makeRot_mul, h, Mat22.makeRot_zero, Mat22.one_mulVec]

/-- The motion back. -/
theorem exists_inverse (t : Bracketing (Motion K)) :
    ∃ g : Motion K, g.angle = -turn t ∧ ∀ v : Vec2 K,
      (g.toFactor T).apply ((product T t).apply v) = v ∧
        (product T t).apply ((g.toFactor T).apply v) = v := by
  obtain ⟨w, hw⟩ := exists_shift T t
  refine ⟨both (-turn t) (Mat22.makeRot T (-turn t) * -w), rfl, fun v => ⟨?_, ?_⟩⟩
  · rw [hw, apply_toFactor]
    show Mat22.makeRot T (-turn t) * (Mat22.makeRot T (turn t) * v + w) +
      Mat22.makeRot T (-turn t) * -w = v
    rw [← Mat22.mulVec_add, add_neg_cancel_right, makeRot_mulVec_cancel T (neg_add_cancel _)]
  · rw [hw, apply_toFactor]
    show Mat22.makeRot T (turn t) * (Mat22.makeRot T (-turn t) * v +
      Mat22.makeRot T (-turn t) * -w) + w = v
    rw [← Mat22.mulVec_add, makeRot_mulVec_cancel T (add_neg_cancel _), neg_add_cancel_right]

/-! ## Headings -/

theorem makeRot_mulVec_makeSincos (s t : K) :
    Mat22.makeRot T s * Vec2.makeSincos T t = Vec2.makeSincos T (t - s) := by
  rw [sub_eq_add_neg]
  ext
  · simp [Mat22.makeRot, Vec2.makeSincos, T.sin_add, T.sin_neg, T.cos_neg]
    ring
  · simp [Mat22.makeRot, Vec2.makeSincos, T.cos_add, T.sin_neg, T.cos_neg]
    ring

theorem realDot_makeSincos (s t : K) :
    Vec2.realDot (Vec2.makeSincos T s) (Vec2.makeSincos T t) = T.cos (s - t) := by
  rw [sub_eq_add_neg s t, T.cos_add, T.sin_neg, T.cos_neg, Vec2.realDot_eq]
  simp only [Vec2.makeSincos]
  ring

theorem realCross_makeSincos (s t : K) :
    Vec2.realCross (Vec2.makeSincos T s) (Vec2.makeSincos T t) = T.sin (s - t) := by
  rw [sub_eq_add_neg s t, T.sin_add, T.sin_neg, T.cos_neg, Vec2.realCross_eq]
  simp only [Vec2.makeSincos]
  ring

end Motion

/-! ## Lengths -/

section Length

variable [LinearOrder K] [IsStrictOrderedRing K] [ExactSqrt K]

/-- A matrix that preserves `dot` preserves lengths and turns directions. -/
theorem Mat22.Rigid.realLen {m : Mat22 K} (h : m.Rigid) (v : Vec2 K) :
    Vec2.realLen (m * v) = Vec2.realLen v := by
  have hdot : Vec2.realDot (m * v) (m * v) = Vec2.realDot v v := Option.some.inj (h.dot v v)
  refine Vec2.realLen_eq_iff.2 ⟨Vec2.realLen_nonneg v, ?_⟩
  rw [Vec2.realLen_mul_self, hdot]

theorem Mat22.Rigid.normalised {m : Mat22 K} (h : m.Rigid) (v : Vec2 K) :
    Vec2.normalised (m * v) = (Vec2.normalised v).map m.mulVec := by
  rw [Vec2.normalised_eq, Vec2.normalised_eq, Vec2.realNormalised_eq, h.realLen,
    Vec2.realNormalised_eq, ← Mat22.mulVec_smul]
  rfl

namespace Motion

variable (T : Trig K)

/-- **Chains of rotations and translations are rigid motions.** For every product of rotations,
translations and both in one, in every bracketing: distances and signed areas stay, directions turn by
the sum of the angles, and one motion, by the opposite angle, undoes the chain on both sides. -/
theorem motions_rigid (t : Bracketing (Motion K)) :
    (∀ a b : Vec2 K, Vec2.distance ((product T t).apply a) ((product T t).apply b) =
      Vec2.distance a b) ∧
    (∀ a b c : Vec2 K, Vec2.cross ((product T t).apply b - (product T t).apply a)
        ((product T t).apply c - (product T t).apply a) = Vec2.cross (b - a) (c - a)) ∧
    (∀ a b : Vec2 K, Vec2.normalised ((product T t).apply b - (product T t).apply a) =
      (Vec2.normalised (b - a)).map (Mat22.makeRot T (turn t)).mulVec) ∧
    ∃ g : Motion K, g.angle = -turn t ∧ ∀ v : Vec2 K,
      (g.toFactor T).apply ((product T t).apply v) = v ∧
        (product T t).apply ((g.toFactor T).apply v) = v := by
  have hrigid := Mat22.makeRot_rigid T (turn t)
  refine ⟨fun a b => ?_, fun a b c => ?_, fun a b => ?_, exists_inverse T t⟩
  · show some (Vec2.realLen ((product T t).apply b - (product T t).apply a)) =
      some (Vec2.realLen (b - a))
    rw [product_sub, hrigid.realLen]
  · rw [product_sub, product_sub, hrigid.cross]
  · rw [product_sub, hrigid.normalised]

/-- A quarter turn about the origin after a shift keeps the distance of the ends of a 3-4-5 triangle. -/
theorem motions_rigid_quarter :
    let m : Bracketing (Motion ℝ) := FreeMagma.of (.rot (Real.pi / 2)) * FreeMagma.of (.trans ⟨7, 0⟩)
    Vec2.distance ((product Trig.real m).apply 0) ((product Trig.real m).apply ⟨3, 4⟩) =
      some (5 : ℝ) := by
  intro m
  obtain ⟨hdist, -⟩ := motions_rigid Trig.real m
  have hlen : Vec2.realLen ((⟨3, 4⟩ : Vec2 ℝ) - 0) = 5 := by
    rw [Vec2.realLen_eq_iff]
    norm_num [Vec2.realDot_eq]
  rw [hdist, ← hlen]
  rfl

/-- **Headings.** `make_sincos` gives unit vectors, which `normalised` fixes; the dot and the cross
product of two of them are the cosine and the sine of the angle from the second to the first. A step of
any length under a heading becomes, after any chain of rotations and translations, the step of that
length under the heading less the sum of the angles. -/
theorem headings_turn :
    (∀ t : K, Vec2.len (Vec2.makeSincos T t) = some 1 ∧
      Vec2.normalised (Vec2.makeSincos T t) = some (Vec2.makeSincos T t)) ∧
    (∀ s t : K, Vec2.dot (Vec2.makeSincos T s) (Vec2.makeSincos T t) = some (T.cos (s - t)) ∧
      Vec2.cross (Vec2.makeSincos T s) (Vec2.makeSincos T t) = some (T.sin (s - t))) ∧
    ∀ (m : Bracketing (Motion K)) (a : Vec2 K) (r t : K),
      (product T m).apply (a + r • Vec2.makeSincos T t) =
        (product T m).apply a + r • Vec2.makeSincos T (t - turn m) := by
  have hlen : ∀ t : K, Vec2.realLen (Vec2.makeSincos T t) = 1 := fun t => by
    refine Vec2.realLen_eq_iff.2 ⟨zero_le_one, ?_⟩
    rw [realDot_makeSincos, sub_self, T.cos_zero, one_mul]
  refine ⟨fun t => ⟨congrArg some (hlen t), ?_⟩, fun s t => ⟨congrArg some (realDot_makeSincos T s t),
    congrArg some (realCross_makeSincos T s t)⟩, fun m a r t => ?_⟩
  · rw [Vec2.normalised_eq, Vec2.realNormalised_eq, hlen, inv_one, one_smul]
  · have h := product_sub T m a (a + r • Vec2.makeSincos T t)
    rw [add_sub_cancel_left, Mat22.mulVec_smul, makeRot_mulVec_makeSincos] at h
    rw [← h, add_sub_cancel]

/-- A quarter turn to the left makes north west. -/
theorem headings_turn_quarter :
    (product Trig.real (FreeMagma.of (.rot (Real.pi / 2)))).apply (0 + (2 : ℝ) • Vec2.makeSincos Trig.real 0) =
      ⟨-2, 0⟩ := by
  rw [(headings_turn Trig.real).2.2]
  ext <;>
    simp [product, turn, Vec2.makeSincos, Trig.real, toFactor, angle, Factor.apply, Mat22.mulVec_zero]

end Motion

end Length

end BoomEd
