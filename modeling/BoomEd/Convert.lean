import BoomEd.Union
import BoomEd.Lib.Trunc
import Mathlib.Data.Rat.Floor
/-!
# Conversions between scalar types (vec2.h:48-51, box2.h:38-41)

`vec2<T>(vec2<U>)` casts each coordinate and `box2<T>(box2<U>)` casts the two corners; neither looks
at the half-open convention. A cast never reverses the order, so the corners stay sorted and a point
of the box never leaves the closed box; but a cast that truncates can put points just below the upper
edge onto it. `convert_keeps_points` says for which boxes it does.

| here | there |
| --- | --- |
| `ScalarType`    | the types a `Scalar` template parameter ranges over (concepts.h:6-10) |
| `Value K U`     | the values of `U`; the real types are exact, over an ordered field `K` |
| `staticCast T`  | `static_cast<T>(…)`, `none` where a real value has no integer in `T` |
| `Vec2.convert`, `Box2.convert` | the converting constructors |
-/

namespace BoomEd

open Cxx Trunc

inductive ScalarType where
  | integral (t : IntType)
  | real
deriving DecidableEq

variable {K : Type}

@[reducible] def Value (K : Type) : ScalarType → Type
  | .integral t => SInt t
  | .real => K

instance [LinearOrder K] (U : ScalarType) : LinearOrder (Value K U) :=
  match U with
  | .integral t => inferInstanceAs (LinearOrder (SInt t))
  | .real => inferInstanceAs (LinearOrder K)

/-- The conversion from `U` to `T` drops fractions. -/
def Truncates (U T : ScalarType) : Prop := U = .real ∧ T ≠ .real

namespace Value

variable [Field K] [LinearOrder K] [FloorRing K] {U : ScalarType}

/-- The integer a cast to an integral type starts from. -/
def toInt : {U : ScalarType} → Value K U → ℤ
  | .integral _, v => SInt.val v
  | .real, v => trunc v

/-- The value as a real number. -/
def toReal : {U : ScalarType} → Value K U → K
  | .integral _, v => (SInt.val v : K)
  | .real, v => v

/-- `static_cast<T>(v)`: modular between integral types, truncating from a real type to an integral
one and undefined where the integer does not fit. -/
def staticCast : {U : ScalarType} → (T : ScalarType) → Value K U → Option (Value K T)
  | _, .real, v => some v.toReal
  | .integral _, .integral t, v => some (SInt.wrap t (SInt.val v))
  | .real, .integral t, v => if t.InRange (trunc v) then some (SInt.wrap t (trunc v)) else none

/-- After the cast the coordinate lies in the range of `T`. -/
def Fits (T : ScalarType) (v : Value K U) : Prop :=
  match T with
  | .integral t => t.InRange v.toInt
  | .real => True

instance (T : ScalarType) (v : Value K U) : Decidable (v.Fits T) :=
  match T with
  | .integral t => inferInstanceAs (Decidable (t.InRange v.toInt))
  | .real => inferInstanceAs (Decidable True)

/-- A whole number above zero. -/
def PosWhole (v : Value K U) : Prop := ∃ n : ℤ, 0 < n ∧ v.toReal = n

/-- What the cast yields where it fits. -/
def cast (T : ScalarType) (v : Value K U) : Value K T :=
  match T with
  | .integral t => SInt.wrap t v.toInt
  | .real => v.toReal

theorem staticCast_of_fits {T : ScalarType} {v : Value K U} (h : v.Fits T) :
    v.staticCast T = some (v.cast T) := by
  cases T with
  | real => cases U <;> rfl
  | integral t =>
    cases U with
    | integral s => rfl
    | real => exact if_pos h

theorem cast_integral_val {t : IntType} {v : Value K U} (h : v.Fits (.integral t)) :
    SInt.val (v.cast (.integral t)) = v.toInt := by
  show (SInt.wrap t v.toInt).val = v.toInt
  rw [SInt.wrap_of_inRange h]

/-! ## A cast and the order -/

section Order
variable [IsStrictOrderedRing K]

theorem toReal_le_iff {v w : Value K U} : v.toReal ≤ w.toReal ↔ v ≤ w := by
  cases U with
  | integral s => exact Int.cast_le
  | real => exact Iff.rfl

theorem toReal_lt_iff {v w : Value K U} : v.toReal < w.toReal ↔ v < w := by
  cases U with
  | integral s => exact Int.cast_lt
  | real => exact Iff.rfl

theorem toInt_mono {v w : Value K U} (h : v ≤ w) : v.toInt ≤ w.toInt := by
  cases U with
  | integral s => exact h
  | real => exact trunc_mono h

theorem fits_of_between {T : ScalarType} {l v h : Value K U} (hl : l.Fits T) (hh : h.Fits T)
    (hlv : l ≤ v) (hvh : v ≤ h) : v.Fits T := by
  cases T with
  | real => trivial
  | integral t => exact ⟨hl.1.trans (toInt_mono hlv), (toInt_mono hvh).trans_lt hh.2⟩

theorem cast_le_cast {T : ScalarType} {v w : Value K U} (hv : v.Fits T) (hw : w.Fits T)
    (h : v ≤ w) : v.cast T ≤ w.cast T := by
  cases T with
  | real => exact toReal_le_iff.2 h
  | integral t =>
    show SInt.val _ ≤ SInt.val _
    rw [cast_integral_val hv, cast_integral_val hw]
    exact toInt_mono h

/-- Only a cast that truncates can identify two values. -/
theorem cast_lt_cast {T : ScalarType} (hT : ¬ Truncates U T) {v w : Value K U} (hv : v.Fits T)
    (hw : w.Fits T) (h : v < w) : v.cast T < w.cast T := by
  cases T with
  | real => exact toReal_lt_iff.2 h
  | integral t =>
    cases U with
    | real => exact absurd ⟨rfl, by simp⟩ hT
    | integral s =>
      show SInt.val _ < SInt.val _
      rw [cast_integral_val hv, cast_integral_val hw]
      exact h

/-- **When the excluded edge stays excluded.** On `[l, h)` the cast stays below the cast of `h` just
when it does not truncate, or `h` is a whole number above zero. -/
theorem cast_lt_edge_iff {T : ScalarType} {l h : Value K U} (hlh : l < h) (hl : l.Fits T)
    (hh : h.Fits T) :
    (∀ v, l ≤ v → v < h → v.cast T < h.cast T) ↔ ¬ Truncates U T ∨ h.PosWhole := by
  by_cases hT : Truncates U T
  · rw [or_iff_right (not_not.2 hT)]
    obtain ⟨rfl, hT⟩ := hT
    cases T with
    | real => exact absurd rfl hT
    | integral t =>
      refine Iff.trans ?_ (trunc_lt_trunc_iff hlh)
      refine forall_congr' fun v => forall_congr' fun hlv => forall_congr' fun hvh => ?_
      have hv := fits_of_between hl hh hlv hvh.le
      show SInt.val _ < SInt.val _ ↔ _
      rw [cast_integral_val hv, cast_integral_val hh]
      rfl
  · refine iff_of_true (fun v hlv hvh => ?_) (Or.inl hT)
    exact cast_lt_cast hT (fits_of_between hl hh hlv hvh.le) hh hvh

end Order

end Value

/-! ## Vectors and boxes -/

variable [Field K] [LinearOrder K] [FloorRing K] {U T : ScalarType}

namespace Vec2

/-- vec2.h:51. -/
def convert (T : ScalarType) (v : Vec2 (Value K U)) : Option (Vec2 (Value K T)) := do
  return ⟨← v.x.staticCast T, ← v.y.staticCast T⟩

def Fits (T : ScalarType) (v : Vec2 (Value K U)) : Prop := v.x.Fits T ∧ v.y.Fits T

theorem convert_of_fits {v : Vec2 (Value K U)} (h : v.Fits T) :
    v.convert T = some ⟨v.x.cast T, v.y.cast T⟩ := by
  unfold convert
  rw [Value.staticCast_of_fits h.1, Value.staticCast_of_fits h.2]
  rfl

end Vec2

namespace Box2

/-- box2.h:41. -/
def convert (T : ScalarType) (b : Box2 (Value K U)) : Option (Box2 (Value K T)) := do
  return ⟨← b.min.convert T, ← b.max.convert T⟩

/-- The four coordinates lie in the range of `T` after the cast. -/
def Fits (T : ScalarType) (b : Box2 (Value K U)) : Prop := b.min.Fits T ∧ b.max.Fits T

instance (b : Box2 (Value K U)) : Decidable (b.Fits T) := by unfold Fits Vec2.Fits; infer_instance

/-- The two corners cast. -/
def cast (T : ScalarType) (b : Box2 (Value K U)) : Box2 (Value K T) :=
  ⟨⟨b.min.x.cast T, b.min.y.cast T⟩, b.max.x.cast T, b.max.y.cast T⟩

/-- Every point of `b` converts to a point of its converted box. -/
def PointsKept (T : ScalarType) (b : Box2 (Value K U)) (c : Box2 (Value K T)) : Prop :=
  ∀ r, b.containsPoint r = true → ∃ s, r.convert T = some s ∧ c.containsPoint s = true

theorem convert_of_fits {b : Box2 (Value K U)} (h : b.Fits T) : b.convert T = some (b.cast T) := by
  unfold convert
  rw [Vec2.convert_of_fits h.1, Vec2.convert_of_fits h.2]
  rfl

variable [IsStrictOrderedRing K]

theorem cast_sorted {b : Box2 (Value K U)} (h : b.Fits T) (hb : b.Sorted) : (b.cast T).Sorted :=
  ⟨Value.cast_le_cast h.1.1 h.2.1 hb.1, Value.cast_le_cast h.1.2 h.2.2 hb.2⟩

theorem fits_of_containsPoint {b : Box2 (Value K U)} (h : b.Fits T) {r : Vec2 (Value K U)}
    (hr : b.containsPoint r = true) : r.Fits T := by
  obtain ⟨⟨hx0, hx1⟩, hy0, hy1⟩ := containsPoint_iff.1 hr
  exact ⟨Value.fits_of_between h.1.1 h.2.1 hx0 hx1.le, Value.fits_of_between h.1.2 h.2.2 hy0 hy1.le⟩

/-- A point of the box never leaves the closed converted box. -/
theorem cast_between {b : Box2 (Value K U)} (h : b.Fits T) {r : Vec2 (Value K U)}
    (hr : b.containsPoint r = true) :
    ((b.cast T).min.x ≤ r.x.cast T ∧ r.x.cast T ≤ (b.cast T).max.x) ∧
      (b.cast T).min.y ≤ r.y.cast T ∧ r.y.cast T ≤ (b.cast T).max.y := by
  have hrf := fits_of_containsPoint h hr
  obtain ⟨⟨hx0, hx1⟩, hy0, hy1⟩ := containsPoint_iff.1 hr
  refine ⟨⟨?_, ?_⟩, ?_, ?_⟩
  · exact Value.cast_le_cast h.1.1 hrf.1 hx0
  · exact Value.cast_le_cast hrf.1 h.2.1 hx1.le
  · exact Value.cast_le_cast h.1.2 hrf.2 hy0
  · exact Value.cast_le_cast hrf.2 h.2.2 hy1.le

/-- It is lost on the upper edges only. -/
theorem containsPoint_cast_iff {b : Box2 (Value K U)} (h : b.Fits T) {r : Vec2 (Value K U)}
    (hr : b.containsPoint r = true) :
    (b.cast T).containsPoint ⟨r.x.cast T, r.y.cast T⟩ = true ↔
      r.x.cast T < (b.cast T).max.x ∧ r.y.cast T < (b.cast T).max.y := by
  obtain ⟨⟨hx, -⟩, hy, -⟩ := cast_between h hr
  rw [containsPoint_iff]
  exact and_congr (and_iff_right hx) (and_iff_right hy)

theorem pointsKept_iff {b : Box2 (Value K U)} (h : b.Fits T) :
    b.PointsKept T (b.cast T) ↔ ∀ x y, (x, y) ∈ b.points →
      x.cast T < (b.cast T).max.x ∧ y.cast T < (b.cast T).max.y := by
  constructor
  · intro hall x y hxy
    have hr : b.containsPoint ⟨x, y⟩ = true := mem_points.1 hxy
    obtain ⟨s, hs, hc⟩ := hall _ hr
    rw [Vec2.convert_of_fits (fits_of_containsPoint h hr)] at hs
    cases hs
    exact (containsPoint_cast_iff h hr).1 hc
  · intro hall r hr
    exact ⟨_, Vec2.convert_of_fits (fits_of_containsPoint h hr),
      (containsPoint_cast_iff h hr).2 (hall _ _ (mem_points.2 hr))⟩

theorem pointsKept_iff_edges {b : Box2 (Value K U)} (h : b.Fits T) :
    b.PointsKept T (b.cast T) ↔
      ¬ Truncates U T ∨ b.empty = true ∨ b.max.x.PosWhole ∧ b.max.y.PosWhole := by
  by_cases hb : b.empty = true
  · exact iff_of_true (fun r hr => absurd hr (empty_iff_forall.1 hb r)) (Or.inr (Or.inl hb))
  · obtain ⟨hx, hy⟩ := not_empty_iff.1 hb
    rw [pointsKept_iff h, points, HalfOpen.forall_mem_rect_iff hx hy, or_iff_right hb, or_and_left]
    exact and_congr (Value.cast_lt_edge_iff hx h.1.1 h.2.1) (Value.cast_lt_edge_iff hy h.1.2 h.2.2)

/-- **What converting a box keeps.** The converted box of sorted corners is sorted; a point of the box
converts to a point of the closed converted box, which the half-open one misses only where the point
lands on an upper edge. No point is missed just when the cast does not truncate, the box is empty, or
both upper edges are whole numbers above zero. -/
theorem convert_keeps_points (T : ScalarType) (p q : Vec2 (Value K U))
    (hfit : (ofCorners p q).Fits T) :
    ∃ c, (ofCorners p q).convert T = some c ∧ c.Sorted ∧
      (∀ r, (ofCorners p q).containsPoint r = true → ∃ s, r.convert T = some s ∧
        ((c.min.x ≤ s.x ∧ s.x ≤ c.max.x) ∧ c.min.y ≤ s.y ∧ s.y ≤ c.max.y) ∧
        (c.containsPoint s = true ↔ s.x < c.max.x ∧ s.y < c.max.y)) ∧
      ((ofCorners p q).PointsKept T c ↔
        ¬ Truncates U T ∨ (ofCorners p q).empty = true ∨
          (ofCorners p q).max.x.PosWhole ∧ (ofCorners p q).max.y.PosWhole) :=
  ⟨_, convert_of_fits hfit, cast_sorted hfit (ofCorners_sorted p q),
    fun _ hr => ⟨_, Vec2.convert_of_fits (fits_of_containsPoint hfit hr), cast_between hfit hr,
      containsPoint_cast_iff hfit hr⟩,
    pointsKept_iff_edges hfit⟩

/-- A box of a real type with whole upper edges, over the rationals. -/
theorem convert_keeps_points_whole :
    let b : Box2 (Value ℚ .real) := ofCorners ⟨3, 2⟩ ⟨-1 / 2, 1 / 2⟩
    ∃ c : Box2 (Value ℚ (.integral .int32)), b.convert (.integral .int32) = some c ∧
      b.PointsKept (.integral .int32) c := by
  intro b
  obtain ⟨c, hc, -, -, hkept⟩ :=
    convert_keeps_points (K := ℚ) (U := .real) (.integral .int32) ⟨3, 2⟩ ⟨-1 / 2, 1 / 2⟩
      (by decide +kernel)
  have hx : b.max.x.PosWhole := ⟨3, by decide, by decide +kernel⟩
  have hy : b.max.y.PosWhole := ⟨2, by decide, by decide +kernel⟩
  exact ⟨c, hc, hkept.2 (Or.inr (Or.inr ⟨hx, hy⟩))⟩

/-- `{0,0}, {1.5,1}` converts to `{0,0}, {1,1}` and its point `{1.2,0.5}` to `{1,0}`, on the excluded
edge. -/
theorem convert_loses_point :
    let b : Box2 (Value ℚ .real) := ofCorners ⟨0, 0⟩ ⟨3 / 2, 1⟩
    let r : Vec2 (Value ℚ .real) := ⟨6 / 5, 1 / 2⟩
    b.Fits (.integral .int32) ∧ b.containsPoint r = true ∧
      ∃ c s, b.convert (.integral .int32) = some c ∧ r.convert (.integral .int32) = some s ∧
        c.containsPoint s = false := by
  intro b r
  refine ⟨?_, ?_, b.cast _, ⟨r.x.cast _, r.y.cast _⟩, ?_, ?_, ?_⟩
  · decide +kernel
  · decide +kernel
  · decide +kernel
  · decide +kernel
  · decide +kernel

end Box2

end BoomEd
