import BoomEd.Box2
/-!
# `box2::center` (box2.h:49-53) and the quadrants it makes

`center` is `min + (max - min) / 2`: it avoids the overflow of `min + max`, at the price of one in
`max - min` when the box is wider than half the coordinate range (`center_inside_iff`). Where the
extent is representable, the centre cuts the box into four quadrants, the corner constructor applied
to each corner and the centre, and descending into the quadrant of a point ends at a one-by-one box
(`center_splits_box`).
-/

namespace BoomEd.Box2

open Cxx HalfOpen

universe u

/-! ## Quadrants around any point of the closed box -/

section Quadrant
variable {T : Type u} [LinearOrder T]

/-- One of the four corners of a box: a side on each axis. -/
abbrev Corner := Side × Side

def corner (b : Box2 T) (k : Corner) : Vec2 T :=
  ⟨k.1.pick b.min.x b.max.x, k.2.pick b.min.y b.max.y⟩

/-- `box2{k, c}`: the corner constructor sorts the corner and the centre. -/
def quadrant (b : Box2 T) (c : Vec2 T) (k : Corner) : Box2 T := ofCorners (b.corner k) c

/-- `c` lies between the corners, the upper edges included. -/
def Between (b : Box2 T) (c : Vec2 T) : Prop :=
  (b.min.x ≤ c.x ∧ c.x ≤ b.max.x) ∧ b.min.y ≤ c.y ∧ c.y ≤ b.max.y

theorem between_of_containsPoint {b : Box2 T} {c : Vec2 T} (h : b.containsPoint c = true) :
    b.Between c := by
  obtain ⟨⟨h1, h2⟩, h3, h4⟩ := containsPoint_iff.1 h
  exact ⟨⟨h1, h2.le⟩, h3, h4.le⟩

theorem quadrant_eq {b : Box2 T} {c : Vec2 T} (h : b.Between c) (k : Corner) :
    b.quadrant c k = ⟨⟨k.1.pick b.min.x c.x, k.2.pick b.min.y c.y⟩,
      ⟨k.1.pick c.x b.max.x, k.2.pick c.y b.max.y⟩⟩ := by
  obtain ⟨⟨h1, h2⟩, h3, h4⟩ := h
  ext
  · exact min_pick h1 h2 k.1
  · exact min_pick h3 h4 k.2
  · exact max_pick h1 h2 k.1
  · exact max_pick h3 h4 k.2

theorem containsPoint_quadrant {b : Box2 T} {c : Vec2 T} (h : b.Between c) {k : Corner} {p : Vec2 T} :
    (b.quadrant c k).containsPoint p = true ↔
      p.x ∈ part b.min.x c.x b.max.x k.1 ∧ p.y ∈ part b.min.y c.y b.max.y k.2 := by
  rw [quadrant_eq h, containsPoint_iff]
  rfl

/-- Each point of the box is in exactly one quadrant. -/
theorem existsUnique_quadrant {b : Box2 T} {c p : Vec2 T} (h : b.Between c)
    (hp : b.containsPoint p = true) : ∃! k, (b.quadrant c k).containsPoint p = true := by
  obtain ⟨hx, hy⟩ := containsPoint_iff.1 hp
  obtain ⟨sx, hsx, ux⟩ := existsUnique_mem_part (c := c.x) hx
  obtain ⟨sy, hsy, uy⟩ := existsUnique_mem_part (c := c.y) hy
  refine ⟨(sx, sy), (containsPoint_quadrant h).2 ⟨hsx, hsy⟩, fun k hk => ?_⟩
  obtain ⟨kx, ky⟩ := (containsPoint_quadrant h).1 hk
  exact Prod.ext (ux _ kx) (uy _ ky)

theorem containsPoint_of_quadrant {b : Box2 T} {c p : Vec2 T} (h : b.Between c) {k : Corner}
    (hp : (b.quadrant c k).containsPoint p = true) : b.containsPoint p = true := by
  obtain ⟨kx, ky⟩ := (containsPoint_quadrant h).1 hp
  obtain ⟨⟨h1, h2⟩, h3, h4⟩ := h
  exact containsPoint_iff.2 ⟨part_subset h1 h2 _ kx, part_subset h3 h4 _ ky⟩

theorem not_intersects_quadrant {b : Box2 T} {c : Vec2 T} (h : b.Between c) {j k : Corner}
    (hjk : j ≠ k) : ¬ (b.quadrant c j).intersects (b.quadrant c k) = true := by
  intro hi
  obtain ⟨p, hj, hk⟩ := intersects_iff_exists.1 hi
  have hb := containsPoint_of_quadrant h hj
  exact hjk ((existsUnique_quadrant h hb).unique hj hk)

theorem contains_quadrant {b : Box2 T} {c : Vec2 T} (h : b.Between c) {k : Corner}
    (hne : ¬ (b.quadrant c k).empty = true) : b.contains (b.quadrant c k) = true :=
  contains_iff_points.2 ⟨points_nonempty_iff.2 hne,
    points_subset_iff_forall.2 fun _ => containsPoint_of_quadrant h⟩

end Quadrant

/-! ## The centre of an integer box -/

section SInt
variable {t : IntType}

def width (b : Box2 (SInt t)) : Int := b.max.x.val - b.min.x.val
def height (b : Box2 (SInt t)) : Int := b.max.y.val - b.min.y.val

/-- The extent of the box is representable in its scalar type. -/
def ExtentFits (b : Box2 (SInt t)) : Prop := t.InRange b.width ∧ t.InRange b.height

theorem pos_of_not_empty {b : Box2 (SInt t)} (h : ¬ b.empty = true) : 0 < b.width ∧ 0 < b.height := by
  obtain ⟨hx, hy⟩ := not_empty_iff.1 h
  rw [SInt.lt_iff] at hx hy
  unfold width height
  omega

theorem lit_val {n : Int} (h : t.InRange n) : (Arith.lit n : SInt t).val = n :=
  congrArg SInt.val (SInt.wrap_of_inRange h)

theorem two_inRange (t : IntType) : t.InRange 2 := by
  have := t.half_ge
  unfold IntType.InRange
  omega

/-- One axis of `min + (max - min) / 2`. -/
theorem middle_eval {l h : SInt t} (hlh : l < h) (hfit : t.InRange (h.val - l.val)) :
    ∃ e d c, SInt.sub h l = some e ∧ SInt.div e (Arith.lit 2) = some d ∧ SInt.add l d = some c ∧
      c.val = l.val + (h.val - l.val) / 2 := by
  rw [SInt.lt_iff] at hlh
  have h2 : (Arith.lit 2 : SInt t).val = 2 := lit_val (two_inRange t)
  have hdiv : (h.val - l.val).tdiv 2 = (h.val - l.val) / 2 := Int.tdiv_eq_ediv_of_nonneg (by omega)
  have hl := l.inRange
  have hh := h.inRange
  have hd : t.InRange ((h.val - l.val) / 2) := by unfold IntType.InRange at *; omega
  have hc : t.InRange (l.val + (h.val - l.val) / 2) := by unfold IntType.InRange at *; omega
  refine ⟨⟨_, hfit⟩, ⟨_, hd⟩, ⟨_, hc⟩, SInt.ofExpr_of_inRange hfit, ?_, SInt.ofExpr_of_inRange hc, rfl⟩
  rw [SInt.div, h2, if_neg (by decide), hdiv]
  exact SInt.ofExpr_of_inRange hd

/-- Where the extent is representable, `center` is defined and exact. -/
theorem center_eval {b : Box2 (SInt t)} (hne : ¬ b.empty = true) (hfit : b.ExtentFits) :
    ∃ c, b.center = some c ∧ c.x.val = b.min.x.val + b.width / 2 ∧
      c.y.val = b.min.y.val + b.height / 2 := by
  obtain ⟨hx, hy⟩ := not_empty_iff.1 hne
  obtain ⟨ex, dx, cx, h1, h2, h3, hcx⟩ := middle_eval hx hfit.1
  obtain ⟨ey, dy, cy, g1, g2, g3, hcy⟩ := middle_eval hy hfit.2
  refine ⟨⟨cx, cy⟩, ?_, hcx, hcy⟩
  simp [center, Vec2.sub, Vec2.sdiv, Vec2.add, Arith.sub, Arith.div, Arith.add, h1, h2, h3, g1, g2, g3]

/-- From `int` upwards an unrepresentable extent overflows in `max - min`. -/
theorem center_undefined {b : Box2 (SInt t)} (ht : 32 ≤ t.width) (h : ¬ b.ExtentFits) :
    b.center = none := by
  have hsub : Vec2.sub b.max b.min = none := Vec2.sub_undefined ht h
  simp [center, hsub]

theorem containsPoint_of_middle {b : Box2 (SInt t)} (hne : ¬ b.empty = true) {c : Vec2 (SInt t)}
    (hx : c.x.val = b.min.x.val + b.width / 2) (hy : c.y.val = b.min.y.val + b.height / 2) :
    b.containsPoint c = true := by
  obtain ⟨hw, hh⟩ := pos_of_not_empty hne
  have mx := (middle_part_le (l := b.min.x.val) (h := b.max.x.val) (by unfold width at hw; omega) .lo).1
  have my := (middle_part_le (l := b.min.y.val) (h := b.max.y.val) (by unfold height at hh; omega) .lo).1
  rw [containsPoint_iff, SInt.le_iff, SInt.lt_iff, SInt.le_iff, SInt.lt_iff, hx, hy]
  exact ⟨mx, my⟩

/-- **When the centre is inside.** For a non-empty `int` box, `center()` evaluates without signed
overflow to a point of the box just when both extents are representable. -/
theorem center_inside_iff (b : Box2 (SInt IntType.int32)) (hne : ¬ b.empty = true) :
    (∃ c, b.center = some c ∧ b.containsPoint c = true) ↔
      IntType.int32.InRange (b.max.x.val - b.min.x.val) ∧
      IntType.int32.InRange (b.max.y.val - b.min.y.val) := by
  constructor
  · rintro ⟨c, hc, -⟩
    by_contra hfit
    rw [center_undefined (by decide) hfit] at hc
    cases hc
  · intro hfit
    obtain ⟨c, hc, hx, hy⟩ := center_eval hne hfit
    exact ⟨c, hc, containsPoint_of_middle hne hx hy⟩

/-- One unit above half the range is enough to overflow. -/
theorem center_inside_iff_wide :
    let b : Box2 (SInt IntType.int32) :=
      ⟨⟨Arith.lit (-1), Arith.lit 0⟩, ⟨Arith.lit 2147483647, Arith.lit 1⟩⟩
    ¬ b.empty = true ∧ ¬ ∃ c, b.center = some c ∧ b.containsPoint c = true := by
  intro b
  have hc : b.center = none := by decide
  refine ⟨by decide, ?_⟩
  rintro ⟨c, h, -⟩
  rw [hc] at h
  cases h

theorem center_inside_iff_unit :
    let b : Box2 (SInt IntType.int32) :=
      ⟨⟨Arith.lit (-3), Arith.lit 4⟩, ⟨Arith.lit (-2), Arith.lit 9⟩⟩
    ∃ c, b.center = some c ∧ b.containsPoint c = true := by
  intro b
  exact (center_inside_iff b (by decide)).2 (by decide)

/-! ## Descending into the quadrant of a point -/

def corners : List Corner := [(.lo, .lo), (.hi, .lo), (.lo, .hi), (.hi, .hi)]

theorem mem_corners (k : Corner) : k ∈ corners := by
  obtain ⟨sx, sy⟩ := k
  cases sx <;> cases sy <;> decide

/-- The quadrant around the centre that holds `p`. -/
def descend (p : Vec2 (SInt t)) (b : Box2 (SInt t)) : Option (Box2 (SInt t)) := do
  let c ← b.center
  (corners.map (b.quadrant c)).find? fun q => q.containsPoint p

def descendN (p : Vec2 (SInt t)) : Nat → Box2 (SInt t) → Option (Box2 (SInt t))
  | 0, b => some b
  | n + 1, b => do
    let q ← descend p b
    descendN p n q

theorem quadrant_extent {b : Box2 (SInt t)} (hne : ¬ b.empty = true) {c : Vec2 (SInt t)}
    (hx : c.x.val = b.min.x.val + b.width / 2) (hy : c.y.val = b.min.y.val + b.height / 2)
    (k : Corner) :
    2 * (b.quadrant c k).width ≤ b.width + 1 ∧ 2 * (b.quadrant c k).height ≤ b.height + 1 := by
  obtain ⟨hw, hh⟩ := pos_of_not_empty hne
  have hpick : ∀ (s : Side) (u v : SInt t), (s.pick u v).val = s.pick u.val v.val := by
    intro s u v
    cases s <;> rfl
  rw [quadrant_eq (between_of_containsPoint (containsPoint_of_middle hne hx hy))]
  unfold width height at *
  simp only [hpick, hx, hy]
  exact ⟨(middle_part_le (by omega) k.1).2, (middle_part_le (by omega) k.2).2⟩

/-- One descent: the quadrant exists, holds the point, and halves both extents, rounded up. -/
theorem descend_step {b : Box2 (SInt t)} {p : Vec2 (SInt t)} (hp : b.containsPoint p = true)
    (hfit : b.ExtentFits) :
    ∃ q, descend p b = some q ∧ q.containsPoint p = true ∧ q.ExtentFits ∧
      2 * q.width ≤ b.width + 1 ∧ 2 * q.height ≤ b.height + 1 := by
  have hne : ¬ b.empty = true := points_nonempty_iff.1 ⟨_, mem_points.2 hp⟩
  obtain ⟨c, hc, hx, hy⟩ := center_eval hne hfit
  have hbet := between_of_containsPoint (containsPoint_of_middle hne hx hy)
  obtain ⟨k, hk, -⟩ := existsUnique_quadrant hbet hp
  obtain ⟨q, hq⟩ : ∃ q, (corners.map (b.quadrant c)).find? (fun q => q.containsPoint p) = some q := by
    rw [← Option.isSome_iff_exists, List.find?_isSome]
    exact ⟨_, List.mem_map_of_mem (mem_corners k), hk⟩
  have hqp : q.containsPoint p = true := by simpa using List.find?_some hq
  obtain ⟨j, -, rfl⟩ := List.mem_map.1 (List.mem_of_find?_eq_some hq)
  have hext := quadrant_extent hne hx hy j
  have hpos := pos_of_not_empty (points_nonempty_iff.1 ⟨_, mem_points.2 hqp⟩)
  have hb := pos_of_not_empty hne
  refine ⟨_, by rw [descend, hc]; exact hq, hqp, ?_, hext⟩
  obtain ⟨hw, hh⟩ := hfit
  unfold ExtentFits IntType.InRange at *
  omega

/-- `n` descents take a box of extents at most `2^n` to one-by-one. -/
theorem descendN_unit {p : Vec2 (SInt t)} : ∀ (n : Nat) {b : Box2 (SInt t)}, b.containsPoint p = true →
    b.ExtentFits → b.width ≤ 2 ^ n → b.height ≤ 2 ^ n →
    ∃ q, descendN p n b = some q ∧ q.containsPoint p = true ∧ q.width = 1 ∧ q.height = 1
  | 0, b, hp, _, hw, hh => by
    have hpos := pos_of_not_empty (points_nonempty_iff.1 ⟨_, mem_points.2 hp⟩)
    refine ⟨b, rfl, hp, ?_, ?_⟩ <;> omega
  | n + 1, b, hp, hfit, hw, hh => by
    obtain ⟨q, hq, hqp, hqfit, hqw, hqh⟩ := descend_step hp hfit
    obtain ⟨r, hr, hrest⟩ := descendN_unit n hqp hqfit (le_two_pow_of_halved hw hqw)
      (le_two_pow_of_halved hh hqh)
    exact ⟨r, by simp [descendN, hq, hr], hrest⟩

/-- **The centre splits the box.** For a non-empty box of representable extent the four quadrants
around the centre partition its points, lie inside it and do not intersect; each extent is at most
half, rounded up, so that repeated descent into the quadrant of a fixed point ends at a one-by-one
box. -/
theorem center_splits_box (b : Box2 (SInt t)) (hne : ¬ b.empty = true)
    (hx : t.InRange (b.max.x.val - b.min.x.val)) (hy : t.InRange (b.max.y.val - b.min.y.val)) :
    ∃ c, b.center = some c ∧
      (∀ p, b.containsPoint p = true → ∃! k, (b.quadrant c k).containsPoint p = true) ∧
      (∀ p, ¬ b.containsPoint p = true → ∀ k, ¬ (b.quadrant c k).containsPoint p = true) ∧
      (∀ j k, j ≠ k → ¬ (b.quadrant c j).intersects (b.quadrant c k) = true) ∧
      (∀ k, ¬ (b.quadrant c k).empty = true → b.contains (b.quadrant c k) = true) ∧
      (∀ k, (b.quadrant c k).width ≤ (b.width + 1) / 2 ∧ (b.quadrant c k).height ≤ (b.height + 1) / 2) ∧
      (∀ p, b.containsPoint p = true →
        ∃ n q, descendN p n b = some q ∧ q.containsPoint p = true ∧ q.width = 1 ∧ q.height = 1) := by
  have hfit : b.ExtentFits := ⟨hx, hy⟩
  obtain ⟨c, hc, hcx, hcy⟩ := center_eval hne hfit
  have hbet : b.Between c := between_of_containsPoint (containsPoint_of_middle hne hcx hcy)
  refine ⟨c, hc, fun p => existsUnique_quadrant hbet, fun p hp k hk => ?_,
    fun j k => not_intersects_quadrant hbet, fun k => contains_quadrant hbet, fun k => ?_,
    fun p hp => ?_⟩
  · exact hp (containsPoint_of_quadrant hbet hk)
  · obtain ⟨hw, hh⟩ := quadrant_extent hne hcx hcy k
    constructor <;> omega
  · have hw : b.width ≤ 2 ^ (b.width.toNat + b.height.toNat) := le_two_pow (by omega)
    have hh : b.height ≤ 2 ^ (b.width.toNat + b.height.toNat) := le_two_pow (by omega)
    obtain ⟨q, hq⟩ := descendN_unit _ hp hfit hw hh
    exact ⟨_, q, hq⟩

/-- A 5 by 1 box across the origin. -/
theorem center_splits_box_strip :
    let b : Box2 (SInt IntType.int32) :=
      ⟨⟨Arith.lit (-2), Arith.lit 7⟩, ⟨Arith.lit 3, Arith.lit 8⟩⟩
    ∃ c, b.center = some c ∧
      ∀ p, b.containsPoint p = true → ∃! k, (b.quadrant c k).containsPoint p = true := by
  intro b
  obtain ⟨c, hc, hsplit, -⟩ := center_splits_box b (by decide) (by decide) (by decide)
  exact ⟨c, hc, hsplit⟩

end SInt

end BoomEd.Box2
