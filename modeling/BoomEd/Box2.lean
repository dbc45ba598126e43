import BoomEd.Vec2
import BoomEd.Lib.HalfOpen
/-!
# `box2` (`math/box2.h`) and the sets it stands for

"A box2 is a half-open axis-aligned bounding box, i.e. `[min, max)`" (box2.h:7-8). The members are
public, so any pair of corners can be stored; only the corner constructor sorts them.

| here | there |
| --- | --- |
| `Box2.ofCorners`         | `box2(vec2 a, vec2 b)` (box2.h:34) |
| `default`                | `box2{}` (box2.h:11-15) |
| `empty` … `containsPoint`| box2.h:45-79 |
| `makeUnion`              | `make_union(box2, box2)` (box2.h:83) |
| `makeUnionPt`            | `make_union(box2, vec2)` (box2.h:92) |
| `center`                 | box2.h:51 |

`points b` is the set the box stands for; the three predicates are the set relations between those
sets (`empty_iff_points`, `contains_iff_points`, `intersects_iff_points`).
-/

namespace BoomEd

universe u

@[ext] structure Box2 (T : Type u) where
  min : Vec2 T
  max : Vec2 T
deriving DecidableEq

namespace Box2

variable {T : Type u}

instance [Arith T] : Inhabited (Box2 T) := ⟨⟨default, default⟩⟩

/-- box2.h:51: `min + (max - min) / 2`. The literal `2` makes `operator /` deduce `T = int`, so the
compiler only accepts the call at `int`; the model takes the literal in `T`. -/
def center [Arith T] (b : Box2 T) : Option (Vec2 T) := do
  let extent ← Vec2.sub b.max b.min
  let half ← Vec2.sdiv extent (Arith.lit 2)
  Vec2.add b.min half

section Order
variable [LinearOrder T]

def ofCorners (a b : Vec2 T) : Box2 T := ⟨Vec2.min a b, Vec2.max a b⟩

/-- box2.h:45. -/
def empty (b : Box2 T) : Bool := b.min.x ≥ b.max.x || b.min.y ≥ b.max.y

/-- box2.h:57. -/
def contains (a b : Box2 T) : Bool :=
  !b.empty && a.min.x ≤ b.min.x && a.min.y ≤ b.min.y && b.max.x ≤ a.max.x && b.max.y ≤ a.max.y

/-- box2.h:67. -/
def intersects (a b : Box2 T) : Bool :=
  !a.empty && !b.empty && a.min.x < b.max.x && a.min.y < b.max.y && a.max.x > b.min.x &&
    a.max.y > b.min.y

/-- box2.h:77. -/
def containsPoint (b : Box2 T) (p : Vec2 T) : Bool :=
  b.min.x ≤ p.x && b.min.y ≤ p.y && p.x < b.max.x && p.y < b.max.y

/-- box2.h:83. -/
def makeUnion (a b : Box2 T) : Box2 T := ofCorners (Vec2.min a.min b.min) (Vec2.max a.max b.max)

/-- box2.h:92. -/
def makeUnionPt (a : Box2 T) (p : Vec2 T) : Box2 T := ofCorners (Vec2.min a.min p) (Vec2.max a.max p)

/-- What the corner constructor establishes. -/
def Sorted (b : Box2 T) : Prop := b.min.x ≤ b.max.x ∧ b.min.y ≤ b.max.y

/-- The corners of `b` lie between the corners of `a`, whether or not either box has a point. -/
def Spans (a b : Box2 T) : Prop :=
  (a.min.x ≤ b.min.x ∧ b.max.x ≤ a.max.x) ∧ a.min.y ≤ b.min.y ∧ b.max.y ≤ a.max.y

instance (b : Box2 T) : Decidable b.Sorted := by unfold Sorted; infer_instance
instance (a b : Box2 T) : Decidable (a.Spans b) := by unfold Spans; infer_instance

/-! ## What the tests compare -/

theorem empty_iff {b : Box2 T} : b.empty = true ↔ b.max.x ≤ b.min.x ∨ b.max.y ≤ b.min.y := by
  simp [empty]

theorem not_empty_iff {b : Box2 T} : ¬ b.empty = true ↔ b.min.x < b.max.x ∧ b.min.y < b.max.y := by
  simp [empty]

theorem contains_iff {a b : Box2 T} :
    a.contains b = true ↔ ¬ b.empty = true ∧ a.Spans b := by
  simp only [contains, Spans, Bool.and_eq_true, decide_eq_true_eq, Bool.not_eq_true',
    Bool.not_eq_true]
  tauto

theorem intersects_iff {a b : Box2 T} :
    a.intersects b = true ↔ ¬ a.empty = true ∧ ¬ b.empty = true ∧
      (a.min.x < b.max.x ∧ b.min.x < a.max.x) ∧ a.min.y < b.max.y ∧ b.min.y < a.max.y := by
  simp only [intersects, Bool.and_eq_true, decide_eq_true_eq, Bool.not_eq_true', Bool.not_eq_true,
    gt_iff_lt]
  tauto

theorem Spans.refl (a : Box2 T) : a.Spans a := ⟨⟨le_rfl, le_rfl⟩, le_rfl, le_rfl⟩

theorem Spans.trans {a b c : Box2 T} (h : a.Spans b) (h' : b.Spans c) : a.Spans c := by
  obtain ⟨⟨h1, h2⟩, h3, h4⟩ := h
  obtain ⟨⟨h1', h2'⟩, h3', h4'⟩ := h'
  exact ⟨⟨h1.trans h1', h2'.trans h2⟩, h3.trans h3', h4'.trans h4⟩

theorem Spans.antisymm {a b : Box2 T} (h : a.Spans b) (h' : b.Spans a) : a = b := by
  obtain ⟨⟨h1, h2⟩, h3, h4⟩ := h
  obtain ⟨⟨h1', h2'⟩, h3', h4'⟩ := h'
  ext
  · exact le_antisymm h1 h1'
  · exact le_antisymm h3 h3'
  · exact le_antisymm h2' h2
  · exact le_antisymm h4' h4

/-- A box that spans a non-empty one is itself non-empty. -/
theorem Spans.not_empty {a b : Box2 T} (h : a.Spans b) (hb : ¬ b.empty = true) : ¬ a.empty = true := by
  obtain ⟨⟨h1, h2⟩, h3, h4⟩ := h
  obtain ⟨hx, hy⟩ := not_empty_iff.1 hb
  exact not_empty_iff.2 ⟨(h1.trans_lt hx).trans_le h2, (h3.trans_lt hy).trans_le h4⟩

theorem sorted_of_not_empty {b : Box2 T} (h : ¬ b.empty = true) : b.Sorted := by
  obtain ⟨hx, hy⟩ := not_empty_iff.1 h
  exact ⟨hx.le, hy.le⟩

theorem containsPoint_iff {b : Box2 T} {p : Vec2 T} :
    b.containsPoint p = true ↔ (b.min.x ≤ p.x ∧ p.x < b.max.x) ∧ b.min.y ≤ p.y ∧ p.y < b.max.y := by
  simp only [containsPoint, Bool.and_eq_true, decide_eq_true_eq]
  tauto

/-! ## The set of points -/

/-- The half-open rectangle the box stands for. -/
def points (b : Box2 T) : Set (T × T) := HalfOpen.rect b.min.x b.max.x b.min.y b.max.y

theorem mem_points {b : Box2 T} {p : Vec2 T} : (p.x, p.y) ∈ b.points ↔ b.containsPoint p = true := by
  rw [points, HalfOpen.mem_rect, containsPoint_iff]

theorem points_nonempty_iff {b : Box2 T} : b.points.Nonempty ↔ ¬ b.empty = true := by
  rw [points, HalfOpen.rect_nonempty, not_empty_iff]

theorem empty_iff_points {b : Box2 T} : b.empty = true ↔ b.points = ∅ := by
  rw [← Set.not_nonempty_iff_eq_empty, points_nonempty_iff, not_not]

/-- Inclusion of a non-empty box, on the corners. -/
theorem points_subset_iff {a b : Box2 T} (hb : ¬ b.empty = true) :
    b.points ⊆ a.points ↔ a.Spans b := by
  obtain ⟨hx, hy⟩ := not_empty_iff.1 hb
  exact HalfOpen.rect_subset_rect hx hy

theorem contains_iff_points {a b : Box2 T} :
    a.contains b = true ↔ b.points.Nonempty ∧ b.points ⊆ a.points := by
  rw [contains_iff, points_nonempty_iff]
  exact and_congr_right fun hb => (points_subset_iff hb).symm

theorem intersects_iff_points {a b : Box2 T} :
    a.intersects b = true ↔ (a.points ∩ b.points).Nonempty := by
  rw [intersects_iff, points, points, HalfOpen.rect_inter_nonempty, not_empty_iff, not_empty_iff]

theorem points_subset_iff_forall {a b : Box2 T} :
    b.points ⊆ a.points ↔ ∀ p, b.containsPoint p = true → a.containsPoint p = true := by
  constructor
  · intro h p hp; exact mem_points.1 (h (mem_points.2 hp))
  · rintro h ⟨x, y⟩ hp; exact mem_points.2 (h ⟨x, y⟩ (mem_points.1 hp))

theorem empty_iff_forall {b : Box2 T} : b.empty = true ↔ ∀ p, ¬ b.containsPoint p = true := by
  rw [empty_iff_points, Set.eq_empty_iff_forall_notMem]
  constructor
  · intro h p hp; exact h _ (mem_points.2 hp)
  · rintro h ⟨x, y⟩ hp; exact h ⟨x, y⟩ (mem_points.1 hp)

theorem intersects_iff_exists {a b : Box2 T} :
    a.intersects b = true ↔ ∃ p, a.containsPoint p = true ∧ b.containsPoint p = true := by
  rw [intersects_iff_points]
  constructor
  · rintro ⟨⟨x, y⟩, ha, hb⟩; exact ⟨⟨x, y⟩, mem_points.1 ha, mem_points.1 hb⟩
  · rintro ⟨p, ha, hb⟩; exact ⟨(p.x, p.y), mem_points.2 ha, mem_points.2 hb⟩

/-- **The box predicates are the set relations.** For any stored corners, inverted ones included:
`empty` says there is no point, `contains` that the other box is non-empty and included, `intersects`
that the two have a common point. -/
theorem predicates_eq_sets (a b : Box2 T) :
    (a.empty = true ↔ ∀ p, ¬ a.containsPoint p = true) ∧
    (a.contains b = true ↔
      ¬ b.empty = true ∧ ∀ p, b.containsPoint p = true → a.containsPoint p = true) ∧
    (a.intersects b = true ↔ ∃ p, a.containsPoint p = true ∧ b.containsPoint p = true) := by
  refine ⟨empty_iff_forall, ?_, intersects_iff_exists⟩
  rw [contains_iff_points, points_nonempty_iff, points_subset_iff_forall]

end Order

end Box2

end BoomEd
