import BoomEd.Box2
import BoomEd.Lib.Bracketing
/-!
# `make_union` (box2.h:81-97)

The union of two boxes takes the componentwise minimum of the `min` corners and maximum of the `max`
corners, and hands both to the corner constructor. On non-empty boxes that is the join of the order
`contains` (`Region`), so a whole list of boxes has one union, whatever the order and the bracketing.

The same formula is used for the union with a point and for empty boxes, and there it does not
describe the union of the point sets. A point put in lands on the excluded edge unless it is strictly
below the old `max` on both axes (`makeUnionPt_covers_iff`); the corners of an empty box count even
though the box has no points (`makeUnion_ignores_empty_iff`).
-/

namespace BoomEd.Box2

open Cxx

universe u

variable {T : Type u} [LinearOrder T]

/-! ## The corners of a union -/

theorem ofCorners_of_le {a b : Vec2 T} (hx : a.x ≤ b.x) (hy : a.y ≤ b.y) : ofCorners a b = ⟨a, b⟩ := by
  ext <;> simp [ofCorners, hx, hy]

theorem ofCorners_sorted (a b : Vec2 T) : (ofCorners a b).Sorted := ⟨min_le_max, min_le_max⟩

/-- With a sorted first box the constructor has nothing to swap. -/
theorem makeUnion_eq {a : Box2 T} (ha : a.Sorted) (b : Box2 T) :
    makeUnion a b = ⟨Vec2.min a.min b.min, Vec2.max a.max b.max⟩ := by
  obtain ⟨hx, hy⟩ := ha
  exact ofCorners_of_le ((min_le_left _ _).trans (hx.trans (le_max_left _ _)))
    ((min_le_left _ _).trans (hy.trans (le_max_left _ _)))

theorem makeUnionPt_eq (a : Box2 T) (p : Vec2 T) :
    makeUnionPt a p = ⟨Vec2.min a.min p, Vec2.max a.max p⟩ :=
  ofCorners_of_le ((min_le_right _ _).trans (le_max_right _ _))
    ((min_le_right _ _).trans (le_max_right _ _))

theorem makeUnion_comm (a b : Box2 T) : makeUnion a b = makeUnion b a := by
  ext <;> simp [makeUnion, ofCorners, min_comm, max_comm]

theorem makeUnion_sorted (a b : Box2 T) : (makeUnion a b).Sorted := ofCorners_sorted _ _

theorem makeUnion_spans_left {a : Box2 T} (ha : a.Sorted) (b : Box2 T) : (makeUnion a b).Spans a := by
  rw [makeUnion_eq ha]
  exact ⟨⟨min_le_left _ _, le_max_left _ _⟩, min_le_left _ _, le_max_left _ _⟩

theorem makeUnion_spans_right {a : Box2 T} (ha : a.Sorted) (b : Box2 T) :
    (makeUnion a b).Spans b := by
  rw [makeUnion_eq ha]
  exact ⟨⟨min_le_right _ _, le_max_right _ _⟩, min_le_right _ _, le_max_right _ _⟩

theorem spans_makeUnion {a b c : Box2 T} (ha : a.Sorted) (hca : c.Spans a) (hcb : c.Spans b) :
    c.Spans (makeUnion a b) := by
  obtain ⟨⟨h1, h2⟩, h3, h4⟩ := hca
  obtain ⟨⟨h1', h2'⟩, h3', h4'⟩ := hcb
  rw [makeUnion_eq ha]
  exact ⟨⟨le_min h1 h1', max_le h2 h2'⟩, le_min h3 h3', max_le h4 h4'⟩

/-! ## Non-empty boxes: the union is the join -/

/-- A box with at least one point. -/
abbrev Region (T : Type u) [LinearOrder T] := {b : Box2 T // ¬ b.empty = true}

instance : PartialOrder (Region T) where
  le a b := b.val.contains a.val = true
  le_refl a := contains_iff.2 ⟨a.property, Spans.refl _⟩
  le_trans a b c hab hbc := by
    obtain ⟨ha, hab⟩ := contains_iff.1 hab
    obtain ⟨-, hbc⟩ := contains_iff.1 hbc
    exact contains_iff.2 ⟨ha, hbc.trans hab⟩
  le_antisymm a b hab hba :=
    Subtype.ext ((contains_iff.1 hba).2.antisymm (contains_iff.1 hab).2)

theorem Region.le_iff {a b : Region T} : a ≤ b ↔ b.val.Spans a.val :=
  contains_iff.trans (and_iff_right a.property)

instance : SemilatticeSup (Region T) where
  sup a b := ⟨makeUnion a.val b.val,
    (makeUnion_spans_left (sorted_of_not_empty a.property) b.val).not_empty a.property⟩
  le_sup_left a _ := Region.le_iff.2 (makeUnion_spans_left (sorted_of_not_empty a.property) _)
  le_sup_right a _ := Region.le_iff.2 (makeUnion_spans_right (sorted_of_not_empty a.property) _)
  sup_le a _ _ hac hbc := Region.le_iff.2
    (spans_makeUnion (sorted_of_not_empty a.property) (Region.le_iff.1 hac) (Region.le_iff.1 hbc))

theorem Region.val_sup (a b : Region T) : (a ⊔ b).val = makeUnion a.val b.val := rfl

/-- A combination of non-empty boxes is carried out in the semilattice. -/
theorem exists_region {t : Bracketing (Box2 T)} (h : ∀ b ∈ Bracketing.leaves t, ¬ b.empty = true) :
    ∃ s : Bracketing (Region T), (∀ r, r ∈ Bracketing.leaves s ↔ r.val ∈ Bracketing.leaves t) ∧
      (Bracketing.eval (· ⊔ ·) s).val = Bracketing.eval makeUnion t := by
  obtain ⟨s, rfl⟩ := Bracketing.exists_lift t h
  refine ⟨s, fun r => ?_, Bracketing.map_eval Subtype.val Region.val_sup s⟩
  rw [Bracketing.leaves_map, List.mem_map_of_injective Subtype.val_injective]

theorem eval_makeUnion_congr {s t : Bracketing (Box2 T)}
    (h : ∀ b ∈ Bracketing.leaves t, ¬ b.empty = true)
    (hst : ∀ b, b ∈ Bracketing.leaves s ↔ b ∈ Bracketing.leaves t) :
    Bracketing.eval makeUnion s = Bracketing.eval makeUnion t := by
  obtain ⟨s', hs, es⟩ := exists_region (t := s) fun b hb => h b ((hst b).1 hb)
  obtain ⟨t', ht, et⟩ := exists_region h
  have e : Bracketing.eval (· ⊔ ·) s' = Bracketing.eval (· ⊔ ·) t' :=
    Bracketing.eval_sup_congr fun r => by rw [hs, ht, hst]
  rw [← es, ← et, e]

theorem eval_makeUnion_contains {t : Bracketing (Box2 T)}
    (h : ∀ b ∈ Bracketing.leaves t, ¬ b.empty = true) {b : Box2 T} (hb : b ∈ Bracketing.leaves t) :
    (Bracketing.eval makeUnion t).contains b = true := by
  obtain ⟨s, hs, es⟩ := exists_region h
  have hle : (⟨b, h b hb⟩ : Region T) ≤ _ := (Bracketing.isLUB_eval s).1 ((hs _).2 hb)
  rw [← es]
  exact hle

theorem contains_eval_makeUnion {t : Bracketing (Box2 T)}
    (h : ∀ b ∈ Bracketing.leaves t, ¬ b.empty = true) {b₀ c : Box2 T}
    (hb₀ : b₀ ∈ Bracketing.leaves t) (hc : ∀ b ∈ Bracketing.leaves t, c.contains b = true) :
    c.contains (Bracketing.eval makeUnion t) = true := by
  obtain ⟨s, hs, es⟩ := exists_region h
  -- `c` covers a non-empty box, so it is a region itself
  have hc₀ : ¬ c.empty = true := (contains_iff.1 (hc b₀ hb₀)).2.not_empty (h b₀ hb₀)
  have hub : Bracketing.eval (· ⊔ ·) s ≤ (⟨c, hc₀⟩ : Region T) :=
    (Bracketing.isLUB_eval s).2 fun r hr => hc _ ((hs r).1 hr)
  rw [← es]
  exact hub

/-- **Bounding boxes are least and order-independent.** Every combination tree over the same
non-empty boxes, repetitions included, yields the box that a loop over the list yields; it contains
every box of the list, and so does no smaller one. -/
theorem bounding_box_least (b₀ : Box2 T) (bs : List (Box2 T))
    (h : ∀ b ∈ b₀ :: bs, ¬ b.empty = true) :
    (∀ t : Bracketing (Box2 T), (∀ b, b ∈ Bracketing.leaves t ↔ b ∈ b₀ :: bs) →
      Bracketing.eval makeUnion t = bs.foldl makeUnion b₀) ∧
    (∀ b ∈ b₀ :: bs, (bs.foldl makeUnion b₀).contains b = true) ∧
    (∀ c : Box2 T, (∀ b ∈ b₀ :: bs, c.contains b = true) →
      c.contains (bs.foldl makeUnion b₀) = true) := by
  rw [← Bracketing.eval_ofList]
  have hl := Bracketing.leaves_ofList b₀ bs
  rw [← hl] at h ⊢
  refine ⟨fun t ht => eval_makeUnion_congr h ht, fun b hb => eval_makeUnion_contains h hb,
    fun c hc => ?_⟩
  have hb₀ : b₀ ∈ Bracketing.leaves (Bracketing.ofList b₀ bs) := by simp [hl]
  exact contains_eval_makeUnion h hb₀ hc

/-- Two unit boxes, one of them twice: the union is the 4 by 3 box around them. -/
theorem bounding_box_least_example :
    let b : Box2 (SInt IntType.int32) := ⟨⟨Arith.lit (-1), Arith.lit 0⟩, ⟨Arith.lit 0, Arith.lit 1⟩⟩
    let c : Box2 (SInt IntType.int32) := ⟨⟨Arith.lit 2, Arith.lit 2⟩, ⟨Arith.lit 3, Arith.lit 3⟩⟩
    Bracketing.eval makeUnion (FreeMagma.of c * (FreeMagma.of b * FreeMagma.of c)) =
        makeUnion (makeUnion b c) b ∧
      (makeUnion (makeUnion b c) b).contains c = true := by
  intro b c
  have h : ∀ d ∈ [b, c, b], ¬ d.empty = true := by decide
  obtain ⟨htree, hcont, -⟩ := bounding_box_least b [c, b] h
  exact ⟨htree _ (by simp; tauto), hcont c (by simp)⟩

/-! ## Growing a box by points -/

/-- Where a union with a point contains points: `max` is taken with the point itself, and excluded. -/
theorem containsPoint_makeUnionPt {a : Box2 T} {p q : Vec2 T} :
    (makeUnionPt a p).containsPoint q = true ↔
      ((a.min.x ≤ q.x ∨ p.x ≤ q.x) ∧ (q.x < a.max.x ∨ q.x < p.x)) ∧
      (a.min.y ≤ q.y ∨ p.y ≤ q.y) ∧ (q.y < a.max.y ∨ q.y < p.y) := by
  rw [makeUnionPt_eq, containsPoint_iff]
  simp only [Vec2.min_x, Vec2.min_y, Vec2.max_x, Vec2.max_y, min_le_iff, lt_max_iff]

/-- The points of the box stay in. -/
theorem containsPoint_makeUnionPt_of_box {a : Box2 T} (p : Vec2 T) {q : Vec2 T}
    (h : a.containsPoint q = true) : (makeUnionPt a p).containsPoint q = true := by
  obtain ⟨⟨h1, h2⟩, h3, h4⟩ := containsPoint_iff.1 h
  exact containsPoint_makeUnionPt.2 ⟨⟨Or.inl h1, Or.inl h2⟩, Or.inl h3, Or.inl h4⟩

/-- The new point is in just when it was below the old `max`. -/
theorem containsPoint_makeUnionPt_self {a : Box2 T} {p : Vec2 T} :
    (makeUnionPt a p).containsPoint p = true ↔ p.x < a.max.x ∧ p.y < a.max.y := by
  rw [containsPoint_makeUnionPt]
  simp

/-- The right edge of a box grown by a list of points is the old one or that of one of the points. -/
theorem foldl_makeUnionPt_max_x (ps : List (Vec2 T)) (a : Box2 T) :
    (ps.foldl makeUnionPt a).max.x = a.max.x ∨ ∃ p ∈ ps, (ps.foldl makeUnionPt a).max.x = p.x := by
  refine Bracketing.foldl_selects (P := fun _ => True) (f := fun b => b.max.x) (g := Vec2.x)
    (fun _ _ _ => trivial) (fun b p _ => ?_) ps a trivial
  rw [makeUnionPt_eq]
  exact max_choice b.max.x p.x

/-- **Which points a box grown by points covers.** One union covers the new point, beside all old
ones, just when the point was already below `max` on both axes. Folded over a list of points it never
covers the list: a point that attains the right edge is left out. -/
theorem makeUnionPt_covers_iff :
    (∀ (a : Box2 T) (p : Vec2 T),
      ((makeUnionPt a p).containsPoint p = true ∧
        ∀ q, a.containsPoint q = true → (makeUnionPt a p).containsPoint q = true) ↔
      p.x < a.max.x ∧ p.y < a.max.y) ∧
    (∀ (p₀ : Vec2 T) (ps : List (Vec2 T)),
      ¬ ∀ q ∈ p₀ :: ps, ((p₀ :: ps).foldl makeUnionPt (ofCorners p₀ p₀)).containsPoint q = true) := by
  constructor
  · intro a p
    rw [containsPoint_makeUnionPt_self]
    exact and_iff_left fun q hq => containsPoint_makeUnionPt_of_box p hq
  · intro p₀ ps h
    have hedge : ∃ p ∈ p₀ :: ps, ((p₀ :: ps).foldl makeUnionPt (ofCorners p₀ p₀)).max.x = p.x := by
      rcases foldl_makeUnionPt_max_x (p₀ :: ps) (ofCorners p₀ p₀) with e | he
      · exact ⟨p₀, by simp, e.trans (max_self p₀.x)⟩
      · exact he
    obtain ⟨p, hp, e⟩ := hedge
    have hlt := (containsPoint_iff.1 (h p hp)).1.2
    rw [e] at hlt
    exact lt_irrefl _ hlt

/-- `{(0,0), (2,2)}` grown by `(2,1)` is the same box, and `(2,1)` is on its excluded edge; a list of
one point folds to a box without points. -/
theorem makeUnionPt_misses_point :
    let a : Box2 (SInt IntType.int32) := ⟨⟨Arith.lit 0, Arith.lit 0⟩, ⟨Arith.lit 2, Arith.lit 2⟩⟩
    let p : Vec2 (SInt IntType.int32) := ⟨Arith.lit 2, Arith.lit 1⟩
    a.Sorted ∧ ¬ (makeUnionPt a p).containsPoint p = true ∧
      ¬ ∀ q ∈ [p], ([p].foldl makeUnionPt (ofCorners p p)).containsPoint q = true := by
  decide

/-! ## Empty boxes in a union -/

theorem points_makeUnion_eq_iff_of_not_empty {a b : Box2 T} (ha : a.Sorted) (hb : ¬ b.empty = true) :
    (∀ p, (makeUnion a b).containsPoint p = true ↔ b.containsPoint p = true) ↔ b.Spans a := by
  have hub := makeUnion_spans_right ha b
  constructor
  · intro h
    have hsub : (makeUnion a b).points ⊆ b.points := points_subset_iff_forall.2 fun p => (h p).1
    exact ((points_subset_iff (hub.not_empty hb)).1 hsub).trans (makeUnion_spans_left ha b)
  · intro h
    have e : makeUnion a b = b := (spans_makeUnion ha h (Spans.refl b)).antisymm hub |>.symm
    intro p
    rw [e]

/-- Two empty boxes: their union stays empty just when, on some axis, both sit at one coordinate. -/
theorem makeUnion_empty_iff {a b : Box2 T} (ha : a.Sorted) (hb : b.Sorted) :
    (makeUnion a b).empty = true ↔
      (a.min.x = a.max.x ∧ b.min.x = a.min.x ∧ b.max.x = a.min.x) ∨
      (a.min.y = a.max.y ∧ b.min.y = a.min.y ∧ b.max.y = a.min.y) := by
  rw [makeUnion_eq ha, empty_iff]
  exact or_congr (HalfOpen.hull_degenerate ha.1 hb.1) (HalfOpen.hull_degenerate ha.2 hb.2)

/-- With both operands empty the union has the same points as either just when it is empty too. -/
theorem points_makeUnion_eq_iff_of_empty {a b : Box2 T} (ha : a.Sorted) (hb : b.Sorted)
    (he : b.empty = true) :
    (∀ p, (makeUnion a b).containsPoint p = true ↔ b.containsPoint p = true) ↔
      (a.min.x = a.max.x ∧ b.min.x = a.min.x ∧ b.max.x = a.min.x) ∨
      (a.min.y = a.max.y ∧ b.min.y = a.min.y ∧ b.max.y = a.min.y) := by
  rw [← makeUnion_empty_iff ha hb]
  constructor
  · intro h
    by_contra hne
    obtain ⟨⟨x, y⟩, hp⟩ := points_nonempty_iff.2 hne
    exact empty_iff_forall.1 he ⟨x, y⟩ ((h ⟨x, y⟩).1 (mem_points.1 hp))
  · intro hu p
    exact iff_of_false (empty_iff_forall.1 hu p) (empty_iff_forall.1 he p)

/-! ### The accumulator loop -/

theorem foldl_makeUnion_spans (L : List (Box2 T)) {a : Box2 T} (ha : a.Sorted) :
    ∀ e ∈ a :: L, (L.foldl makeUnion a).Spans e :=
  List.forall_mem_cons.2 (Bracketing.foldl_rel (P := Sorted) (R := Spans) (S := Spans)
    (fun b c _ => makeUnion_sorted b c) Spans.refl (fun _ c hb => makeUnion_spans_left hb c)
    (fun _ c hb => makeUnion_spans_right hb c) (fun _ _ _ => Spans.trans) (fun _ _ _ => Spans.trans)
    L a ha).2

/-- A corner coordinate of the result is that of the start or of some box of the list. -/
theorem foldl_makeUnion_attains {f : Box2 T → T}
    (hf : ∀ a b : Box2 T, a.Sorted → f (makeUnion a b) = f a ∨ f (makeUnion a b) = f b)
    (L : List (Box2 T)) {a : Box2 T} (ha : a.Sorted) : ∃ e ∈ a :: L, f (L.foldl makeUnion a) = f e := by
  rcases Bracketing.foldl_selects (P := Sorted) (f := f) (g := f) (fun b c _ => makeUnion_sorted b c)
    (fun b c hb => hf b c hb) L a ha with e | ⟨b, hb, e⟩
  · exact ⟨a, by simp, e⟩
  · exact ⟨b, by simp [hb], e⟩

theorem foldl_makeUnion_corners (L : List (Box2 T)) {a : Box2 T} (ha : a.Sorted) :
    ((∃ e ∈ a :: L, (L.foldl makeUnion a).min.x = e.min.x) ∧
      ∃ e ∈ a :: L, (L.foldl makeUnion a).max.x = e.max.x) ∧
    (∃ e ∈ a :: L, (L.foldl makeUnion a).min.y = e.min.y) ∧
      ∃ e ∈ a :: L, (L.foldl makeUnion a).max.y = e.max.y := by
  refine ⟨⟨?_, ?_⟩, ?_, ?_⟩
  · refine foldl_makeUnion_attains (f := fun b => b.min.x) (fun b c hb => ?_) L ha
    rw [makeUnion_eq hb]
    exact min_choice _ _
  · refine foldl_makeUnion_attains (f := fun b => b.max.x) (fun b c hb => ?_) L ha
    rw [makeUnion_eq hb]
    exact max_choice _ _
  · refine foldl_makeUnion_attains (f := fun b => b.min.y) (fun b c hb => ?_) L ha
    rw [makeUnion_eq hb]
    exact min_choice _ _
  · refine foldl_makeUnion_attains (f := fun b => b.max.y) (fun b c hb => ?_) L ha
    rw [makeUnion_eq hb]
    exact max_choice _ _

/-- The corners of `e` lie between edges of non-empty boxes of the list. -/
def Enclosed (L : List (Box2 T)) (e : Box2 T) : Prop :=
  ((∃ b ∈ L, ¬ b.empty = true ∧ b.min.x ≤ e.min.x) ∧ ∃ b ∈ L, ¬ b.empty = true ∧ e.max.x ≤ b.max.x) ∧
  (∃ b ∈ L, ¬ b.empty = true ∧ b.min.y ≤ e.min.y) ∧ ∃ b ∈ L, ¬ b.empty = true ∧ e.max.y ≤ b.max.y

/-- `c` contains every point of every box of the list. -/
def Covers (c : Box2 T) (L : List (Box2 T)) : Prop :=
  ∀ b ∈ L, ∀ p, b.containsPoint p = true → c.containsPoint p = true

theorem Spans.points_subset {a b : Box2 T} (h : a.Spans b) : b.points ⊆ a.points := by
  obtain ⟨⟨h1, h2⟩, h3, h4⟩ := h
  rintro ⟨x, y⟩ ⟨⟨hx, hx'⟩, hy, hy'⟩
  exact ⟨⟨h1.trans hx, hx'.trans_le h2⟩, h3.trans hy, hy'.trans_le h4⟩

theorem Covers.spans {c b : Box2 T} {L : List (Box2 T)} (h : c.Covers L) (hb : b ∈ L)
    (hne : ¬ b.empty = true) : c.Spans b :=
  (points_subset_iff hne).1 (points_subset_iff_forall.2 (h b hb))

/-- The union of the non-empty boxes of a list covers the list. -/
theorem covers_foldl_filter {L bs : List (Box2 T)} {b₀ : Box2 T}
    (hN : (L.filter fun b => !b.empty) = b₀ :: bs) (hb₀ : b₀.Sorted) :
    (bs.foldl makeUnion b₀).Covers L := by
  intro b hb p hp
  have hbe : ¬ b.empty = true := points_nonempty_iff.1 ⟨_, mem_points.2 hp⟩
  have hmem : b ∈ b₀ :: bs := hN ▸ List.mem_filter.2 ⟨hb, by simpa using hbe⟩
  exact mem_points.1 ((foldl_makeUnion_spans bs hb₀ b hmem).points_subset (mem_points.2 hp))

/-- A list without a non-empty box has no point to cover. -/
theorem covers_of_filter_nil {L : List (Box2 T)} (hN : (L.filter fun b => !b.empty) = []) (c : Box2 T) :
    c.Covers L := by
  intro b hb p hp
  have hbe : ¬ b.empty = true := points_nonempty_iff.1 ⟨_, mem_points.2 hp⟩
  exact absurd (List.filter_eq_nil_iff.1 hN b hb) (not_not.2 (by simpa using hbe))

/-- A loop whose operands are all enclosed makes a box inside every box that covers the list. -/
theorem Covers.spans_foldl {c a : Box2 T} {L : List (Box2 T)} (h : c.Covers L) (ha : a.Sorted)
    (hL : ∀ e ∈ a :: L, Enclosed L e) : c.Spans (L.foldl makeUnion a) := by
  obtain ⟨⟨⟨e1, he1, q1⟩, e2, he2, q2⟩, ⟨e3, he3, q3⟩, e4, he4, q4⟩ := foldl_makeUnion_corners L ha
  obtain ⟨b1, hb1, n1, le1⟩ := (hL e1 he1).1.1
  obtain ⟨b2, hb2, n2, le2⟩ := (hL e2 he2).1.2
  obtain ⟨b3, hb3, n3, le3⟩ := (hL e3 he3).2.1
  obtain ⟨b4, hb4, n4, le4⟩ := (hL e4 he4).2.2
  refine ⟨⟨?_, ?_⟩, ?_, ?_⟩
  · rw [q1]; exact (h.spans hb1 n1).1.1.trans le1
  · rw [q2]; exact le2.trans (h.spans hb2 n2).1.2
  · rw [q3]; exact (h.spans hb3 n3).2.1.trans le3
  · rw [q4]; exact le4.trans (h.spans hb4 n4).2.2

/-- Conversely, a box spanned by the union of the non-empty boxes of the list is enclosed. -/
theorem enclosed_of_spans {b₀ e : Box2 T} {bs L : List (Box2 T)}
    (hL : ∀ b ∈ b₀ :: bs, b ∈ L ∧ ¬ b.empty = true) (h : (bs.foldl makeUnion b₀).Spans e) :
    Enclosed L e := by
  have hb₀ : b₀.Sorted := sorted_of_not_empty (hL b₀ (by simp)).2
  obtain ⟨⟨⟨e1, he1, q1⟩, e2, he2, q2⟩, ⟨e3, he3, q3⟩, e4, he4, q4⟩ := foldl_makeUnion_corners bs hb₀
  obtain ⟨⟨h1, h2⟩, h3, h4⟩ := h
  exact ⟨⟨⟨e1, (hL e1 he1).1, (hL e1 he1).2, q1 ▸ h1⟩, e2, (hL e2 he2).1, (hL e2 he2).2, q2 ▸ h2⟩,
    ⟨e3, (hL e3 he3).1, (hL e3 he3).2, q3 ▸ h3⟩, e4, (hL e4 he4).1, (hL e4 he4).2, q4 ▸ h4⟩

section Default
variable [Arith T]

theorem default_sorted : (default : Box2 T).Sorted := ⟨le_rfl, le_rfl⟩

theorem default_empty : (default : Box2 T).empty = true := empty_iff.2 (Or.inl le_rfl)

/-- The accumulated box stays empty just when, on some axis, no corner leaves the origin outwards. -/
theorem foldl_default_empty_iff (L : List (Box2 T)) :
    (L.foldl makeUnion default).empty = true ↔
      (∀ b ∈ L, Arith.lit 0 ≤ b.min.x ∧ b.max.x ≤ Arith.lit 0) ∨
      (∀ b ∈ L, Arith.lit 0 ≤ b.min.y ∧ b.max.y ≤ Arith.lit 0) := by
  have hspan := foldl_makeUnion_spans L (default_sorted (T := T))
  obtain ⟨⟨hminx, hmaxx⟩, hminy, hmaxy⟩ := foldl_makeUnion_corners L (default_sorted (T := T))
  have hx := HalfOpen.hull_degenerate_list (f := fun b : Box2 T => b.min.x) (g := fun b => b.max.x)
    rfl (fun e he => (hspan e he).1) hminx hmaxx
  have hy := HalfOpen.hull_degenerate_list (f := fun b : Box2 T => b.min.y) (g := fun b => b.max.y)
    rfl (fun e he => (hspan e he).2) hminy hmaxy
  rw [empty_iff]
  exact or_congr hx hy

/-- The loop from `box2{}` makes a box no larger than needed just when it makes an empty one, or the
origin and all corners are enclosed by the non-empty boxes. -/
theorem foldl_default_least_iff (L : List (Box2 T)) :
    (∀ c : Box2 T, c.Covers L →
      ∀ p, (L.foldl makeUnion default).containsPoint p = true → c.containsPoint p = true) ↔
    ((∀ b ∈ L, Arith.lit 0 ≤ b.min.x ∧ b.max.x ≤ Arith.lit 0) ∨
      (∀ b ∈ L, Arith.lit 0 ≤ b.min.y ∧ b.max.y ≤ Arith.lit 0)) ∨
    ∀ e ∈ default :: L, Enclosed L e := by
  rw [← foldl_default_empty_iff]
  constructor
  · intro h
    by_cases hu : (L.foldl makeUnion default).empty = true
    · exact Or.inl hu
    refine Or.inr ?_
    cases hN : L.filter fun b => !b.empty with
    | nil =>
      -- nothing to cover: the empty default box covers the list, the accumulated one has a point
      obtain ⟨⟨x, y⟩, hp⟩ := points_nonempty_iff.2 hu
      have hd := h default (covers_of_filter_nil hN _) ⟨x, y⟩ (mem_points.1 hp)
      exact absurd hd (empty_iff_forall.1 default_empty _)
    | cons b₀ bs =>
      have hmem : ∀ b ∈ b₀ :: bs, b ∈ L ∧ ¬ b.empty = true := by
        intro b hb
        rw [← hN] at hb
        simpa using List.mem_filter.1 hb
      have hcov := covers_foldl_filter hN (sorted_of_not_empty (hmem b₀ (by simp)).2)
      have hsub := (points_subset_iff hu).1 (points_subset_iff_forall.2 (h _ hcov))
      intro e he
      exact enclosed_of_spans hmem (hsub.trans (foldl_makeUnion_spans L default_sorted e he))
  · rintro (hu | hL) c hc p hp
    · exact absurd hp (empty_iff_forall.1 hu p)
    · exact points_subset_iff_forall.1 (hc.spans_foldl default_sorted hL).points_subset p hp

/-- **When an empty box adds nothing to a union.** Beside a non-empty box, when its corners lie within
that box; beside an empty one, when on some axis both sit at the same coordinate. A loop from `box2{}`
over a list of boxes is as tight as the boxes' points require just when it ends empty or the origin
and every corner are enclosed by non-empty boxes of the list. -/
theorem makeUnion_ignores_empty_iff :
    (∀ a b : Box2 T, a.Sorted → b.Sorted → a.empty = true →
      ((∀ p, (makeUnion a b).containsPoint p = true ↔ b.containsPoint p = true) ∧
        (∀ p, (makeUnion b a).containsPoint p = true ↔ b.containsPoint p = true) ↔
      (¬ b.empty = true ∧ b.Spans a) ∨
      (b.empty = true ∧
        ((a.min.x = a.max.x ∧ b.min.x = a.min.x ∧ b.max.x = a.min.x) ∨
          (a.min.y = a.max.y ∧ b.min.y = a.min.y ∧ b.max.y = a.min.y))))) ∧
    (∀ L : List (Box2 T),
      (∀ c : Box2 T, c.Covers L →
        ∀ p, (L.foldl makeUnion default).containsPoint p = true → c.containsPoint p = true) ↔
      ((∀ b ∈ L, Arith.lit 0 ≤ b.min.x ∧ b.max.x ≤ Arith.lit 0) ∨
        (∀ b ∈ L, Arith.lit 0 ≤ b.min.y ∧ b.max.y ≤ Arith.lit 0)) ∨
      ∀ e ∈ default :: L, Enclosed L e) := by
  refine ⟨fun a b ha hb _ => ?_, foldl_default_least_iff⟩
  rw [makeUnion_comm b a, and_self_iff]
  by_cases he : b.empty = true
  · rw [points_makeUnion_eq_iff_of_empty ha hb he]
    simp [he]
  · rw [points_makeUnion_eq_iff_of_not_empty ha he]
    simp [he]

/-- `box2{}` and `{(5,5), (6,6)}`: the union reaches back to the origin, which neither box contains;
so does the loop from `box2{}`, though the box itself covers the list. -/
theorem makeUnion_default_adds_origin :
    let b : Box2 (SInt IntType.int32) := ⟨⟨Arith.lit 5, Arith.lit 5⟩, ⟨Arith.lit 6, Arith.lit 6⟩⟩
    let p : Vec2 (SInt IntType.int32) := default
    ((default : Box2 (SInt IntType.int32)).Sorted ∧ b.Sorted ∧
      (default : Box2 (SInt IntType.int32)).empty = true) ∧
    ¬ ((makeUnion default b).containsPoint p = true ↔ b.containsPoint p = true) ∧
    ¬ ∀ c : Box2 (SInt IntType.int32), c.Covers [b] →
        ∀ q, ([b].foldl makeUnion default).containsPoint q = true → c.containsPoint q = true := by
  intro b p
  refine ⟨by decide, by decide, fun h => ?_⟩
  have hcov : b.Covers [b] := by
    intro c hc q hq
    rwa [List.mem_singleton.1 hc] at hq
  exact absurd (h b hcov p (by decide)) (by decide)

end Default

end BoomEd.Box2
