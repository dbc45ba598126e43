import BoomEd.Center
/-!
# Splitting a box all the way down

A box split at its centre (box2.h:49-53), each quadrant at its own centre, and so on: the boxes of a tree
with four children a node, such as the nodes of `quadtree` have (world/quadtree.h:33-39). A path is a
list of corners, the first for the first split, and `cell` the box at its end. `cells_tile` says that the
cells of every depth tile the box, whatever empty parts come up.
-/

namespace BoomEd.Box2

open Cxx HalfOpen

variable {t : IntType}

/-- The quadrant at the first corner of the path, and from there on the rest. -/
def cell (b : Box2 (SInt t)) : List Corner → Option (Box2 (SInt t))
  | [] => some b
  | k :: ks => do
    let c ← b.center
    cell (b.quadrant c k) ks

/-! ## One split

A part may be empty, and is split again none the less: sorted corners are enough for the centre. -/

/-- One axis of `min + (max - min) / 2`, the ends in order. -/
theorem middle_eval_of_le {l h : SInt t} (hlh : l ≤ h) (hfit : t.InRange (h.val - l.val)) :
    ∃ e d c, SInt.sub h l = some e ∧ SInt.div e (Arith.lit 2) = some d ∧ SInt.add l d = some c ∧
      c.val = l.val + (h.val - l.val) / 2 := by
  rcases hlh.lt_or_eq with hlt | rfl
  · exact middle_eval hlt hfit
  · have h2 : (Arith.lit 2 : SInt t).val = 2 := lit_val (two_inRange t)
    have h0 : t.InRange 0 := by
      have := t.half_ge
      unfold IntType.InRange
      omega
    have hsub : SInt.sub l l = some ⟨0, h0⟩ := by
      rw [SInt.sub, sub_self]
      exact SInt.ofExpr_of_inRange h0
    have hdiv : SInt.div (⟨0, h0⟩ : SInt t) (Arith.lit 2) = some ⟨0, h0⟩ := by
      rw [SInt.div, h2, if_neg (by decide)]
      exact SInt.ofExpr_of_inRange h0
    have hadd : SInt.add l ⟨0, h0⟩ = some l := by
      have hl : t.InRange (l.val + 0) := by rw [add_zero]; exact l.inRange
      exact (SInt.ofExpr_of_inRange hl).trans (congrArg some (SInt.ext (add_zero _)))
    exact ⟨_, _, l, hsub, hdiv, hadd, by simp⟩

theorem center_eval_of_sorted {b : Box2 (SInt t)} (hb : b.Sorted) (hfit : b.ExtentFits) :
    ∃ c, b.center = some c ∧ c.x.val = b.min.x.val + b.width / 2 ∧
      c.y.val = b.min.y.val + b.height / 2 := by
  obtain ⟨ex, dx, cx, h1, h2, h3, hcx⟩ := middle_eval_of_le hb.1 hfit.1
  obtain ⟨ey, dy, cy, g1, g2, g3, hcy⟩ := middle_eval_of_le hb.2 hfit.2
  refine ⟨⟨cx, cy⟩, ?_, hcx, hcy⟩
  simp [center, Vec2.sub, Vec2.sdiv, Vec2.add, Arith.sub, Arith.div, Arith.add, h1, h2, h3, g1, g2, g3]

/-- What one split leaves to the next. -/
structure Splits (b : Box2 (SInt t)) (c : Vec2 (SInt t)) : Prop where
  between : b.Between c
  sorted : ∀ k, (b.quadrant c k).Sorted
  fits : ∀ k, (b.quadrant c k).ExtentFits
  spans : ∀ k, b.Spans (b.quadrant c k)
  halves : ∀ k, 2 * (b.quadrant c k).width ≤ b.width + 1 ∧ 2 * (b.quadrant c k).height ≤ b.height + 1

theorem spans_quadrant {b : Box2 (SInt t)} {c : Vec2 (SInt t)} (h : b.Between c) (k : Corner) :
    b.Spans (b.quadrant c k) := by
  rw [quadrant_eq h]
  obtain ⟨⟨h1, h2⟩, h3, h4⟩ := h
  obtain ⟨kx, ky⟩ := k
  refine ⟨?_, ?_⟩
  · cases kx with
    | lo => exact ⟨le_rfl, h2⟩
    | hi => exact ⟨h1, le_rfl⟩
  · cases ky with
    | lo => exact ⟨le_rfl, h4⟩
    | hi => exact ⟨h3, le_rfl⟩

theorem exists_splits {b : Box2 (SInt t)} (hb : b.Sorted) (hfit : b.ExtentFits) :
    ∃ c, b.center = some c ∧ b.Splits c := by
  obtain ⟨c, hc, hx, hy⟩ := center_eval_of_sorted hb hfit
  have hw : 0 ≤ b.width := sub_nonneg.2 hb.1
  have hh : 0 ≤ b.height := sub_nonneg.2 hb.2
  have hbet : b.Between c := by
    unfold Between
    rw [SInt.le_iff, SInt.le_iff, SInt.le_iff, SInt.le_iff, hx, hy]
    unfold width height at *
    omega
  have hsorted : ∀ k, (b.quadrant c k).Sorted := fun k => ⟨min_le_max, min_le_max⟩
  have hhalves : ∀ k, 2 * (b.quadrant c k).width ≤ b.width + 1 ∧
      2 * (b.quadrant c k).height ≤ b.height + 1 := by
    rintro ⟨kx, ky⟩
    rw [quadrant_eq hbet]
    unfold width height at *
    cases kx <;> cases ky <;> simp only [Side.pick, hx, hy] <;> omega
  refine ⟨c, hc, hbet, hsorted, fun k => ?_, spans_quadrant hbet, hhalves⟩
  have hqw : 0 ≤ (b.quadrant c k).width := sub_nonneg.2 (hsorted k).1
  have hqh : 0 ≤ (b.quadrant c k).height := sub_nonneg.2 (hsorted k).2
  have hk := hhalves k
  obtain ⟨hfw, hfh⟩ := hfit
  unfold ExtentFits IntType.InRange at *
  omega

/-! ## All the way down -/

/-- Rounding up at each split adds up to less than one. -/
theorem halved_lt {w v u m : Int} (h : m * u < v + m) (hv : 2 * v ≤ w + 1) : m * 2 * u < w + m * 2 := by
  have e : m * 2 * u = 2 * (m * u) := by ring
  omega

theorem extent_le_one {w u : Int} {n : Nat} (h : 2 ^ n * u < w + 2 ^ n) (hw : w ≤ 2 ^ n) : u ≤ 1 := by
  have hpos : (0 : Int) < 2 ^ n := Int.pow_pos (by decide)
  have hlt : 2 ^ n * u < 2 ^ n * 2 := by omega
  exact Int.le_of_lt_add_one (lt_of_mul_lt_mul_left hlt hpos.le)

/-- Every path ends at a box inside, its extents halved and rounded up once for each split. -/
theorem cell_eval (ks : List Corner) : ∀ {b : Box2 (SInt t)}, b.Sorted → b.ExtentFits →
    ∃ q, b.cell ks = some q ∧ q.Sorted ∧ b.Spans q ∧
      2 ^ ks.length * q.width < b.width + 2 ^ ks.length ∧
      2 ^ ks.length * q.height < b.height + 2 ^ ks.length := by
  induction ks with
  | nil =>
    intro b hb _
    exact ⟨b, rfl, hb, Spans.refl b, by simp, by simp⟩
  | cons k ks ih =>
    intro b hb hfit
    obtain ⟨c, hc, h⟩ := exists_splits hb hfit
    obtain ⟨q, hq, hsorted, hspans, hw, hh⟩ := ih (h.sorted k) (h.fits k)
    obtain ⟨hkw, hkh⟩ := h.halves k
    refine ⟨q, by simp only [cell, hc]; exact hq, hsorted, (h.spans k).trans hspans, ?_, ?_⟩
    · exact Int.pow_succ 2 _ ▸ halved_lt hw hkw
    · exact Int.pow_succ 2 _ ▸ halved_lt hh hkh

theorem containsPoint_of_spans {a b : Box2 (SInt t)} (h : a.Spans b) {p : Vec2 (SInt t)}
    (hp : b.containsPoint p = true) : a.containsPoint p = true := by
  obtain ⟨⟨h1, h2⟩, h3, h4⟩ := h
  obtain ⟨⟨g1, g2⟩, g3, g4⟩ := containsPoint_iff.1 hp
  exact containsPoint_iff.2 ⟨⟨h1.trans g1, g2.trans_le h2⟩, h3.trans g3, g4.trans_le h4⟩

/-- Each point of the box is in the cell of one path of each length. The induction is on the depth; the
first corner of the path is the quadrant of the point. -/
theorem existsUnique_cell (n : Nat) : ∀ {b : Box2 (SInt t)} {p : Vec2 (SInt t)}, b.Sorted →
    b.ExtentFits → b.containsPoint p = true →
    ∃! ks : List Corner, ks.length = n ∧ ∃ q, b.cell ks = some q ∧ q.containsPoint p = true := by
  induction n with
  | zero =>
    intro b p _ _ hp
    exact ⟨[], ⟨rfl, b, rfl, hp⟩, fun ks hks => List.eq_nil_of_length_eq_zero hks.1⟩
  | succ n ih =>
    intro b p hb hfit hp
    obtain ⟨c, hc, h⟩ := exists_splits hb hfit
    obtain ⟨k, hk, huniq⟩ := existsUnique_quadrant h.between hp
    obtain ⟨ks, ⟨hlen, q, hq, hqp⟩, hks⟩ := ih (h.sorted k) (h.fits k) hk
    refine ⟨k :: ks, ⟨by simp [hlen], q, by simp only [cell, hc]; exact hq, hqp⟩, ?_⟩
    rintro (_ | ⟨k', ks'⟩) ⟨hlen', q', hq', hqp'⟩
    · cases hlen'
    · simp only [cell, hc] at hq'
      obtain ⟨q'', hq'', -, hspans, -⟩ := cell_eval ks' (h.sorted k') (h.fits k')
      obtain rfl : q' = q'' := Option.some.inj (hq'.symm.trans hq'')
      obtain rfl : k' = k := huniq k' (containsPoint_of_spans hspans hqp')
      rw [hks ks' ⟨by simpa using hlen', q', hq', hqp'⟩]

/-- **The cells of each depth tile the box.** Let a box have its corners in order and a representable
extent, one with no points included. Every path ends at a box inside it, with extents below its own over
`2^n` plus one; each of its points is in the cell of exactly one path of each length, and cells of
different paths of one length do not intersect. From the depth on where `2^n` reaches both extents a cell
has at most one point. -/
theorem cells_tile (b : Box2 (SInt t)) (hb : b.Sorted) (hfit : b.ExtentFits) (n : Nat) :
    (∀ ks : List Corner, ks.length = n → ∃ q, b.cell ks = some q ∧ q.Sorted ∧
      (∀ p, q.containsPoint p = true → b.containsPoint p = true) ∧
      2 ^ n * q.width < b.width + 2 ^ n ∧ 2 ^ n * q.height < b.height + 2 ^ n) ∧
    (∀ p, b.containsPoint p = true →
      ∃! ks : List Corner, ks.length = n ∧ ∃ q, b.cell ks = some q ∧ q.containsPoint p = true) ∧
    (∀ (ks ks' : List Corner) (q q' : Box2 (SInt t)), ks.length = n → ks'.length = n → ks ≠ ks' →
      b.cell ks = some q → b.cell ks' = some q' → ¬ q.intersects q' = true) ∧
    (b.width ≤ 2 ^ n → b.height ≤ 2 ^ n → ∀ (ks : List Corner) (q : Box2 (SInt t)) (p p' : Vec2 (SInt t)),
      ks.length = n → b.cell ks = some q → q.containsPoint p = true → q.containsPoint p' = true →
      p = p') := by
  have hcell := fun ks => cell_eval ks hb hfit
  have huniq := fun p => existsUnique_cell n (p := p) hb hfit
  refine ⟨?_, huniq, ?_, ?_⟩
  · rintro ks rfl
    obtain ⟨q, hq, hsorted, hspans, hw, hh⟩ := hcell ks
    exact ⟨q, hq, hsorted, fun p => containsPoint_of_spans hspans, hw, hh⟩
  · intro ks ks' q q' hks hks' hne hq hq' hi
    obtain ⟨p, hp, hp'⟩ := intersects_iff_exists.1 hi
    obtain ⟨q₀, hq₀, -, hspans, -⟩ := hcell ks
    obtain rfl : q₀ = q := Option.some.inj (hq₀.symm.trans hq)
    exact hne ((huniq p (containsPoint_of_spans hspans hp)).unique ⟨hks, _, hq, hp⟩ ⟨hks', _, hq', hp'⟩)
  · rintro hw hh ks q p p' rfl hq hp hp'
    obtain ⟨q₀, hq₀, -, -, hqw, hqh⟩ := hcell ks
    obtain rfl : q₀ = q := Option.some.inj (hq₀.symm.trans hq)
    have hx := extent_le_one hqw hw
    have hy := extent_le_one hqh hh
    obtain ⟨⟨g1, g2⟩, g3, g4⟩ := containsPoint_iff.1 hp
    obtain ⟨⟨g1', g2'⟩, g3', g4'⟩ := containsPoint_iff.1 hp'
    rw [SInt.le_iff] at g1 g3 g1' g3'
    rw [SInt.lt_iff] at g2 g4 g2' g4'
    unfold width at hx
    unfold height at hy
    exact Vec2.ext (SInt.ext (by omega)) (SInt.ext (by omega))

/-- A 5 by 1 box, three splits deep. -/
theorem cells_tile_strip :
    let b : Box2 (SInt IntType.int32) :=
      ⟨⟨Arith.lit (-2), Arith.lit 7⟩, ⟨Arith.lit 3, Arith.lit 8⟩⟩
    ∃! ks : List Corner, ks.length = 3 ∧ ∃ q, b.cell ks = some q ∧
      q.containsPoint ⟨Arith.lit 2, Arith.lit 7⟩ = true := by
  intro b
  obtain ⟨-, huniq, -⟩ := cells_tile b (by decide) ⟨by decide, by decide⟩ 3
  exact huniq _ (by decide)

end BoomEd.Box2
