import Mathlib.Algebra.Ring.Int.Defs
import Mathlib.Order.Interval.Set.LinearOrder
import Mathlib.Order.MinMax
import Mathlib.Data.Set.Prod
import Mathlib.Data.Nat.Log
/-!
# Half-open rectangles and bisection

A half-open rectangle is a product `[x₀, x₁) × [y₀, y₁)` in two linear orders. Part one reads
emptiness, inclusion and overlap of rectangles off their corners. Part two is about cutting an
interval of integers in the middle: the two halves are disjoint, cover it, and repeated halving comes
down to length one.
-/

namespace HalfOpen

universe u v

variable {α : Type u} {β : Type v} [LinearOrder α] [LinearOrder β]

def rect (x₀ x₁ : α) (y₀ y₁ : β) : Set (α × β) := Set.Ico x₀ x₁ ×ˢ Set.Ico y₀ y₁

theorem mem_rect {x₀ x₁ x : α} {y₀ y₁ y : β} :
    (x, y) ∈ rect x₀ x₁ y₀ y₁ ↔ (x₀ ≤ x ∧ x < x₁) ∧ y₀ ≤ y ∧ y < y₁ := Iff.rfl

theorem rect_nonempty {x₀ x₁ : α} {y₀ y₁ : β} : (rect x₀ x₁ y₀ y₁).Nonempty ↔ x₀ < x₁ ∧ y₀ < y₁ := by
  rw [rect, Set.prod_nonempty_iff, Set.nonempty_Ico, Set.nonempty_Ico]

/-- Inclusion of a non-empty rectangle is a comparison of corners. -/
theorem rect_subset_rect {x₀ x₁ x₂ x₃ : α} {y₀ y₁ y₂ y₃ : β} (hx : x₀ < x₁) (hy : y₀ < y₁) :
    rect x₀ x₁ y₀ y₁ ⊆ rect x₂ x₃ y₂ y₃ ↔ (x₂ ≤ x₀ ∧ x₁ ≤ x₃) ∧ y₂ ≤ y₀ ∧ y₁ ≤ y₃ := by
  rw [rect, rect, Set.prod_subset_prod_iff' (rect_nonempty.2 ⟨hx, hy⟩), Set.Ico_subset_Ico_iff hx,
    Set.Ico_subset_Ico_iff hy]

theorem rect_inter_rect (x₀ x₁ x₂ x₃ : α) (y₀ y₁ y₂ y₃ : β) :
    rect x₀ x₁ y₀ y₁ ∩ rect x₂ x₃ y₂ y₃ =
      rect (max x₀ x₂) (min x₁ x₃) (max y₀ y₂) (min y₁ y₃) := by
  rw [rect, rect, Set.prod_inter_prod, Set.Ico_inter_Ico, Set.Ico_inter_Ico]
  rfl

/-- Two rectangles have a common point just when both are non-empty and overlap on both axes. -/
theorem rect_inter_nonempty {x₀ x₁ x₂ x₃ : α} {y₀ y₁ y₂ y₃ : β} :
    (rect x₀ x₁ y₀ y₁ ∩ rect x₂ x₃ y₂ y₃).Nonempty ↔
      (x₀ < x₁ ∧ y₀ < y₁) ∧ (x₂ < x₃ ∧ y₂ < y₃) ∧ (x₀ < x₃ ∧ x₂ < x₁) ∧ y₀ < y₃ ∧ y₂ < y₁ := by
  rw [rect_inter_rect, rect_nonempty]
  simp only [max_lt_iff, lt_min_iff]
  tauto

/-- What holds of the two coordinates separately holds along each axis. -/
theorem forall_mem_rect_iff {x₀ x₁ : α} {y₀ y₁ : β} (hx : x₀ < x₁) (hy : y₀ < y₁) {p : α → Prop}
    {q : β → Prop} : (∀ x y, (x, y) ∈ rect x₀ x₁ y₀ y₁ → p x ∧ q y) ↔
      (∀ x, x₀ ≤ x → x < x₁ → p x) ∧ ∀ y, y₀ ≤ y → y < y₁ → q y := by
  constructor
  · intro h
    refine ⟨fun x h0 h1 => ?_, fun y h0 h1 => ?_⟩
    · exact (h x y₀ ⟨⟨h0, h1⟩, le_rfl, hy⟩).1
    · exact (h x₀ y ⟨⟨le_rfl, hx⟩, h0, h1⟩).2
  · rintro ⟨hp, hq⟩ x y ⟨⟨hx0, hx1⟩, hy0, hy1⟩
    exact ⟨hp x hx0 hx1, hq y hy0 hy1⟩

/-- The hull of two intervals has no interior just when both sit at one coordinate. -/
theorem hull_degenerate {l₁ h₁ l₂ h₂ : α} (hl₁ : l₁ ≤ h₁) (hl₂ : l₂ ≤ h₂) :
    max h₁ h₂ ≤ min l₁ l₂ ↔ l₁ = h₁ ∧ l₂ = l₁ ∧ h₂ = l₁ := by
  rw [max_le_iff, le_min_iff, le_min_iff]
  constructor
  · rintro ⟨⟨h11, h12⟩, h21, h22⟩
    have e : l₁ = h₁ := le_antisymm hl₁ h11
    have h2 : l₁ ≤ l₂ := e.trans_le h12
    exact ⟨e, le_antisymm (hl₂.trans h21) h2, le_antisymm h21 (h2.trans hl₂)⟩
  · rintro ⟨rfl, rfl, rfl⟩
    exact ⟨⟨le_rfl, le_rfl⟩, le_rfl, le_rfl⟩

/-- The hull `u` of a degenerate interval `d` and those of a list, with lower ends `f` and upper ends
`g`, is degenerate just when none of the list leaves the point `d` sits at. -/
theorem hull_degenerate_list {ι : Type v} {f g : ι → α} {d u : ι} {l : List ι} (hd : f d = g d)
    (hspan : ∀ e ∈ d :: l, f u ≤ f e ∧ g e ≤ g u) (hlo : ∃ e ∈ d :: l, f u = f e)
    (hhi : ∃ e ∈ d :: l, g u = g e) :
    g u ≤ f u ↔ ∀ e ∈ l, f d ≤ f e ∧ g e ≤ f d := by
  obtain ⟨⟨hdlo, hdhi⟩, hl⟩ := List.forall_mem_cons.1 hspan
  constructor
  · intro h e he
    obtain ⟨helo, hehi⟩ := hl e he
    exact ⟨hd.le.trans (hdhi.trans (h.trans helo)), hehi.trans (h.trans hdlo)⟩
  · intro h
    -- both ends of the hull come from `d` or from the list
    have hall : ∀ e ∈ d :: l, f d ≤ f e ∧ g e ≤ f d := List.forall_mem_cons.2 ⟨⟨le_rfl, hd.ge⟩, h⟩
    obtain ⟨e1, he1, q1⟩ := hlo
    obtain ⟨e2, he2, q2⟩ := hhi
    rw [q1, q2]
    exact (hall e2 he2).2.trans (hall e1 he1).1

/-! ## Cutting an interval -/

/-- Below the cut or above it. -/
inductive Side where
  | lo
  | hi
deriving DecidableEq

def Side.pick {γ : Type u} (a b : γ) : Side → γ
  | .lo => a
  | .hi => b

/-- The part of `[l, h)` on one side of the cut `c`. -/
def part (l c h : α) (s : Side) : Set α := Set.Ico (s.pick l c) (s.pick c h)

/-- Every point of the interval is on exactly one side, wherever the cut is. -/
theorem existsUnique_mem_part {l c h x : α} (hx : x ∈ Set.Ico l h) : ∃! s, x ∈ part l c h s := by
  obtain ⟨hl, hh⟩ := hx
  rcases lt_or_ge x c with hc | hc
  · refine ⟨.lo, ⟨hl, hc⟩, fun s hs => ?_⟩
    cases s with
    | lo => rfl
    | hi => exact absurd (lt_of_lt_of_le hc hs.1) (lt_irrefl _)
  · refine ⟨.hi, ⟨hc, hh⟩, fun s hs => ?_⟩
    cases s with
    | lo => exact absurd (lt_of_lt_of_le hs.2 hc) (lt_irrefl _)
    | hi => rfl

theorem part_subset {l c h : α} (hl : l ≤ c) (hh : c ≤ h) (s : Side) : part l c h s ⊆ Set.Ico l h := by
  cases s with
  | lo => exact Set.Ico_subset_Ico_right hh
  | hi => exact Set.Ico_subset_Ico_left hl

/-- Sorting an end of the interval with the cut gives the edges of the part at that end. -/
theorem min_pick {l c h : α} (hl : l ≤ c) (hh : c ≤ h) (s : Side) :
    min (s.pick l h) c = s.pick l c := by
  cases s with
  | lo => exact min_eq_left hl
  | hi => exact min_eq_right hh

theorem max_pick {l c h : α} (hl : l ≤ c) (hh : c ≤ h) (s : Side) :
    max (s.pick l h) c = s.pick c h := by
  cases s with
  | lo => exact max_eq_right hl
  | hi => exact max_eq_left hh

/-! ### Integers: cutting in the middle -/

/-- The middle of a non-empty interval is in it, and neither part is longer than half, rounded up. -/
theorem middle_part_le {l h : Int} (hlh : l < h) (s : Side) :
    (l ≤ l + (h - l) / 2 ∧ l + (h - l) / 2 < h) ∧
      2 * (s.pick (l + (h - l) / 2) h - s.pick l (l + (h - l) / 2)) ≤ h - l + 1 := by
  cases s with
  | lo => simp only [Side.pick]; omega
  | hi => simp only [Side.pick]; omega

/-- Halving, rounded up, takes `2^(n + 1)` below `2^n`. -/
theorem le_two_pow_of_halved {d e : Int} {n : Nat} (hd : d ≤ 2 ^ (n + 1)) (he : 2 * e ≤ d + 1) :
    e ≤ 2 ^ n := by
  rw [Int.pow_succ] at hd
  omega

theorem le_two_pow {e : Int} {n : Nat} (h : e ≤ n) : e ≤ 2 ^ n := by
  have hlt : n < 2 ^ n := Nat.lt_two_pow_self
  have hcast : (n : Int) ≤ 2 ^ n := by exact_mod_cast hlt.le
  omega

end HalfOpen
