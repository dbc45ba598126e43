import Mathlib.Algebra.Order.Floor.Ring
import Mathlib.Algebra.Order.Field.Basic
import Mathlib.Order.Max
/-!
# Truncation towards zero

`trunc` drops the fractional part: the floor from zero on, the ceiling below. It is monotone and fixes
the integers, but it is not strict: which intervals `[l, h)` it maps below the image of their upper
end is `trunc_lt_trunc_iff`, and the answer differs on the two sides of zero.
-/

namespace Trunc

universe u

variable {K : Type u} [Field K] [LinearOrder K] [FloorRing K]

def trunc (x : K) : ℤ := if 0 ≤ x then ⌊x⌋ else ⌈x⌉

theorem trunc_of_nonneg {x : K} (h : 0 ≤ x) : trunc x = ⌊x⌋ := if_pos h

theorem trunc_nonneg {x : K} (h : 0 ≤ x) : 0 ≤ trunc x := by
  rw [trunc_of_nonneg h]
  exact Int.floor_nonneg.2 h

variable [IsStrictOrderedRing K]

theorem trunc_of_nonpos {x : K} (h : x ≤ 0) : trunc x = ⌈x⌉ := by
  rcases h.eq_or_lt with rfl | hlt
  · simp [trunc]
  · exact if_neg hlt.not_ge

@[simp] theorem trunc_intCast (n : ℤ) : trunc (n : K) = n := by
  rcases le_total 0 (n : K) with h | h
  · rw [trunc_of_nonneg h, Int.floor_intCast]
  · rw [trunc_of_nonpos h, Int.ceil_intCast]

theorem trunc_nonpos {x : K} (h : x ≤ 0) : trunc x ≤ 0 := by
  rw [trunc_of_nonpos h]
  exact Int.ceil_nonpos.2 h

theorem trunc_mono {x y : K} (hxy : x ≤ y) : trunc x ≤ trunc y := by
  rcases le_total 0 x with hx | hx
  · rw [trunc_of_nonneg hx, trunc_of_nonneg (hx.trans hxy)]
    exact Int.floor_mono hxy
  · rcases le_total 0 y with hy | hy
    · exact (trunc_nonpos hx).trans (trunc_nonneg hy)
    · rw [trunc_of_nonpos hx, trunc_of_nonpos hy]
      exact Int.ceil_mono hxy

theorem le_trunc {n : ℤ} {x : K} (h : (n : K) ≤ x) : n ≤ trunc x := by
  have hn := trunc_mono h
  rwa [trunc_intCast] at hn

/-- Below a positive integer everything truncates below it. -/
theorem trunc_lt_of_lt {n : ℤ} (hn : 0 < n) {x : K} (h : x < n) : trunc x < n := by
  rcases le_total 0 x with hx | hx
  · rw [trunc_of_nonneg hx]
    exact Int.floor_lt.2 h
  · exact (trunc_nonpos hx).trans_lt hn

/-- Up to zero some point just below `h` truncates to the same integer. -/
theorem exists_trunc_eq_of_nonpos {l h : K} (hlh : l < h) (h0 : h ≤ 0) :
    ∃ x, l ≤ x ∧ x < h ∧ trunc x = trunc h := by
  have hc : ((trunc h - 1 : ℤ) : K) < h := by
    rw [← Int.lt_ceil, trunc_of_nonpos h0]
    exact sub_one_lt _
  obtain ⟨x, hx, hxh⟩ := exists_between (max_lt hlh hc)
  have hx0 : x ≤ 0 := hxh.le.trans h0
  have hle : trunc h - 1 < trunc x := by
    rw [trunc_of_nonpos hx0, Int.lt_ceil]
    exact (le_max_right _ _).trans_lt hx
  refine ⟨x, (le_max_left _ _).trans hx.le, hxh, le_antisymm (trunc_mono hxh.le) ?_⟩
  omega

/-- Above zero the whole part of `h` is such a point, unless it is `h`. -/
theorem exists_trunc_eq_of_lt {l h : K} (hlh : l < h) (hw : (trunc h : K) < h) :
    ∃ x, l ≤ x ∧ x < h ∧ trunc x = trunc h := by
  have hlt : max l (trunc h) < h := max_lt hlh hw
  exact ⟨max l (trunc h), le_max_left _ _, hlt,
    le_antisymm (trunc_mono hlt.le) (le_trunc (le_max_right _ _))⟩

/-- **When truncation keeps a half-open interval half-open**: the upper end is a positive integer. -/
theorem trunc_lt_trunc_iff {l h : K} (hlh : l < h) :
    (∀ x, l ≤ x → x < h → trunc x < trunc h) ↔ ∃ n : ℤ, 0 < n ∧ h = n := by
  constructor
  · intro hall
    have hpos : 0 < h := by
      by_contra hle
      obtain ⟨x, hlx, hxh, e⟩ := exists_trunc_eq_of_nonpos hlh (not_lt.1 hle)
      exact (hall x hlx hxh).ne e
    have hle : (trunc h : K) ≤ h := by
      rw [trunc_of_nonneg hpos.le]
      exact Int.floor_le h
    have e : (trunc h : K) = h := by
      by_contra hne
      obtain ⟨x, hlx, hxh, e⟩ := exists_trunc_eq_of_lt hlh (lt_of_le_of_ne hle hne)
      exact (hall x hlx hxh).ne e
    refine ⟨trunc h, ?_, e.symm⟩
    rw [← e, Int.cast_pos] at hpos
    exact hpos
  · rintro ⟨n, hn, rfl⟩ x - hx
    rw [trunc_intCast]
    exact trunc_lt_of_lt hn hx

end Trunc
