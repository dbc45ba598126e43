import BoomEd.Length
import BoomEd.Products
import BoomEd.Lib.Binary
import Mathlib.Analysis.Real.Sqrt
/-!
# Lengths of integer vectors

At an integral type the squared length is a `std::int64_t`, and `std::sqrt` of an integer is taken in
`double`: 53 bits, every operation rounded to nearest. `len` truncates the root. The result is the
whole part of the length or one more (`len_off_by_one`); `distance` obeys the triangle inequality up
to two (`distance_near_metric`).
-/

namespace BoomEd

open Cxx Binary

/-- The argument is converted to `double` and the root truncated. The cast of a NaN, the root of a
negative number, is undefined. -/
instance : Root (SInt IntType.int64) where
  sqrtCast r :=
    if 0 ≤ r.val then
      let m : Int := isqrt 53 r.val.toNat
      if h : IntType.int64.InRange m then some ⟨m, h⟩ else none
    else none

namespace Vec2

variable {t : IntType}

instance : Root (Scalar.Result (SInt t)) := inferInstanceAs (Root (SInt IntType.int64))
instance : DecidableEq (Scalar.Result (SInt t)) := inferInstanceAs (DecidableEq (SInt IntType.int64))

/-- The exact squared length. -/
def sqLen (a : Vec2 (SInt t)) : Nat := a.x.val.natAbs ^ 2 + a.y.val.natAbs ^ 2

theorem sqLen_cast (a : Vec2 (SInt t)) :
    (sqLen a : Int) = a.x.val * a.x.val + a.y.val * a.y.val := by
  rw [sqLen]
  push_cast
  rw [sq_abs, sq_abs, sq, sq]

theorem sqLen_lt (ht : t.width ≤ 32) {a : Vec2 (SInt t)} (h : ¬ AtCorner a) :
    sqLen a < 9223372036854775808 := by
  have hr := (dot_inRange_iff ht a a).2 fun hc => h hc.1
  rw [← sqLen_cast] at hr
  have := hr.2
  rw [IntType.half_int64] at this
  omega

theorem sqLen_eq_zero {a : Vec2 (SInt t)} : sqLen a = 0 ↔ a = zero := by
  rw [eq_zero_iff, sqLen, Nat.add_eq_zero_iff, Nat.pow_eq_zero, Nat.pow_eq_zero]
  omega

/-- Below `2^63` the trip through `double` stays far inside the range. -/
theorem isqrt_inRange {n : Nat} (h : n < 9223372036854775808) :
    IntType.int64.InRange (isqrt 53 n) := by
  have hle : isqrt 53 n ≤ 2 ^ 53 := isqrt_le_pow (by decide) (h.le.trans (by decide))
  unfold IntType.InRange
  rw [IntType.half_int64]
  omega

theorem lensqr_eval (ht : t.width ≤ 32) {a : Vec2 (SInt t)} (h : ¬ AtCorner a) :
    ∃ r : SInt IntType.int64, lensqr a = some r ∧ r.val = sqLen a := by
  have hr := (dot_inRange_iff ht a a).2 fun hc => h hc.1
  exact ⟨_, dot_exact ht hr, (sqLen_cast a).symm⟩

theorem len_eval (ht : t.width ≤ 32) {a : Vec2 (SInt t)} (h : ¬ AtCorner a) :
    len a = some ⟨_, isqrt_inRange (sqLen_lt ht h)⟩ := by
  obtain ⟨r, hr, e⟩ := lensqr_eval ht h
  have hnat : r.val.toNat = sqLen a := by rw [e, Int.toNat_natCast]
  have hfit := isqrt_inRange (sqLen_lt ht h)
  unfold len
  rw [hr]
  show (if 0 ≤ r.val then _ else none) = _
  rw [if_pos (by omega)]
  simp only [hnat]
  exact dif_pos hfit

/-- The one vector without a squared length is the one without a length. -/
theorem len_eq_none_iff (ht : t.width ≤ 32) {a : Vec2 (SInt t)} : len a = none ↔ AtCorner a := by
  constructor
  · intro hn
    by_contra h
    rw [len_eval ht h] at hn
    cases hn
  · intro h
    have hr := mt (dot_inRange_iff ht a a).1 fun hc => hc ⟨h, h⟩
    have hdot : lensqr a = none := by
      rw [lensqr, dot_eval ht, SInt.ofExpr_of_le_width (by decide), dif_neg hr]
    unfold len
    rw [hdot]
    rfl

theorem val_of_len (ht : t.width ≤ 32) {a : Vec2 (SInt t)} {r : SInt IntType.int64}
    (hr : len a = some r) : ¬ AtCorner a ∧ r.val = isqrt 53 (sqLen a) := by
  have h : ¬ AtCorner a := fun hc => by
    rw [(len_eq_none_iff ht).2 hc] at hr
    cases hr
  rw [len_eval ht h] at hr
  cases hr
  exact ⟨h, rfl⟩

/-- `len` is the whole part of the length or one more, and not more for short vectors. -/
theorem len_near (ht : t.width ≤ 32) {a : Vec2 (SInt t)} {r : SInt IntType.int64}
    (hr : len a = some r) :
    (r.val = (sqLen a).sqrt ∨ r.val = (sqLen a).sqrt + 1) ∧
      (r.val = (sqLen a).sqrt + 1 ↔ Overshoots 53 (sqLen a)) ∧
      (sqLen a < 2 ^ 52 → r.val = (sqLen a).sqrt) := by
  obtain ⟨h, e⟩ := val_of_len ht hr
  have hlt : sqLen a < 4 ^ 53 := (sqLen_lt ht h).trans (by decide)
  obtain ⟨hlo, hhi⟩ := isqrt_bounds (p := 53) (by decide) hlt
  refine ⟨by omega, ?_, fun hs => ?_⟩
  · rw [← isqrt_eq_succ_iff (p := 53) (by decide) hlt, e]
    omega
  · rw [e, isqrt_exact hs]

theorem len_of_square (ht : t.width ≤ 32) {a : Vec2 (SInt t)} {r : SInt IntType.int64}
    (hr : len a = some r) {k : Nat} (hk : sqLen a = k * k) : r.val = k := by
  obtain ⟨h, e⟩ := val_of_len ht hr
  have hlt : k * k < 2 ^ 53 * 2 ^ 53 := hk ▸ (sqLen_lt ht h).trans (by decide)
  rw [e, hk, isqrt_mul_self (by decide) (Nat.mul_self_lt_mul_self_iff.1 hlt)]

theorem len_eq_zero (ht : t.width ≤ 32) {a : Vec2 (SInt t)} {r : SInt IntType.int64}
    (hr : len a = some r) : r.val = 0 ↔ a = zero := by
  rw [← sqLen_eq_zero]
  constructor
  · intro h0
    obtain ⟨hnear, -⟩ := len_near ht hr
    exact Nat.sqrt_eq_zero.1 (by omega)
  · intro h0
    exact len_of_square (k := 0) ht hr h0

theorem len_mono (ht : t.width ≤ 32) {a b : Vec2 (SInt t)} {r s : SInt IntType.int64}
    (hr : len a = some r) (hs : len b = some s) (h : sqLen a ≤ sqLen b) : r ≤ s := by
  rw [SInt.le_iff, (val_of_len ht hr).2, (val_of_len ht hs).2]
  exact_mod_cast isqrt_mono (by decide) h

/-- **The integer length is off by one at most.** Up to 32 bits `len` is undefined just where both
components are `-2^31`, a value that only a 32-bit type has. Elsewhere it is the whole part of the length
or one more; one more just when the rounded root reaches the next whole number, never for a squared
length below `2^52` and never for the square of a whole number. A longer vector does not have a smaller
`len`, and only the zero vector has `len` 0. -/
theorem len_off_by_one (ht : t.width ≤ 32) (a : Vec2 (SInt t)) :
    (len a = none ↔ AtCorner a) ∧
    ∀ r : SInt IntType.int64, len a = some r →
      (r.val = (sqLen a).sqrt ∨ r.val = (sqLen a).sqrt + 1) ∧
      (r.val = (sqLen a).sqrt + 1 ↔ Overshoots 53 (sqLen a)) ∧
      (sqLen a < 2 ^ 52 → r.val = (sqLen a).sqrt) ∧
      (∀ k : Nat, sqLen a = k * k → r.val = k) ∧
      (r.val = 0 ↔ a = zero) ∧
      (∀ (b : Vec2 (SInt t)) (s : SInt IntType.int64), len b = some s → sqLen a ≤ sqLen b → r ≤ s) := by
  refine ⟨len_eq_none_iff ht, fun r hr => ?_⟩
  obtain ⟨hnear, hover, hsmall⟩ := len_near ht hr
  exact ⟨hnear, hover, hsmall, fun _ => len_of_square ht hr, len_eq_zero ht hr,
    fun _ _ => len_mono ht hr⟩

theorem len_off_by_one_overshoots :
    let a : Vec2 (SInt IntType.int32) := ⟨Arith.lit 16384, Arith.lit 134217728⟩
    sqLen a < 134217729 * 134217729 ∧ ∃ r : SInt IntType.int64, len a = some r ∧
      r.val = (sqLen a).sqrt + 1 := by
  intro a
  have ha : ¬ AtCorner a := by decide
  obtain ⟨-, h⟩ := len_off_by_one (by decide) a
  have hr := len_eval (by decide) ha
  have hover : Overshoots 53 (sqLen a) := by decide +kernel
  exact ⟨by decide, _, hr, (h _ hr).2.1.2 hover⟩

/-! ## Distances -/

/-- What a difference can only be: each component converted. -/
theorem sub_eq_some {a b d : Vec2 (SInt t)} (h : sub b a = some d) :
    d = ⟨SInt.wrap t (b.x.val - a.x.val), SInt.wrap t (b.y.val - a.y.val)⟩ := by
  cases hx : Arith.sub b.x a.x with
  | none => simp [sub, hx] at h
  | some dx =>
    cases hy : Arith.sub b.y a.y with
    | none => simp [sub, hx, hy] at h
    | some dy =>
      simp only [sub, hx, hy, Option.bind_eq_bind, Option.bind_some, Option.pure_def,
        Option.some.injEq] at h
      rw [← h, SInt.ofExpr_eq_some hx, SInt.ofExpr_eq_some hy]

theorem distance_eq_some (ht : t.width ≤ 32) {a b : Vec2 (SInt t)} {r : SInt IntType.int64}
    (h : distance a b = some r) :
    ∃ d, sub b a = some d ∧ len d = some r ∧ r.val = isqrt 53 (sqLen d) := by
  cases hd : sub b a with
  | none => simp [distance, hd] at h
  | some d =>
    have hr : len d = some r := by simpa [distance, hd] using h
    exact ⟨d, rfl, hr, (val_of_len ht hr).2⟩

/-- The opposite difference may be undefined, but has no other length. -/
theorem sqLen_sub_comm {a b d e : Vec2 (SInt t)} (hd : sub b a = some d) (he : sub a b = some e) :
    sqLen e = sqLen d := by
  have hx := SInt.natAbs_wrap_neg t (b.x.val - a.x.val)
  have hy := SInt.natAbs_wrap_neg t (b.y.val - a.y.val)
  rw [neg_sub] at hx hy
  rw [sub_eq_some hd, sub_eq_some he]
  simp only [sqLen, hx, hy]

theorem distance_comm (ht : t.width ≤ 32) {a b : Vec2 (SInt t)} {r s : SInt IntType.int64}
    (hr : distance a b = some r) (hs : distance b a = some s) : r = s := by
  obtain ⟨d, hd, -, er⟩ := distance_eq_some ht hr
  obtain ⟨e, he, -, es⟩ := distance_eq_some ht hs
  apply SInt.ext
  rw [er, es, sqLen_sub_comm hd he]

/-- The difference as a real vector. -/
def realDiff (a b : Vec2 (SInt t)) : Vec2 ℝ := ⟨(b.x.val - a.x.val : Int), (b.y.val - a.y.val : Int)⟩

theorem realDiff_add (a b c : Vec2 (SInt t)) : realDiff a b + realDiff b c = realDiff a c := by
  ext <;> simp [realDiff]

theorem realLen_realDiff {a b d : Vec2 (SInt t)} (hf : DifferenceFits a b) (hd : sub b a = some d) :
    (sqLen d : Int) = exactDistancesqr a b ∧ realLen (realDiff a b) = Real.sqrt (sqLen d) := by
  obtain ⟨d', hd', hx, hy⟩ := differenceExact_iff.2 hf
  cases hd.symm.trans hd'
  have e : (sqLen d : Int) = exactDistancesqr a b := by
    rw [sqLen_cast, hx, hy, exactDistancesqr]
    ring
  refine ⟨e, ?_⟩
  have er : ((sqLen d : Int) : ℝ) = realDot (realDiff a b) (realDiff a b) := by
    rw [e, realDot_eq, exactDistancesqr, realDiff]
    push_cast
    ring
  rw [realLen_eq_iff, ← er, Int.cast_natCast]
  exact ⟨Real.sqrt_nonneg _, Real.mul_self_sqrt (Nat.cast_nonneg _)⟩

/-- Where the differences fit, `distance` is within one of the real distance. -/
theorem distance_near (ht : t.width ≤ 32) {a b : Vec2 (SInt t)} {r : SInt IntType.int64}
    (hf : DifferenceFits a b) (h : distance a b = some r) :
    realLen (realDiff a b) < r.val + 1 ∧ (r.val : ℝ) ≤ realLen (realDiff a b) + 1 ∧
      (exactDistancesqr a b < 2 ^ 52 → (r.val : ℝ) ≤ realLen (realDiff a b)) := by
  obtain ⟨d, hd, hr, -⟩ := distance_eq_some ht h
  obtain ⟨hnear, -, hsmall⟩ := len_near ht hr
  obtain ⟨e, el⟩ := realLen_realDiff hf hd
  have hlo := Real.nat_sqrt_le_real_sqrt (a := sqLen d)
  have hhi := Real.real_sqrt_lt_nat_sqrt_succ (a := sqLen d)
  have hr1 : ((sqLen d).sqrt : ℝ) ≤ r.val := by
    exact_mod_cast (by omega : ((sqLen d).sqrt : Int) ≤ r.val)
  have hr2 : (r.val : ℝ) ≤ (sqLen d).sqrt + 1 := by
    exact_mod_cast (by omega : r.val ≤ ((sqLen d).sqrt : Int) + 1)
  rw [el]
  refine ⟨by linarith, by linarith, fun hs => ?_⟩
  have hval : r.val = (sqLen d).sqrt := hsmall (by omega)
  rw [hval]
  exact_mod_cast hlo

theorem distance_eq_zero (ht : t.width ≤ 32) {a b : Vec2 (SInt t)} {r : SInt IntType.int64}
    (hf : DifferenceFits a b) (h : distance a b = some r) : r.val = 0 ↔ a = b := by
  obtain ⟨d, hd, hr, -⟩ := distance_eq_some ht h
  obtain ⟨d', hd', hx, hy⟩ := differenceExact_iff.2 hf
  cases hd.symm.trans hd'
  rw [len_eq_zero ht hr, eq_zero_iff, hx, hy, Vec2.ext_iff, SInt.ext_iff, SInt.ext_iff]
  omega

/-- Below `int` the difference wraps into a range that holds no component of the corner. -/
theorem distance_narrow (hlt : t.width < 32) (a b : Vec2 (SInt t)) : ∃ r, distance a b = some r := by
  have ht : t.width ≤ 32 := hlt.le
  have hd := sub_narrow hlt a b
  have hne : ¬ AtCorner (⟨SInt.wrap t (b.x.val - a.x.val), SInt.wrap t (b.y.val - a.y.val)⟩ :
      Vec2 (SInt t)) := fun hc => by
    have hx := (SInt.wrap t (b.x.val - a.x.val)).inRange.1
    have hh : 2 * t.half ≤ IntType.int32.half := IntType.two_mul_half_le hlt
    have hc1 : (SInt.wrap t (b.x.val - a.x.val)).val = -2147483648 := hc.1
    rw [IntType.half_int32] at hh
    omega
  refine ⟨(⟨_, isqrt_inRange (sqLen_lt ht hne)⟩ : SInt IntType.int64), ?_⟩
  unfold distance
  rw [hd]
  exact len_eval ht hne

/-- From `int` on either step can fail: a component of the difference overflows, or the difference is
the corner and its squared length overflows. -/
theorem distance_wide (hw : 32 ≤ t.width) (ht : t.width ≤ 32) (a b : Vec2 (SInt t)) :
    (∃ r, distance a b = some r) ↔ DifferenceFits a b ∧
      ¬ (b.x.val - a.x.val = -2147483648 ∧ b.y.val - a.y.val = -2147483648) := by
  constructor
  · rintro ⟨r, hr⟩
    obtain ⟨d, hd, hlen, -⟩ := distance_eq_some ht hr
    have hf : DifferenceFits a b := by
      by_contra hf
      rw [sub_undefined hw hf] at hd
      cases hd
    obtain ⟨d', hd', hx, hy⟩ := differenceExact_iff.2 hf
    cases hd.symm.trans hd'
    exact ⟨hf, hx ▸ hy ▸ (val_of_len ht hlen).1⟩
  · rintro ⟨hf, hne⟩
    obtain ⟨d, hd, hx, hy⟩ := differenceExact_iff.2 hf
    have hcorner : ¬ AtCorner d := by rwa [AtCorner, hx, hy]
    refine ⟨(⟨_, isqrt_inRange (sqLen_lt ht hcorner)⟩ : SInt IntType.int64), ?_⟩
    unfold distance
    rw [hd]
    exact len_eval ht hcorner

/-- **The integer distance is nearly a metric.** Below `int` every distance is defined; from `int` on
just those whose differences fit, save where both are `-2^31`. Where both orders of the arguments are
defined they agree. Where the differences fit, a distance is within one of the real distance and
vanishes just on equal points; the triangle inequality holds up to two, up to one when the long side is
shorter than `2^26`. -/
theorem distance_near_metric (ht : t.width ≤ 32) (a b c : Vec2 (SInt t)) :
    ((t.width < 32 → ∃ r, distance a b = some r) ∧
      (32 ≤ t.width → ((∃ r, distance a b = some r) ↔ DifferenceFits a b ∧
        ¬ (b.x.val - a.x.val = -2147483648 ∧ b.y.val - a.y.val = -2147483648)))) ∧
    (∀ r s, distance a b = some r → distance b a = some s → r = s) ∧
    (∀ r, DifferenceFits a b → distance a b = some r →
      (r.val = 0 ↔ a = b) ∧ |(r.val : ℝ) - realLen (realDiff a b)| ≤ 1) ∧
    (∀ ab bc ac, DifferenceFits a b → DifferenceFits b c → DifferenceFits a c →
      distance a b = some ab → distance b c = some bc → distance a c = some ac →
      ac.val ≤ ab.val + bc.val + 2 ∧
        (exactDistancesqr a c < 2 ^ 52 → ac.val ≤ ab.val + bc.val + 1)) := by
  refine ⟨⟨fun hlt => distance_narrow hlt a b, fun hw => distance_wide hw ht a b⟩,
    fun r s => distance_comm ht, fun r hf hr => ?_,
    fun ab bc ac fab fbc fac hab hbc hac => ?_⟩
  · obtain ⟨h1, h2, -⟩ := distance_near ht hf hr
    refine ⟨distance_eq_zero ht hf hr, abs_le.2 ⟨?_, ?_⟩⟩ <;> linarith
  · obtain ⟨h1, -⟩ := distance_near ht fab hab
    obtain ⟨h2, -⟩ := distance_near ht fbc hbc
    obtain ⟨-, h3, h4⟩ := distance_near ht fac hac
    have htri := realLen_add_le (realDiff a b) (realDiff b c)
    rw [realDiff_add] at htri
    constructor
    · have hlt : (ac.val : ℝ) < ((ab.val + bc.val + 3 : Int) : ℝ) := by push_cast; linarith
      have hlt' : ac.val < ab.val + bc.val + 3 := by exact_mod_cast hlt
      omega
    · intro hs
      have hle := h4 hs
      have hlt : (ac.val : ℝ) < ((ab.val + bc.val + 2 : Int) : ℝ) := by push_cast; linarith
      have hlt' : ac.val < ab.val + bc.val + 2 := by exact_mod_cast hlt
      omega

/-- Three points of a line: `len` is 1 and 2 for the parts and 4 for the whole. -/
theorem distance_near_metric_line :
    let a : Vec2 (SInt IntType.int32) := ⟨Arith.lit 0, Arith.lit 0⟩
    let b : Vec2 (SInt IntType.int32) := ⟨Arith.lit 1, Arith.lit 1⟩
    let c : Vec2 (SInt IntType.int32) := ⟨Arith.lit 3, Arith.lit 3⟩
    ∃ ab bc ac : SInt IntType.int64, distance a b = some ab ∧ distance b c = some bc ∧
      distance a c = some ac ∧ ac.val ≤ ab.val + bc.val + 1 ∧ ac.val = ab.val + bc.val + 1 := by
  intro a b c
  have h1 : distance a b = some (Arith.lit 1) := by decide +kernel
  have h2 : distance b c = some (Arith.lit 2) := by decide +kernel
  have h3 : distance a c = some (Arith.lit 4) := by decide +kernel
  obtain ⟨-, -, -, htri⟩ := distance_near_metric (by decide) a b c
  have hle := htri _ _ _ ⟨by decide, by decide⟩ ⟨by decide, by decide⟩ ⟨by decide, by decide⟩ h1 h2 h3
  exact ⟨_, _, _, h1, h2, h3, hle.2 (by decide), by decide⟩

end Vec2

end BoomEd
