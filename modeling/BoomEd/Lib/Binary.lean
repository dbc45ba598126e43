import Mathlib.Analysis.Real.Sqrt
import Mathlib.Data.Nat.Sqrt
import Mathlib.Data.Nat.Log
import Mathlib.Tactic.Linarith
import Mathlib.Tactic.Ring
/-!
# Square roots through a binary float

A natural number is converted to a float of `p` significant bits, its root is taken there and
truncated back. Conversion and root round to nearest, ties to even; both are computed on `Nat`, the
root as a quotient `rootMant / 2^rootShift`.

The trip is monotone (`isqrt_mono`) and keeps perfect squares (`isqrt_mul_self`), so it is never off
by more than one (`isqrt_bounds`).
-/

namespace Binary

/-! ## Rounding to a multiple -/

/-- The multiple of `d` nearest to `n`, of two the even one. -/
def roundTo (d n : Nat) : Nat :=
  if 2 * (n % d) < d ∨ (2 * (n % d) = d ∧ n / d % 2 = 0) then n / d * d else (n / d + 1) * d

theorem dvd_roundTo (d n : Nat) : d ∣ roundTo d n := by
  unfold roundTo
  split <;> exact Nat.dvd_mul_left d _

theorem roundTo_of_dvd {d n : Nat} (hd : 0 < d) (h : d ∣ n) : roundTo d n = n := by
  have hr : n % d = 0 := Nat.mod_eq_zero_of_dvd h
  rw [roundTo, if_pos (by omega), Nat.div_mul_cancel h]

/-- Half a step at most, in either direction. -/
theorem roundTo_near {d : Nat} (hd : 0 < d) (n : Nat) :
    2 * n ≤ 2 * roundTo d n + d ∧ 2 * roundTo d n ≤ 2 * n + d := by
  have hn := Nat.div_add_mod' n d
  have hr := Nat.mod_lt n hd
  unfold roundTo
  rw [Nat.add_mul]
  generalize n / d * d = q at *
  split <;> omega

theorem roundTo_mono {d m n : Nat} (hd : 0 < d) (h : m ≤ n) : roundTo d m ≤ roundTo d n := by
  have hm := Nat.div_add_mod' m d
  have hn := Nat.div_add_mod' n d
  rcases (Nat.div_le_div_right h : m / d ≤ n / d).eq_or_lt with e | hlt
  · -- the same step: the remainder decides
    have hr : m % d ≤ n % d := by rw [e] at hm; omega
    unfold roundTo
    rw [e, Nat.add_mul]
    split <;> split <;> omega
  · -- at least one step apart, and neither is moved by more than one
    have hlo : roundTo d m ≤ (m / d + 1) * d := by
      unfold roundTo
      split
      · exact Nat.mul_le_mul_right d (Nat.le_succ _)
      · exact le_rfl
    have hhi : n / d * d ≤ roundTo d n := by
      unfold roundTo
      split
      · exact le_rfl
      · exact Nat.mul_le_mul_right d (Nat.le_succ _)
    exact hlo.trans ((Nat.mul_le_mul_right d hlt).trans hhi)

/-! ## Conversion -/

/-- The distance of neighbouring floats of `p` bits around `n`. -/
def ulp (p n : Nat) : Nat := 2 ^ (n.log2 + 1 - p)

/-- Conversion of `n` to a float of `p` bits. -/
def roundNat (p n : Nat) : Nat := roundTo (ulp p n) n

theorem ulp_pos (p n : Nat) : 0 < ulp p n := Nat.two_pow_pos _

theorem roundNat_near (p n : Nat) :
    2 * n ≤ 2 * roundNat p n + ulp p n ∧ 2 * roundNat p n ≤ 2 * n + ulp p n :=
  roundTo_near (ulp_pos p n) n

theorem roundNat_of_lt {p n : Nat} (h : n < 2 ^ p) : roundNat p n = n := by
  apply roundTo_of_dvd (ulp_pos p n)
  rcases Nat.eq_zero_or_pos n with rfl | hn
  · exact Nat.dvd_zero _
  · have hlog := (Nat.log2_lt hn.ne').2 h
    rw [ulp, Nat.sub_eq_zero_of_le hlog, Nat.pow_zero]
    exact Nat.one_dvd n

/-- The bounds of a binade are multiples of its step. -/
theorem ulp_dvd_pow {p n k : Nat} (hp : 0 < p) (h : n.log2 ≤ k) : ulp p n ∣ 2 ^ k :=
  Nat.pow_dvd_pow 2 (by omega)

theorem le_roundNat {p n k : Nat} (hp : 0 < p) (h : 2 ^ k ≤ n) : 2 ^ k ≤ roundNat p n := by
  have hn : n ≠ 0 := by have := Nat.two_pow_pos k; omega
  have hlog : 2 ^ n.log2 ≤ roundNat p n := by
    have hdvd := ulp_dvd_pow hp (le_refl n.log2)
    rw [← roundTo_of_dvd (ulp_pos p n) hdvd]
    exact roundTo_mono (ulp_pos p n) (Nat.log2_self_le hn)
  exact (Nat.pow_le_pow_right (by decide) ((Nat.le_log2 hn).2 h)).trans hlog

theorem roundNat_le {p n k : Nat} (hp : 0 < p) (h : n ≤ 2 ^ k) : roundNat p n ≤ 2 ^ k := by
  have hlog : n.log2 ≤ k := by
    rcases Nat.eq_zero_or_pos n with rfl | hn
    · exact Nat.zero_le k
    · exact (Nat.pow_le_pow_iff_right (by decide : 1 < 2)).1 ((Nat.log2_self_le hn.ne').trans h)
  rw [← roundTo_of_dvd (ulp_pos p n) (ulp_dvd_pow hp hlog)]
  exact roundTo_mono (ulp_pos p n) h

theorem log2_le_log2 {m n : Nat} (h : m ≤ n) : m.log2 ≤ n.log2 := by
  rw [Nat.log2_eq_log_two, Nat.log2_eq_log_two]
  exact Nat.log_mono_right h

/-- A power of two lies between two numbers of different length. -/
theorem exists_pow_between {m n : Nat} (h : m.log2 < n.log2) :
    ∃ k, m < 2 ^ k ∧ 2 ^ k ≤ n := by
  have hn : n ≠ 0 := by
    rintro rfl
    exact Nat.not_lt_zero _ h
  exact ⟨m.log2 + 1, Nat.lt_log2_self, (Nat.le_log2 hn).1 h⟩

theorem roundNat_mono {p m n : Nat} (hp : 0 < p) (h : m ≤ n) : roundNat p m ≤ roundNat p n := by
  rcases (log2_le_log2 h).eq_or_lt with e | hlt
  · -- one binade, one step
    have hu : ulp p m = ulp p n := by unfold ulp; rw [e]
    unfold roundNat
    rw [hu]
    exact roundTo_mono (ulp_pos p n) h
  · obtain ⟨k, hm, hn⟩ := exists_pow_between hlt
    exact (roundNat_le hp hm.le).trans (le_roundNat hp hn)

/-! ## The root -/

/-- The whole number nearest to the root of `n`; no root is half-way between two. -/
def nearRoot (n : Nat) : Nat :=
  if n.sqrt * n.sqrt + n.sqrt < n then n.sqrt + 1 else n.sqrt

/-- `m + 1/2` is above the root of `n` when `m² + m` is not below `n`. -/
theorem nearRoot_le_iff {n m : Nat} : nearRoot n ≤ m ↔ n ≤ m * m + m := by
  have hlo : n.sqrt * n.sqrt ≤ n := Nat.sqrt_le n
  have hhi : n ≤ n.sqrt * n.sqrt + n.sqrt + n.sqrt := Nat.sqrt_le_add n
  unfold nearRoot
  generalize n.sqrt = s at *
  rcases lt_trichotomy m s with hlt | rfl | hgt
  · have hm : (m + 1) * (m + 1) ≤ s * s := Nat.mul_self_le_mul_self hlt
    rw [Nat.succ_mul_succ_eq] at hm
    split <;> omega
  · split <;> omega
  · have hm : (s + 1) * (s + 1) ≤ m * m := Nat.mul_self_le_mul_self hgt
    rw [Nat.succ_mul_succ_eq] at hm
    split <;> omega

theorem nearRoot_mono {m n : Nat} (h : m ≤ n) : nearRoot m ≤ nearRoot n :=
  nearRoot_le_iff.2 (h.trans (nearRoot_le_iff.1 le_rfl))

theorem nearRoot_mul_self (m : Nat) : nearRoot (m * m) = m := by
  refine le_antisymm (nearRoot_le_iff.2 (Nat.le_add_right _ _)) ?_
  by_contra hlt
  have hle := nearRoot_le_iff.1 (le_refl (nearRoot (m * m)))
  have hsq := Nat.mul_self_le_mul_self (not_le.1 hlt : nearRoot (m * m) + 1 ≤ m)
  rw [Nat.succ_mul_succ_eq] at hsq
  omega

/-- Scaling a square scales its root. -/
theorem nearRoot_scaled (m j : Nat) : nearRoot (m * m * 4 ^ j) = m * 2 ^ j := by
  rw [show 4 = 2 * 2 from rfl, mul_pow, mul_mul_mul_comm, nearRoot_mul_self]

/-- The binary places a float of `p` bits has right of the point at the root of `n`. -/
def rootShift (p n : Nat) : Nat := p - 1 - n.sqrt.log2

/-- The root of `n` as a float of `p` bits, in units of `2^-rootShift`: correct below `4^p`, where no
root needs more than `p` bits left of the point. -/
def rootMant (p n : Nat) : Nat := nearRoot (n * 4 ^ rootShift p n)

/-- The root truncated to a whole number. -/
def rootTrunc (p n : Nat) : Nat := rootMant p n / 2 ^ rootShift p n

theorem le_rootTrunc {p n m : Nat} (h : m * m ≤ n) : m ≤ rootTrunc p n := by
  rw [rootTrunc, Nat.le_div_iff_mul_le (Nat.two_pow_pos _), rootMant, ← nearRoot_scaled]
  exact nearRoot_mono (Nat.mul_le_mul_right _ h)

/-- The truncated root reaches a whole number when half a unit of the last place brings it there. -/
theorem le_rootTrunc_iff {p n m : Nat} (hm : m ≠ 0) :
    m ≤ rootTrunc p n ↔ m * m * 2 ^ rootShift p n < n * 2 ^ rootShift p n + m := by
  rw [rootTrunc, Nat.le_div_iff_mul_le (Nat.two_pow_pos _), rootMant, show 4 = 2 * 2 from rfl,
    mul_pow]
  have hs := Nat.two_pow_pos (rootShift p n)
  generalize 2 ^ rootShift p n = s at *
  obtain ⟨x, hx⟩ : ∃ x, m * s = x + 1 :=
    Nat.exists_eq_add_one.2 (Nat.mul_pos (Nat.pos_of_ne_zero hm) hs)
  have hsq : m * m * s * s = x * x + x + x + 1 := by
    rw [show m * m * s * s = m * s * (m * s) by ring, hx]
    ring
  rw [hx, Nat.succ_le_iff, ← not_le, nearRoot_le_iff, ← Nat.mul_lt_mul_right hs (b := m * m * s),
    hsq, Nat.add_mul, hx, ← mul_assoc]
  omega

theorem rootTrunc_le {p n m : Nat} (h : n ≤ m * m + m) : rootTrunc p n ≤ m := by
  rw [← Nat.lt_succ_iff, ← not_le, le_rootTrunc_iff m.succ_ne_zero, not_lt]
  have hs := Nat.two_pow_pos (rootShift p n)
  generalize 2 ^ rootShift p n = s at *
  calc n * s + (m + 1) ≤ (m * m + m) * s + (m + 1) * s :=
        Nat.add_le_add (Nat.mul_le_mul_right s h) (Nat.le_mul_of_pos_right _ hs)
    _ = (m + 1) * (m + 1) * s := by ring

theorem rootTrunc_mono {p m n : Nat} (h : m ≤ n) : rootTrunc p m ≤ rootTrunc p n := by
  rcases (log2_le_log2 (Nat.sqrt_le_sqrt h)).eq_or_lt with e | hlt
  · have hj : rootShift p m = rootShift p n := by unfold rootShift; rw [e]
    unfold rootTrunc rootMant
    rw [hj]
    exact Nat.div_le_div_right (nearRoot_mono (Nat.mul_le_mul_right _ h))
  · obtain ⟨k, hm, hn⟩ := exists_pow_between hlt
    have hle : m ≤ 2 ^ k * 2 ^ k + 2 ^ k := (Nat.sqrt_lt.1 hm).le.trans (Nat.le_add_right _ _)
    exact (rootTrunc_le hle).trans (le_rootTrunc (Nat.le_sqrt.1 hn))

/-! ## The round trip -/

/-- Conversion, root, truncation. -/
def isqrt (p n : Nat) : Nat := rootTrunc p (roundNat p n)

theorem isqrt_mono {p m n : Nat} (hp : 0 < p) (h : m ≤ n) : isqrt p m ≤ isqrt p n :=
  rootTrunc_mono (roundNat_mono hp h)

/-- Conversion keeps the binade of a square's root. -/
theorem rootShift_roundNat_le {p m : Nat} (hp : 0 < p) (hm : m ≠ 0) :
    rootShift p (roundNat p (m * m)) ≤ p - 1 - m.log2 := by
  have hsq : 2 ^ (m.log2 + m.log2) ≤ m * m := by
    rw [pow_add]
    exact Nat.mul_self_le_mul_self (Nat.log2_self_le hm)
  have hround := le_roundNat hp hsq
  rw [pow_add] at hround
  have hroot : 2 ^ m.log2 ≤ (roundNat p (m * m)).sqrt := Nat.le_sqrt.2 hround
  have hne : (roundNat p (m * m)).sqrt ≠ 0 := by
    have := Nat.two_pow_pos m.log2
    omega
  exact Nat.sub_le_sub_left ((Nat.le_log2 hne).2 hroot) _

/-- A step at a square is less than twice its root, in units of the last place of the root. -/
theorem ulp_mul_lt {p m : Nat} (hm : m ≠ 0) (hlt : m < 2 ^ p) (hu : p ≤ (m * m).log2) :
    ulp p (m * m) * 2 ^ (p - 1 - m.log2) < 2 * m := by
  have hL : m.log2 < p := (Nat.log2_lt hm).2 hlt
  have e : ulp p (m * m) * 2 ^ (p - 1 - m.log2) = 2 ^ ((m * m).log2 - m.log2) := by
    rw [ulp, ← pow_add]
    congr 1
    omega
  rw [e]
  apply Nat.lt_of_mul_lt_mul_right (a := m)
  calc 2 ^ ((m * m).log2 - m.log2) * m
      < 2 ^ ((m * m).log2 - m.log2) * 2 ^ (m.log2 + 1) :=
        Nat.mul_lt_mul_of_pos_left Nat.lt_log2_self (Nat.two_pow_pos _)
    _ = 2 * 2 ^ (m * m).log2 := by
        rw [← pow_add, ← pow_succ']
        congr 1
        omega
    _ ≤ 2 * m * m := by
        rw [mul_assoc]
        exact Nat.mul_le_mul_left 2 (Nat.log2_self_le (Nat.mul_ne_zero hm hm))

/-- The error of the conversion is lost again in the root. -/
theorem isqrt_mul_self {p m : Nat} (hp : 0 < p) (h : m < 2 ^ p) : isqrt p (m * m) = m := by
  rcases Nat.lt_or_ge (m * m) (2 ^ p) with hsmall | hbig
  · rw [isqrt, roundNat_of_lt hsmall]
    exact le_antisymm (rootTrunc_le (Nat.le_add_right _ _)) (le_rootTrunc le_rfl)
  have hpos : m * m ≠ 0 := by
    have := Nat.two_pow_pos p
    omega
  have hm : m ≠ 0 := fun h0 => hpos (by rw [h0])
  have hstep := ulp_mul_lt hm h ((Nat.le_log2 hpos).2 hbig)
  obtain ⟨hlo, hhi⟩ := roundNat_near p (m * m)
  refine le_antisymm (rootTrunc_le ?_) ?_
  · have hd : ulp p (m * m) ≤ ulp p (m * m) * 2 ^ (p - 1 - m.log2) :=
      Nat.le_mul_of_pos_right _ (Nat.two_pow_pos _)
    omega
  · have hs : 2 ^ rootShift p (roundNat p (m * m)) ≤ 2 ^ (p - 1 - m.log2) :=
      Nat.pow_le_pow_right (by decide) (rootShift_roundNat_le hp hm)
    rw [isqrt, le_rootTrunc_iff hm]
    generalize 2 ^ rootShift p (roundNat p (m * m)) = s at *
    have herr := Nat.mul_le_mul_left (ulp p (m * m)) hs
    have hscaled := Nat.mul_le_mul_right s hlo
    rw [Nat.add_mul, Nat.mul_assoc 2, Nat.mul_assoc 2] at hscaled
    omega

theorem isqrt_le_pow {p n : Nat} (hp : 0 < p) (h : n ≤ 4 ^ p) : isqrt p n ≤ 2 ^ p := by
  have e : 4 ^ p = 2 ^ (2 * p) := by rw [pow_mul]; rfl
  have hround := roundNat_le hp (h.trans_eq e)
  rw [two_mul, pow_add] at hround
  exact rootTrunc_le (hround.trans (Nat.le_add_right _ _))

/-- **The round trip is off by one at most**, and only upwards. -/
theorem isqrt_bounds {p n : Nat} (hp : 0 < p) (h : n < 4 ^ p) :
    n.sqrt ≤ isqrt p n ∧ isqrt p n ≤ n.sqrt + 1 := by
  have hlt : n.sqrt < 2 ^ p := by
    rw [Nat.sqrt_lt, ← mul_pow]
    exact h
  constructor
  · rw [← isqrt_mul_self hp hlt]
    exact isqrt_mono hp (Nat.sqrt_le n)
  · rcases (Nat.succ_le_iff.2 hlt).eq_or_lt with e | hlt'
    · exact (isqrt_le_pow hp h.le).trans e.ge
    · exact (isqrt_mono hp (Nat.lt_succ_sqrt n).le).trans (isqrt_mul_self hp hlt').le

/-- The root of the converted number comes within half a unit of the last place of the next whole
number. -/
def Overshoots (p n : Nat) : Prop :=
  let N := roundNat p n
  (n.sqrt + 1) * (n.sqrt + 1) * 2 ^ rootShift p N < N * 2 ^ rootShift p N + (n.sqrt + 1)

instance (p n : Nat) : Decidable (Overshoots p n) := by unfold Overshoots; infer_instance

theorem isqrt_eq_succ_iff {p n : Nat} (hp : 0 < p) (h : n < 4 ^ p) :
    isqrt p n = n.sqrt + 1 ↔ Overshoots p n := by
  rw [Overshoots, ← le_rootTrunc_iff n.sqrt.succ_ne_zero]
  exact ⟨fun e => e.ge, fun hle => le_antisymm (isqrt_bounds hp h).2 hle⟩

/-- With one bit to spare it does not. -/
theorem isqrt_exact {p n : Nat} (h : n < 2 ^ (p - 1)) : isqrt p n = n.sqrt := by
  have hround : roundNat p n = n :=
    roundNat_of_lt (h.trans_le (Nat.pow_le_pow_right (by decide) (Nat.sub_le p 1)))
  rw [isqrt, hround]
  refine le_antisymm ?_ (le_rootTrunc (Nat.sqrt_le n))
  rw [← Nat.lt_succ_iff, ← not_le, le_rootTrunc_iff n.sqrt.succ_ne_zero, not_lt]
  have hs : n.sqrt + 1 ≤ 2 ^ rootShift p n := by
    rcases Nat.eq_zero_or_pos n.sqrt with e | hpos
    · rw [e]
      exact Nat.two_pow_pos _
    · have hlog : 2 ^ (n.sqrt.log2 + n.sqrt.log2) < 2 ^ (p - 1) := by
        rw [pow_add]
        exact (Nat.mul_self_le_mul_self (Nat.log2_self_le hpos.ne')).trans_lt
          ((Nat.sqrt_le n).trans_lt h)
      have hlt := (Nat.pow_lt_pow_iff_right (by decide : 1 < 2)).1 hlog
      calc n.sqrt + 1 ≤ 2 ^ (n.sqrt.log2 + 1) := Nat.lt_log2_self
        _ ≤ 2 ^ rootShift p n := Nat.pow_le_pow_right (by decide) (by unfold rootShift; omega)
  have hsq := Nat.mul_le_mul_right (2 ^ rootShift p n) (Nat.lt_succ_sqrt n)
  rw [Nat.succ_mul n] at hsq
  exact (Nat.add_le_add_left hs _).trans hsq

/-! ## Conversion and root are to nearest -/

/-- A real of at most `p` significant bits. -/
def Representable (p : Nat) (y : ℝ) : Prop := ∃ m e : ℤ, |m| < 2 ^ p ∧ y = m * 2 ^ e

/-- No representable real is closer to `x` than `z`. -/
def Nearest (p : Nat) (x z : ℝ) : Prop :=
  Representable p z ∧ ∀ y, Representable p y → |x - z| ≤ |x - y|

/-- Half a step away from a multiple, no other multiple is closer. -/
theorem abs_sub_le_of_step {x u : ℝ} {k : ℤ} (hk : |x - k * u| ≤ u / 2) (i : ℤ) :
    |x - k * u| ≤ |x - i * u| := by
  have hu : 0 ≤ u := by
    have := (abs_nonneg _).trans hk
    linarith
  rcases eq_or_ne i k with rfl | hne
  · exact le_rfl
  · have hdiff : (1 : ℝ) ≤ |(k : ℝ) - i| := by
      rw [← Int.cast_sub, ← Int.cast_abs]
      exact_mod_cast Int.one_le_abs (sub_ne_zero.2 hne.symm)
    have hstep : u ≤ |x - i * u| + |x - k * u| := by
      calc u ≤ |(k : ℝ) - i| * u := le_mul_of_one_le_left hu hdiff
        _ = |(x - i * u) - (x - k * u)| := by
            rw [← abs_of_nonneg hu, ← abs_mul, abs_of_nonneg hu]
            ring_nf
        _ ≤ |x - i * u| + |x - k * u| := abs_sub _ _
    linarith

/-- In a binade the representable reals are the multiples of its step, and those below it are no
closer than its lower bound. -/
theorem Nearest.of_step {p : Nat} {x : ℝ} {e k : ℤ} (hp : 0 < p)
    (hlo : 2 ^ (p - 1) * (2 : ℝ) ^ e ≤ x) (hhi : x ≤ 2 ^ p * (2 : ℝ) ^ e)
    (hk : |x - k * 2 ^ e| ≤ 2 ^ e / 2) : Nearest p x (k * 2 ^ e) := by
  have hu : (0 : ℝ) < 2 ^ e := zpow_pos two_pos e
  have hp1 : (1 : ℝ) ≤ 2 ^ (p - 1) := one_le_pow₀ one_le_two
  constructor
  · obtain ⟨h1, h2⟩ := abs_le.1 hk
    have hk0 : (-1 : ℝ) < k := by
      by_contra h
      have := mul_le_mul_of_nonneg_right (not_lt.1 h) hu.le
      have := mul_le_mul_of_nonneg_right hp1 hu.le
      linarith
    have hkp : (k : ℝ) < 2 ^ p + 1 := by
      by_contra h
      have := mul_le_mul_of_nonneg_right (not_lt.1 h) hu.le
      linarith
    have hk0' : 0 ≤ k := by exact_mod_cast hk0
    have hkp' : k ≤ 2 ^ p := by
      have : k < 2 ^ p + 1 := by exact_mod_cast hkp
      omega
    rcases hkp'.eq_or_lt with rfl | hlt
    · refine ⟨1, p + e, by simpa using one_lt_pow₀ one_lt_two hp.ne', ?_⟩
      push_cast
      rw [zpow_add₀ two_ne_zero, zpow_natCast, one_mul]
    · exact ⟨k, e, by rwa [abs_of_nonneg hk0'], rfl⟩
  · rintro y ⟨m, f, hm, rfl⟩
    rcases le_or_gt e f with hef | hfe
    · obtain ⟨i, rfl⟩ := Int.le.dest hef
      have hy : (m : ℝ) * 2 ^ (e + i) = ((m * 2 ^ i : ℤ) : ℝ) * 2 ^ e := by
        rw [zpow_add₀ two_ne_zero, zpow_natCast]
        push_cast
        ring
      rw [hy]
      exact abs_sub_le_of_step hk _
    · have hy : (m : ℝ) * 2 ^ f ≤ 2 ^ (p - 1) * 2 ^ e := by
        have hm' : (m : ℝ) ≤ 2 ^ p := by exact_mod_cast (le_abs_self m).trans hm.le
        have hf : (2 : ℝ) ^ f ≤ 2 ^ (e - 1) := zpow_le_zpow_right₀ one_le_two (by omega)
        calc (m : ℝ) * 2 ^ f ≤ 2 ^ p * 2 ^ (e - 1) :=
              mul_le_mul hm' hf (zpow_nonneg two_pos.le f) (by positivity)
          _ = 2 ^ (p - 1) * 2 ^ e := by
              rw [zpow_sub_one₀ two_ne_zero, ← Nat.sub_add_cancel hp, pow_succ,
                Nat.add_sub_cancel]
              ring
      have hlow := abs_sub_le_of_step hk (2 ^ (p - 1))
      push_cast at hlow
      rw [abs_of_nonneg (sub_nonneg.2 hlo)] at hlow
      exact hlow.trans ((sub_le_sub_left hy x).trans (le_abs_self _))

/-- An exact value is its own nearest. -/
theorem Nearest.self {p : Nat} {y : ℝ} (h : Representable p y) : Nearest p y y :=
  ⟨h, fun _ _ => by rw [sub_self, abs_zero]; exact abs_nonneg _⟩

theorem roundNat_nearest {p : Nat} (hp : 0 < p) (n : Nat) : Nearest p n (roundNat p n) := by
  rcases Nat.lt_or_ge n (2 ^ p) with hlt | hge
  · rw [roundNat_of_lt hlt]
    refine Nearest.self ⟨n, 0, ?_, by simp⟩
    rw [Nat.abs_cast]
    exact_mod_cast hlt
  · have hn : n ≠ 0 := by have := Nat.two_pow_pos p; omega
    have hlog : p ≤ n.log2 := (Nat.le_log2 hn).2 hge
    obtain ⟨k, hk⟩ : ulp p n ∣ roundNat p n := dvd_roundTo _ _
    have hu : (ulp p n : ℝ) = 2 ^ ((n.log2 + 1 - p : Nat) : ℤ) := by
      rw [ulp, zpow_natCast]
      push_cast
      rfl
    obtain ⟨hlo, hhi⟩ := roundNat_near p n
    have e : (roundNat p n : ℝ) = (k : ℤ) * (ulp p n : ℝ) := by
      rw [hk]
      push_cast
      ring
    rw [e, hu]
    refine Nearest.of_step hp ?_ ?_ ?_
    · rw [zpow_natCast, ← pow_add, show p - 1 + (n.log2 + 1 - p) = n.log2 by omega]
      exact_mod_cast Nat.log2_self_le hn
    · rw [zpow_natCast, ← pow_add, show p + (n.log2 + 1 - p) = n.log2 + 1 by omega]
      exact_mod_cast (Nat.lt_log2_self (n := n)).le
    · rw [← hu, ← e, abs_le]
      have hlo' : 2 * (n : ℝ) ≤ 2 * roundNat p n + ulp p n := by exact_mod_cast hlo
      have hhi' : 2 * (roundNat p n : ℝ) ≤ 2 * n + ulp p n := by exact_mod_cast hhi
      constructor <;> linarith

theorem abs_sqrt_sub_nearRoot_le (n : Nat) : |Real.sqrt n - nearRoot n| ≤ 1 / 2 := by
  have hhi : n ≤ nearRoot n * nearRoot n + nearRoot n := nearRoot_le_iff.1 le_rfl
  have hhi' : (n : ℝ) ≤ nearRoot n * nearRoot n + nearRoot n := by exact_mod_cast hhi
  rw [abs_le]
  constructor
  · rcases h : nearRoot n with _ | m
    · have := Real.sqrt_nonneg (n : ℝ)
      push_cast
      linarith
    · have hlo : m * m + m < n := not_le.1 fun hle => by
        have := nearRoot_le_iff.2 hle
        omega
      have hlo' : (m : ℝ) * m + m + 1 ≤ n := by exact_mod_cast hlo
      have : (m : ℝ) + 1 / 2 ≤ Real.sqrt n := Real.le_sqrt_of_sq_le (by linarith [sq_nonneg (m : ℝ)])
      push_cast
      linarith
  · have hle : Real.sqrt n ≤ nearRoot n + 1 / 2 :=
      Real.sqrt_le_iff.2 ⟨by positivity, by nlinarith⟩
    linarith

/-- The computed root is the float nearest to the real one. -/
theorem rootMant_nearest {p n : Nat} (hp : 0 < p) (h : n < 4 ^ p) :
    Nearest p (Real.sqrt n) (rootMant p n / 2 ^ rootShift p n) := by
  rcases Nat.eq_zero_or_pos n with rfl | hn
  · have e : (rootMant p 0 / 2 ^ rootShift p 0 : ℝ) = 0 := by simp [rootMant, nearRoot]
    rw [e, Nat.cast_zero, Real.sqrt_zero]
    exact Nearest.self ⟨0, 0, by simp, by simp⟩
  have hs : n.sqrt ≠ 0 := (Nat.sqrt_pos.2 hn).ne'
  have hlog : n.sqrt.log2 < p := by
    rw [Nat.log2_lt hs, Nat.sqrt_lt, ← mul_pow]
    exact h
  have hj : n.sqrt.log2 + rootShift p n = p - 1 := by unfold rootShift; omega
  have hmant : |Real.sqrt n * 2 ^ rootShift p n - rootMant p n| ≤ 1 / 2 := by
    have e : Real.sqrt (n * 4 ^ rootShift p n : Nat) = Real.sqrt n * 2 ^ rootShift p n := by
      push_cast
      rw [Real.sqrt_mul (Nat.cast_nonneg n), show (4 : ℝ) = 2 * 2 by norm_num, mul_pow,
        Real.sqrt_mul_self (by positivity)]
    rw [← e]
    exact abs_sqrt_sub_nearRoot_le _
  have hlo : (2 : ℝ) ^ n.sqrt.log2 ≤ Real.sqrt n := by
    have : 2 ^ n.sqrt.log2 * 2 ^ n.sqrt.log2 ≤ n := Nat.le_sqrt.1 (Nat.log2_self_le hs)
    apply Real.le_sqrt_of_sq_le
    rw [sq]
    exact_mod_cast this
  have hhi : Real.sqrt n ≤ (2 : ℝ) ^ (n.sqrt.log2 + 1) := by
    have : n < 2 ^ (n.sqrt.log2 + 1) * 2 ^ (n.sqrt.log2 + 1) := Nat.sqrt_lt.1 Nat.lt_log2_self
    refine Real.sqrt_le_iff.2 ⟨by positivity, ?_⟩
    rw [sq]
    exact_mod_cast this.le
  have hd : (0 : ℝ) < 2 ^ rootShift p n := by positivity
  have hpow : (2 : ℝ) ^ p = 2 ^ (n.sqrt.log2 + 1) * 2 ^ rootShift p n := by
    rw [← pow_add]
    congr 1
    omega
  have hunit : (2 : ℝ) ^ (-(rootShift p n : ℤ)) = (2 ^ rootShift p n)⁻¹ := by
    rw [zpow_neg, zpow_natCast]
  have hdiv : (rootMant p n / 2 ^ rootShift p n : ℝ) =
      ((rootMant p n : ℤ) : ℝ) * 2 ^ (-(rootShift p n : ℤ)) := by
    rw [hunit, div_eq_mul_inv, Int.cast_natCast]
  have herr : |Real.sqrt n - rootMant p n / 2 ^ rootShift p n| ≤ (2 ^ rootShift p n)⁻¹ / 2 := by
    rw [sub_div' hd.ne', abs_div, abs_of_pos hd, div_le_iff₀ hd, div_mul_eq_mul_div,
      inv_mul_cancel₀ hd.ne']
    exact hmant
  rw [hdiv]
  refine Nearest.of_step hp ?_ ?_ ?_
  · rwa [hunit, ← hj, pow_add, mul_inv_cancel_right₀ hd.ne']
  · rwa [hunit, hpow, mul_inv_cancel_right₀ hd.ne']
  · rwa [← hdiv, hunit]

end Binary
