import BoomEd.Vec2
import Mathlib.Data.Int.ModEq
/-!
# Vector formulas in an integral type (vec2.h:53-87)

Sums, differences, negations and multiples of `vec2<T>` values for a signed integral `T`, nested in any
way. Each operator evaluates in the promoted type and narrows back to `T`, so below `int` every
intermediate result may wrap, and from `int` upwards every one may overflow. `formula_exact` says what
becomes of a whole formula.

| here | there |
| --- | --- |
| `Formula.eval` | an expression in `-a` (vec2.h:55), `a + b` (64), `a - b` (73) and `v * s` (82) |
| `Formula.value`| the same expression on one axis, in the integers |
-/

namespace BoomEd

open Cxx

/-- `var i` is the `i`th vector, `scale e j` the formula `e` times the `j`th scalar. -/
inductive Formula where
  | var (i : Nat)
  | neg (e : Formula)
  | add (a b : Formula)
  | sub (a b : Formula)
  | scale (e : Formula) (j : Nat)

namespace Formula

def eval {T : Type} [Arith T] (v : Nat → Vec2 T) (c : Nat → T) : Formula → Option (Vec2 T)
  | var i => some (v i)
  | neg e => do (← eval v c e).neg
  | add a b => do (← eval v c a).add (← eval v c b)
  | sub a b => do (← eval v c a).sub (← eval v c b)
  | scale e j => do (← eval v c e).smul (c j)

/-- One axis of the evaluation. -/
def axis {T : Type} [Arith T] (x c : Nat → T) : Formula → Option T
  | var i => some (x i)
  | neg e => do Arith.neg (← axis x c e)
  | add a b => do Arith.add (← axis x c a) (← axis x c b)
  | sub a b => do Arith.sub (← axis x c a) (← axis x c b)
  | scale e j => do Arith.mul (← axis x c e) (c j)

def value (x c : Nat → Int) : Formula → Int
  | var i => x i
  | neg e => -value x c e
  | add a b => value x c a + value x c b
  | sub a b => value x c a - value x c b
  | scale e j => value x c e * c j

/-- No intermediate result leaves the range of `t`. -/
def Within (t : IntType) (x c : Nat → Int) : Formula → Prop
  | var _ => True
  | neg e => Within t x c e ∧ t.InRange (-value x c e)
  | add a b => (Within t x c a ∧ Within t x c b) ∧ t.InRange (value x c a + value x c b)
  | sub a b => (Within t x c a ∧ Within t x c b) ∧ t.InRange (value x c a - value x c b)
  | scale e j => Within t x c e ∧ t.InRange (value x c e * c j)

/-- No multiple is taken. -/
def Unscaled : Formula → Prop
  | var _ => True
  | neg e => Unscaled e
  | add a b => Unscaled a ∧ Unscaled b
  | sub a b => Unscaled a ∧ Unscaled b
  | scale _ _ => False

/-! ## The axes do not mix -/

section Axes

variable {T : Type} [Arith T]

/-- A vector of two results, if there are two. -/
def both (a b : Option T) : Option (Vec2 T) := a.bind fun x => b.bind fun y => some ⟨x, y⟩

omit [Arith T] in
theorem both_eq_some {a b : Option T} {r : Vec2 T} : both a b = some r ↔ a = some r.x ∧ b = some r.y := by
  cases a <;> cases b <;> simp [both, Vec2.ext_iff]

omit [Arith T] in
/-- An operator that works by axis, on vectors that are given by axis. -/
theorem both_bind {f : T → T → Option T} {F : Vec2 T → Vec2 T → Option (Vec2 T)}
    (hF : ∀ u w, F u w = both (f u.x w.x) (f u.y w.y)) (a b a' b' : Option T) :
    ((both a b).bind fun u => (both a' b').bind fun w => F u w) =
      both (a.bind fun x => a'.bind fun x' => f x x') (b.bind fun y => b'.bind fun y' => f y y') := by
  cases a <;> cases b <;> cases a' <;> cases b' <;> simp [both, hF]

theorem eval_eq_both (v : Nat → Vec2 T) (c : Nat → T) (e : Formula) :
    e.eval v c = both (e.axis (fun i => (v i).x) c) (e.axis (fun i => (v i).y) c) := by
  induction e with
  | var i => rfl
  | neg e ih =>
    have h := both_bind (F := fun u _ => u.neg) (f := fun x _ => Arith.neg x) (fun _ _ => rfl)
      (e.axis (fun i => (v i).x) c) (e.axis (fun i => (v i).y) c) (some (c 0)) (some (c 0))
    rw [eval, ih]
    exact h
  | add a b iha ihb =>
    rw [eval, iha, ihb]
    exact both_bind (F := Vec2.add) (f := Arith.add) (fun _ _ => rfl) _ _ _ _
  | sub a b iha ihb =>
    rw [eval, iha, ihb]
    exact both_bind (F := Vec2.sub) (f := Arith.sub) (fun _ _ => rfl) _ _ _ _
  | scale e j ih =>
    have h := both_bind (F := fun u w => both (Arith.mul u.x w.x) (Arith.mul u.y w.y)) (fun _ _ => rfl)
      (e.axis (fun i => (v i).x) c) (e.axis (fun i => (v i).y) c) (some (c j)) (some (c j))
    rw [eval, ih]
    exact h

end Axes

/-! ## One axis in an integral type -/

section Integral

variable {t : IntType} {x c : Nat → SInt t}

/-- The values of the vectors and scalars, as integers. -/
def ints (x : Nat → SInt t) (i : Nat) : Int := (x i).val

theorem modEq_wrap (v : Int) : (SInt.wrap t v).val ≡ v [ZMOD 2 * t.half] := by
  obtain ⟨k, hk⟩ := SInt.exists_eq_wrap_add t v
  exact Int.modEq_iff_dvd.2 ⟨k, by rw [mul_comm]; omega⟩

/-- Whatever an operator returns is its exact result but for a multiple of `2^width`. -/
theorem modEq_ofExpr {v : Int} {r : SInt t} (h : SInt.ofExpr t v = some r) :
    r.val ≡ v [ZMOD 2 * t.half] := by
  rw [SInt.ofExpr_eq_some h]
  exact modEq_wrap v

/-- The residues go through the formula, whatever wraps on the way. -/
theorem axis_modEq (e : Formula) :
    ∀ r, e.axis x c = some r → r.val ≡ e.value (ints x) (ints c) [ZMOD 2 * t.half] := by
  induction e with
  | var i =>
    intro r h
    cases h
    exact Int.ModEq.refl _
  | neg e ih =>
    intro r h
    obtain ⟨a, ha, hr⟩ := Option.bind_eq_some_iff.1 h
    exact (modEq_ofExpr hr).trans (ih a ha).neg
  | add a b iha ihb =>
    intro r h
    obtain ⟨p, hp, h⟩ := Option.bind_eq_some_iff.1 h
    obtain ⟨q, hq, hr⟩ := Option.bind_eq_some_iff.1 h
    exact (modEq_ofExpr hr).trans ((iha p hp).add (ihb q hq))
  | sub a b iha ihb =>
    intro r h
    obtain ⟨p, hp, h⟩ := Option.bind_eq_some_iff.1 h
    obtain ⟨q, hq, hr⟩ := Option.bind_eq_some_iff.1 h
    exact (modEq_ofExpr hr).trans ((iha p hp).sub (ihb q hq))
  | scale e j ih =>
    intro r h
    obtain ⟨p, hp, hr⟩ := Option.bind_eq_some_iff.1 h
    exact (modEq_ofExpr hr).trans ((ih p hp).mul_right _)

/-- Two values with the same residue are one. -/
theorem eq_of_modEq {a b : SInt t} (h : a.val ≡ b.val [ZMOD 2 * t.half]) : a = b := by
  obtain ⟨k, hk⟩ := h.dvd
  have hb : b.val = a.val + k * (2 * t.half) := by rw [mul_comm k]; omega
  have hwrap := SInt.wrap_add_mul a.inRange k
  rw [← hb, SInt.wrap_of_inRange b.inRange] at hwrap
  exact SInt.ext hwrap.symm

/-- In range, the residue is the value. -/
theorem axis_exact {e : Formula} {r : SInt t} (h : e.axis x c = some r)
    (hr : t.InRange (e.value (ints x) (ints c))) : r.val = e.value (ints x) (ints c) :=
  congrArg SInt.val (eq_of_modEq (b := ⟨_, hr⟩) (axis_modEq e r h))

/-! ### Below `int`: promotion leaves room -/

theorem ofExpr_defined {v : Int} (h : t.promote.InRange v) : ∃ r, SInt.ofExpr t v = some r :=
  ⟨_, if_pos h⟩

theorem axis_defined (ht : t.width < 32) (e : Formula) (he : t.width ≤ 16 ∨ e.Unscaled) :
    ∃ r, e.axis x c = some r := by
  have hhalf : 2 * t.half ≤ IntType.int32.half := IntType.two_mul_half_le ht
  have hp := IntType.promote_of_lt ht
  induction e with
  | var i => exact ⟨x i, rfl⟩
  | neg e ih =>
    obtain ⟨a, ha⟩ := ih he
    have hin : t.promote.InRange (-a.val) := by
      have := a.inRange
      rw [hp]
      unfold IntType.InRange at *
      omega
    obtain ⟨r, hr⟩ := ofExpr_defined hin
    exact ⟨r, by simp only [axis, ha]; exact hr⟩
  | add a b iha ihb =>
    obtain ⟨p, hp'⟩ := iha (he.imp id And.left)
    obtain ⟨q, hq'⟩ := ihb (he.imp id And.right)
    have hin : t.promote.InRange (p.val + q.val) := by
      have := p.inRange
      have := q.inRange
      rw [hp]
      unfold IntType.InRange at *
      omega
    obtain ⟨r, hr⟩ := ofExpr_defined hin
    exact ⟨r, by simp only [axis, hp', hq']; exact hr⟩
  | sub a b iha ihb =>
    obtain ⟨p, hp'⟩ := iha (he.imp id And.left)
    obtain ⟨q, hq'⟩ := ihb (he.imp id And.right)
    obtain ⟨r, hr⟩ := ofExpr_defined (IntType.promote_inRange_sub ht p.inRange q.inRange)
    exact ⟨r, by simp only [axis, hp', hq']; exact hr⟩
  | scale e j ih =>
    have h16 : t.width ≤ 16 := he.resolve_right id
    obtain ⟨p, hp'⟩ := ih (.inl h16)
    have hin : t.promote.InRange (p.val * (c j).val) := by
      have h := p.inRange.mul_le (c j).inRange
      have h' := p.inRange.neg_le_mul (c j).inRange
      have hhalf16 : t.half ≤ IntType.int16.half := IntType.half_le_half h16
      have e16 : IntType.int16.half = 32768 := by decide
      have hsq : t.half * t.half ≤ 32768 * 32768 :=
        mul_le_mul (e16 ▸ hhalf16) (e16 ▸ hhalf16) (by have := t.half_ge; omega) (by decide)
      rw [mul_sub, mul_one] at h'
      have := t.half_ge
      rw [hp, IntType.InRange, IntType.half_int32]
      omega
    obtain ⟨r, hr⟩ := ofExpr_defined hin
    exact ⟨r, by simp only [axis, hp']; exact hr⟩

/-! ### From `int` upwards: exact or undefined -/

theorem ofExpr_iff (ht : 32 ≤ t.width) {v : Int} {r : SInt t} :
    SInt.ofExpr t v = some r ↔ t.InRange v ∧ r.val = v := by
  rw [SInt.ofExpr_of_le_width ht]
  by_cases h : t.InRange v
  · simp [h, SInt.ext_iff, eq_comm]
  · simp [h]

theorem Within.inRange {e : Formula} (h : e.Within t (ints x) (ints c)) :
    t.InRange (e.value (ints x) (ints c)) := by
  cases e with
  | var i => exact (x i).inRange
  | neg e => exact h.2
  | add a b => exact h.2
  | sub a b => exact h.2
  | scale e j => exact h.2

/-- An operator on one result that comes out just when `P` holds, and then is `m`; -/
theorem unary_iff (ht : 32 ≤ t.width) {o : Option (SInt t)} {P : Prop} {m : Int} (g : Int → Int)
    (h : ∀ r, o = some r ↔ P ∧ r.val = m) (hm : P → t.InRange m) (r : SInt t) :
    (o.bind fun p => SInt.ofExpr t (g p.val)) = some r ↔ (P ∧ t.InRange (g m)) ∧ r.val = g m := by
  constructor
  · intro hr
    obtain ⟨p, hp, hr⟩ := Option.bind_eq_some_iff.1 hr
    obtain ⟨hP, hv⟩ := (h p).1 hp
    obtain ⟨hin, hval⟩ := (ofExpr_iff ht).1 hr
    rw [hv] at hin hval
    exact ⟨⟨hP, hin⟩, hval⟩
  · rintro ⟨⟨hP, hin⟩, hval⟩
    exact Option.bind_eq_some_iff.2 ⟨_, (h ⟨m, hm hP⟩).2 ⟨hP, rfl⟩, (ofExpr_iff ht).2 ⟨hin, hval⟩⟩

/-- and on two. -/
theorem binary_iff (ht : 32 ≤ t.width) {o o' : Option (SInt t)} {P P' : Prop} {m m' : Int}
    (g : Int → Int → Int) (h : ∀ r, o = some r ↔ P ∧ r.val = m) (hm : P → t.InRange m)
    (h' : ∀ r, o' = some r ↔ P' ∧ r.val = m') (hm' : P' → t.InRange m') (r : SInt t) :
    (o.bind fun p => o'.bind fun q => SInt.ofExpr t (g p.val q.val)) = some r ↔
      ((P ∧ P') ∧ t.InRange (g m m')) ∧ r.val = g m m' := by
  constructor
  · intro hr
    obtain ⟨p, hp, hr⟩ := Option.bind_eq_some_iff.1 hr
    obtain ⟨hP, hv⟩ := (h p).1 hp
    obtain ⟨⟨hP', hin⟩, hval⟩ := (unary_iff ht (g p.val) h' hm' r).1 hr
    rw [hv] at hin hval
    exact ⟨⟨⟨hP, hP'⟩, hin⟩, hval⟩
  · rintro ⟨⟨⟨hP, hP'⟩, hin⟩, hval⟩
    exact Option.bind_eq_some_iff.2 ⟨_, (h ⟨m, hm hP⟩).2 ⟨hP, rfl⟩,
      (unary_iff ht (g m) h' hm' r).2 ⟨⟨hP', hin⟩, hval⟩⟩

/-- A value comes out just when no intermediate result leaves the range, and it is the exact one. -/
theorem axis_iff (ht : 32 ≤ t.width) (e : Formula) :
    ∀ r, e.axis x c = some r ↔
      e.Within t (ints x) (ints c) ∧ r.val = e.value (ints x) (ints c) := by
  induction e with
  | var i =>
    intro r
    simp [axis, Within, value, ints, SInt.ext_iff, eq_comm]
  | neg e ih => exact unary_iff ht Neg.neg ih Within.inRange
  | add a b iha ihb => exact binary_iff ht (· + ·) iha Within.inRange ihb Within.inRange
  | sub a b iha ihb => exact binary_iff ht (· - ·) iha Within.inRange ihb Within.inRange
  | scale e j ih => exact unary_iff ht (· * (c j).val) ih Within.inRange

end Integral

/-! ## Both axes -/

section Vectors

variable {t : IntType}

/-- The value of the formula on the two axes. -/
def valueX (v : Nat → Vec2 (SInt t)) (c : Nat → SInt t) (e : Formula) : Int :=
  e.value (ints fun i => (v i).x) (ints c)

def valueY (v : Nat → Vec2 (SInt t)) (c : Nat → SInt t) (e : Formula) : Int :=
  e.value (ints fun i => (v i).y) (ints c)

/-- **What a vector formula computes.** For every signed integral type and every nesting of the
operators: what comes out has the exact residues modulo `2^width`, so two formulas with the same exact
value cannot come out different, and an exact value in range comes out, if anything does, whatever
wrapped on the way. Below `int` every formula without multiples has a value, and up to 16 bits every
formula. From `int` upwards one has a value just when no intermediate result overflows, and it is exact. -/
theorem formula_exact (t : IntType) (v : Nat → Vec2 (SInt t)) (c : Nat → SInt t) (e : Formula) :
    (∀ r, e.eval v c = some r →
      r.x.val ≡ e.valueX v c [ZMOD 2 ^ t.width] ∧ r.y.val ≡ e.valueY v c [ZMOD 2 ^ t.width]) ∧
    (∀ (e' : Formula) (r r' : Vec2 (SInt t)), e'.valueX v c = e.valueX v c → e'.valueY v c = e.valueY v c →
      e.eval v c = some r → e'.eval v c = some r' → r = r') ∧
    (∀ r, e.eval v c = some r → t.InRange (e.valueX v c) → t.InRange (e.valueY v c) →
      r.x.val = e.valueX v c ∧ r.y.val = e.valueY v c) ∧
    (t.width ≤ 16 ∨ t.width < 32 ∧ e.Unscaled → ∃ r, e.eval v c = some r) ∧
    (32 ≤ t.width → ∀ r, e.eval v c = some r ↔
      (e.Within t (ints fun i => (v i).x) (ints c) ∧ e.Within t (ints fun i => (v i).y) (ints c)) ∧
        r.x.val = e.valueX v c ∧ r.y.val = e.valueY v c) := by
  have hpow : (2 : Int) ^ t.width = 2 * t.half := by
    have hb := t.byte
    rw [IntType.half, ← Int.pow_succ', Nat.sub_add_cancel (by omega)]
  rw [hpow]
  simp only [eval_eq_both, both_eq_some]
  refine ⟨fun r h => ⟨axis_modEq e _ h.1, axis_modEq e _ h.2⟩, fun e' r r' hx hy h h' => ?_,
    fun r h hx hy => ⟨axis_exact h.1 hx, axis_exact h.2 hy⟩, fun ht => ?_, fun ht r => ?_⟩
  · have hx' := axis_modEq e' _ h'.1
    have hy' := axis_modEq e' _ h'.2
    rw [show e'.value _ _ = _ from hx] at hx'
    rw [show e'.value _ _ = _ from hy] at hy'
    exact Vec2.ext (eq_of_modEq ((axis_modEq e _ h.1).trans hx'.symm))
      (eq_of_modEq ((axis_modEq e _ h.2).trans hy'.symm))
  · have hlt : t.width < 32 := ht.elim (fun h => by omega) And.left
    obtain ⟨p, hp⟩ := axis_defined hlt e (ht.imp id And.right)
    obtain ⟨q, hq⟩ := axis_defined hlt e (ht.imp id And.right)
    exact ⟨⟨p, q⟩, hp, hq⟩
  · rw [axis_iff ht, axis_iff ht]
    exact and_and_and_comm

/-- In `int8`, `(a + a) - a` with `a = {100, 1}`: the sum wraps and the result is exact. -/
theorem formula_exact_wraps :
    let a : Vec2 (SInt IntType.int8) := ⟨Arith.lit 100, Arith.lit 1⟩
    (sub (add (var 0) (var 0)) (var 0)).eval (fun _ => a) (fun _ => Arith.lit 1) = some a := by
  intro a
  obtain ⟨-, -, hexact, hdefined, -⟩ := formula_exact IntType.int8 (fun _ => a) (fun _ => Arith.lit 1)
    (sub (add (var 0) (var 0)) (var 0))
  obtain ⟨r, hr⟩ := hdefined (.inl (by decide))
  obtain ⟨hx, hy⟩ := hexact r hr (by decide +kernel) (by decide +kernel)
  have hrx : r.x = a.x := SInt.ext (hx.trans (by decide +kernel))
  have hry : r.y = a.y := SInt.ext (hy.trans (by decide +kernel))
  rw [hr, Vec2.ext hrx hry]

end Vectors

end Formula

end BoomEd
