import BoomEd.Convert
/-!
# Converted boxes and the operations of boxes

Code that mixes coordinate types converts boxes implicitly (box2.h:40), before or after it combines or
compares them. `convert_bounds`: for a bounding box the moment does not matter. `convert_predicates`:
what the comparisons of converted boxes still say. `convert_detour`: a conversion over a third type.

As in `Convert` a real type is taken as exact: it holds every integer, and the cast of an integer or of
another real to it changes nothing. `float` and `double` round there, and a rounded corner can make a box
empty that was not.
-/

namespace BoomEd

open Cxx Trunc

variable {K : Type} [Field K] [LinearOrder K] [FloorRing K] {U V T : ScalarType}

/-- Every value of `U` is one of `V`, the real types taken as exact: each of them holds every value. -/
def Widens : ScalarType → ScalarType → Prop
  | _, .real => True
  | .real, .integral _ => False
  | .integral s, .integral t => s.width ≤ t.width

namespace Value

variable [IsStrictOrderedRing K]

omit [IsStrictOrderedRing K] in
theorem fits_min {v w : Value K U} (hv : v.Fits T) (hw : w.Fits T) : (min v w).Fits T := by
  rcases min_choice v w with e | e <;> rw [e] <;> assumption

omit [IsStrictOrderedRing K] in
theorem fits_max {v w : Value K U} (hv : v.Fits T) (hw : w.Fits T) : (max v w).Fits T := by
  rcases max_choice v w with e | e <;> rw [e] <;> assumption

/-- A cast is monotone where it fits, so it goes through minimum and maximum. -/
theorem cast_min {v w : Value K U} (hv : v.Fits T) (hw : w.Fits T) :
    (min v w).cast T = min (v.cast T) (w.cast T) := by
  rcases le_total v w with h | h
  · rw [min_eq_left h, min_eq_left (cast_le_cast hv hw h)]
  · rw [min_eq_right h, min_eq_right (cast_le_cast hw hv h)]

theorem cast_max {v w : Value K U} (hv : v.Fits T) (hw : w.Fits T) :
    (max v w).cast T = max (v.cast T) (w.cast T) := by
  rcases le_total v w with h | h
  · rw [max_eq_right h, max_eq_right (cast_le_cast hv hw h)]
  · rw [max_eq_left h, max_eq_left (cast_le_cast hw hv h)]

/-- One axis of a union: `l`, `l'` are the lower edges, `h`, `h'` the upper ones. -/
theorem cast_lower {l l' h h' : Value K U} (hl : l.Fits T) (hl' : l'.Fits T) (hh : h.Fits T)
    (hh' : h'.Fits T) : (min (min l l') (max h h')).cast T =
      min (min (l.cast T) (l'.cast T)) (max (h.cast T) (h'.cast T)) := by
  rw [cast_min (fits_min hl hl') (fits_max hh hh'), cast_min hl hl', cast_max hh hh']

theorem cast_upper {l l' h h' : Value K U} (hl : l.Fits T) (hl' : l'.Fits T) (hh : h.Fits T)
    (hh' : h'.Fits T) : (max (min l l') (max h h')).cast T =
      max (min (l.cast T) (l'.cast T)) (max (h.cast T) (h'.cast T)) := by
  rw [cast_max (fits_min hl hl') (fits_max hh hh'), cast_min hl hl', cast_max hh hh']

/-- An inequality between casts was one between the values. -/
theorem lt_of_cast_lt {v w : Value K U} (hv : v.Fits T) (hw : w.Fits T)
    (h : v.cast T < w.cast T) : v < w :=
  lt_of_not_ge fun hwv => (cast_le_cast hw hv hwv).not_gt h

/-- A cast that does not truncate keeps and reflects the order. -/
theorem cast_lt_iff (hT : ¬ Truncates U T) {v w : Value K U} (hv : v.Fits T) (hw : w.Fits T) :
    v.cast T < w.cast T ↔ v < w :=
  ⟨lt_of_cast_lt hv hw, cast_lt_cast hT hv hw⟩

theorem cast_le_iff (hT : ¬ Truncates U T) {v w : Value K U} (hv : v.Fits T) (hw : w.Fits T) :
    v.cast T ≤ w.cast T ↔ v ≤ w := by
  rw [← not_lt, ← not_lt, cast_lt_iff hT hw hv]

/-! ### Over a third type -/

omit [IsStrictOrderedRing K] in
theorem fits_self (v : Value K U) : v.Fits U := by
  cases U with
  | integral t => exact SInt.inRange v
  | real => trivial

omit [IsStrictOrderedRing K] in
theorem cast_self (v : Value K U) : v.cast U = v := by
  cases U with
  | integral t => exact SInt.wrap_of_inRange (SInt.inRange v)
  | real => rfl

theorem trunc_toReal (v : Value K U) : trunc v.toReal = v.toInt := by
  cases U with
  | integral s => exact trunc_intCast _
  | real => rfl

omit [IsStrictOrderedRing K] in
theorem inRange_of_widens {s : ScalarType} {t : IntType} (h : Widens s (.integral t))
    {v : Value K U} (hv : v.Fits s) : t.InRange v.toInt := by
  cases s with
  | real => exact h.elim
  | integral s =>
    have hh : s.half ≤ t.half := IntType.half_le_half h
    have hr : s.InRange v.toInt := hv
    unfold IntType.InRange at *
    omega

/-- A cast over a type that holds the values of either end. -/
theorem cast_cast (h : Widens U V ∨ Widens T V) {v : Value K U} (hv : v.Fits T) :
    v.Fits V ∧ (v.cast V).Fits T ∧ (v.cast V).cast T = v.cast T := by
  cases V with
  | real =>
    cases T with
    | real => exact ⟨trivial, trivial, rfl⟩
    | integral t =>
      have e : (v.cast .real).toInt = v.toInt := trunc_toReal v
      refine ⟨trivial, ?_, ?_⟩
      · show t.InRange (v.cast .real).toInt
        rw [e]
        exact hv
      · show SInt.wrap t (v.cast .real).toInt = SInt.wrap t v.toInt
        rw [e]
  | integral n =>
    have hn : v.Fits (.integral n) :=
      h.elim (fun h => inRange_of_widens h v.fits_self) fun h => inRange_of_widens h hv
    have e : (v.cast (.integral n)).toInt = v.toInt := cast_integral_val hn
    cases T with
    | real =>
      refine ⟨hn, trivial, ?_⟩
      cases U with
      | real => exact (h.elim id id).elim
      | integral s => exact congrArg (Int.cast : ℤ → K) e
    | integral t =>
      refine ⟨hn, ?_, ?_⟩
      · show t.InRange (v.cast (.integral n)).toInt
        rw [e]
        exact hv
      · show SInt.wrap t (v.cast (.integral n)).toInt = SInt.wrap t v.toInt
        rw [e]

end Value

/-- The two coordinates cast. -/
def Vec2.cast (T : ScalarType) (v : Vec2 (Value K U)) : Vec2 (Value K T) := ⟨v.x.cast T, v.y.cast T⟩

namespace Box2

variable [IsStrictOrderedRing K]

/-! ## Bounding boxes -/

omit [IsStrictOrderedRing K] in
theorem fits_makeUnion {a b : Box2 (Value K U)} (ha : a.Fits T) (hb : b.Fits T) :
    (makeUnion a b).Fits T := by
  have hmin := And.intro (Value.fits_min ha.1.1 hb.1.1) (Value.fits_min ha.1.2 hb.1.2)
  have hmax := And.intro (Value.fits_max ha.2.1 hb.2.1) (Value.fits_max ha.2.2 hb.2.2)
  exact ⟨⟨Value.fits_min hmin.1 hmax.1, Value.fits_min hmin.2 hmax.2⟩,
    Value.fits_max hmin.1 hmax.1, Value.fits_max hmin.2 hmax.2⟩

theorem cast_makeUnion {a b : Box2 (Value K U)} (ha : a.Fits T) (hb : b.Fits T) :
    (makeUnion a b).cast T = makeUnion (a.cast T) (b.cast T) := by
  ext
  · exact Value.cast_lower ha.1.1 hb.1.1 ha.2.1 hb.2.1
  · exact Value.cast_lower ha.1.2 hb.1.2 ha.2.2 hb.2.2
  · exact Value.cast_upper ha.1.1 hb.1.1 ha.2.1 hb.2.1
  · exact Value.cast_upper ha.1.2 hb.1.2 ha.2.2 hb.2.2

/-- The induction is on the combination; that the boxes fit carries it. -/
theorem cast_eval {t : Bracketing (Box2 (Value K U))} (h : ∀ b ∈ Bracketing.leaves t, b.Fits T) :
    (Bracketing.eval makeUnion t).Fits T ∧ (Bracketing.eval makeUnion t).cast T =
      Bracketing.eval makeUnion (FreeMagma.map (cast T) t) := by
  induction t with
  | of b => exact ⟨h b (by simp), rfl⟩
  | mul s t hs ht =>
    obtain ⟨hfs, hes⟩ := hs fun b hb => h b (List.mem_append_left _ hb)
    obtain ⟨hft, het⟩ := ht fun b hb => h b (List.mem_append_right _ hb)
    refine ⟨fits_makeUnion hfs hft, (cast_makeUnion hfs hft).trans ?_⟩
    rw [hes, het]
    rfl

omit [Field K] [FloorRing K] [IsStrictOrderedRing K] in
/-- A union with a point is one with the box of that point alone. -/
theorem makeUnionPt_eq_makeUnion (b : Box2 (Value K U)) (r : Vec2 (Value K U)) :
    makeUnionPt b r = makeUnion b ⟨r, r⟩ := rfl

theorem cast_makeUnionPt {b : Box2 (Value K U)} {r : Vec2 (Value K U)} (hb : b.Fits T)
    (hr : r.Fits T) : (makeUnionPt b r).Fits T ∧
      (makeUnionPt b r).cast T = makeUnionPt (b.cast T) (r.cast T) := by
  have hpt : (⟨r, r⟩ : Box2 (Value K U)).Fits T := ⟨hr, hr⟩
  rw [makeUnionPt_eq_makeUnion, makeUnionPt_eq_makeUnion]
  exact ⟨fits_makeUnion hb hpt, cast_makeUnion hb hpt⟩

theorem cast_foldl (ps : List (Vec2 (Value K U))) (hps : ∀ r ∈ ps, r.Fits T) :
    ∀ b : Box2 (Value K U), b.Fits T → (ps.foldl makeUnionPt b).Fits T ∧
      (ps.foldl makeUnionPt b).cast T = (ps.map (Vec2.cast T)).foldl makeUnionPt (b.cast T) := by
  induction ps with
  | nil => exact fun b hb => ⟨hb, rfl⟩
  | cons r ps ih =>
    intro b hb
    obtain ⟨hfit, hcast⟩ := cast_makeUnionPt hb (hps r (by simp))
    obtain ⟨hfits, hcasts⟩ := ih (fun q hq => hps q (List.mem_cons_of_mem _ hq)) _ hfit
    refine ⟨hfits, ?_⟩
    rw [List.foldl_cons, hcasts, hcast, List.map_cons, List.foldl_cons]

/-- **Converting goes through bounding boxes**, the reals taken as exact. Where each box of a combination
has its coordinates in the range of `T` after the cast, whatever the bracketing, the combined box
converts, and to the same combination of the converted boxes; and the same for a box grown by a list of
points in that range. -/
theorem convert_bounds (T : ScalarType) :
    (∀ t : Bracketing (Box2 (Value K U)), (∀ b ∈ Bracketing.leaves t, b.Fits T) →
      (∀ b ∈ Bracketing.leaves t, b.convert T = some (b.cast T)) ∧
      (Bracketing.eval makeUnion t).convert T =
        some (Bracketing.eval makeUnion (FreeMagma.map (cast T) t))) ∧
    ∀ (b : Box2 (Value K U)) (ps : List (Vec2 (Value K U))), b.Fits T → (∀ r ∈ ps, r.Fits T) →
      (∀ r ∈ ps, r.convert T = some (r.cast T)) ∧
      (ps.foldl makeUnionPt b).convert T =
        some ((ps.map (Vec2.cast T)).foldl makeUnionPt (b.cast T)) := by
  refine ⟨fun t h => ⟨fun b hb => convert_of_fits (h b hb), ?_⟩, fun b ps hb hps =>
    ⟨fun r hr => Vec2.convert_of_fits (hps r hr), ?_⟩⟩
  · obtain ⟨hfit, hcast⟩ := cast_eval h
    rw [convert_of_fits hfit, hcast]
  · obtain ⟨hfit, hcast⟩ := cast_foldl ps hps b hb
    rw [convert_of_fits hfit, hcast]

/-- From the reals to `int8`, with fractions of both signs. -/
theorem convert_bounds_fractions :
    let b : Box2 (Value ℚ .real) := ofCorners ⟨-1 / 2, 1 / 2⟩ ⟨3 / 2, 2⟩
    let c : Box2 (Value ℚ .real) := ofCorners ⟨-7 / 2, 5⟩ ⟨-3 / 2, 6⟩
    (makeUnion b c).convert (.integral .int8) =
      some (makeUnion (b.cast (.integral .int8)) (c.cast (.integral .int8))) := by
  intro b c
  refine ((convert_bounds (K := ℚ) (.integral .int8)).1 (FreeMagma.of b * FreeMagma.of c) ?_).2
  simp only [Bracketing.leaves_mul, Bracketing.leaves_of, List.singleton_append,
    List.forall_mem_cons, List.not_mem_nil, false_imp_iff, implies_true, and_true]
  exact ⟨by decide +kernel, by decide +kernel⟩

/-! ## Predicates -/

theorem empty_cast {a : Box2 (Value K U)} (ha : a.Fits T) (h : a.empty = true) :
    (a.cast T).empty = true := by
  rw [empty_iff] at *
  exact h.imp (Value.cast_le_cast ha.2.1 ha.1.1) (Value.cast_le_cast ha.2.2 ha.1.2)

theorem spans_cast {a b : Box2 (Value K U)} (ha : a.Fits T) (hb : b.Fits T) (h : a.Spans b) :
    (a.cast T).Spans (b.cast T) := by
  obtain ⟨⟨h1, h2⟩, h3, h4⟩ := h
  exact ⟨⟨Value.cast_le_cast ha.1.1 hb.1.1 h1, Value.cast_le_cast hb.2.1 ha.2.1 h2⟩,
    Value.cast_le_cast ha.1.2 hb.1.2 h3, Value.cast_le_cast hb.2.2 ha.2.2 h4⟩

/-- **What comparisons of converted boxes say**, the reals taken as exact. For boxes with their
coordinates in the range of `T` after the cast: an empty box stays empty, converted boxes intersect only
if the boxes did, and a box that contained another contains it still, unless that one has become empty.
Where the cast does not truncate, each test has the same answer before and after. -/
theorem convert_predicates (T : ScalarType) (a b : Box2 (Value K U)) (ha : a.Fits T) (hb : b.Fits T) :
    ∃ c d, a.convert T = some c ∧ b.convert T = some d ∧
      (a.empty = true → c.empty = true) ∧
      (c.intersects d = true → a.intersects b = true) ∧
      (a.contains b = true → c.contains d = true ∨ d.empty = true) ∧
      (¬ Truncates U T → c.empty = a.empty ∧ c.contains d = a.contains b ∧
        c.intersects d = a.intersects b) := by
  refine ⟨_, _, convert_of_fits ha, convert_of_fits hb, empty_cast ha, fun h => ?_, fun h => ?_,
    fun hT => ?_⟩
  · obtain ⟨hc, hd, ⟨h1, h2⟩, h3, h4⟩ := intersects_iff.1 h
    refine intersects_iff.2 ⟨mt (empty_cast ha) hc, mt (empty_cast hb) hd, ⟨?_, ?_⟩, ?_, ?_⟩
    · exact Value.lt_of_cast_lt ha.1.1 hb.2.1 h1
    · exact Value.lt_of_cast_lt hb.1.1 ha.2.1 h2
    · exact Value.lt_of_cast_lt ha.1.2 hb.2.2 h3
    · exact Value.lt_of_cast_lt hb.1.2 ha.2.2 h4
  · by_cases hd : (b.cast T).empty = true
    · exact .inr hd
    · exact .inl (contains_iff.2 ⟨hd, spans_cast ha hb (contains_iff.1 h).2⟩)
  · have hle : ∀ {v w : Value K U}, v.Fits T → w.Fits T → (v.cast T ≤ w.cast T ↔ v ≤ w) :=
      Value.cast_le_iff hT
    have hlt : ∀ {v w : Value K U}, v.Fits T → w.Fits T → (v.cast T < w.cast T ↔ v < w) :=
      Value.cast_lt_iff hT
    have hemp : ∀ {e : Box2 (Value K U)}, e.Fits T → ((e.cast T).empty = true ↔ e.empty = true) := by
      intro e he
      rw [empty_iff, empty_iff]
      exact or_congr (hle he.2.1 he.1.1) (hle he.2.2 he.1.2)
    refine ⟨Bool.eq_iff_iff.2 (hemp ha), Bool.eq_iff_iff.2 ?_, Bool.eq_iff_iff.2 ?_⟩
    · rw [contains_iff, contains_iff, hemp hb]
      exact and_congr_right fun _ => and_congr
        (and_congr (hle ha.1.1 hb.1.1) (hle hb.2.1 ha.2.1))
        (and_congr (hle ha.1.2 hb.1.2) (hle hb.2.2 ha.2.2))
    · rw [intersects_iff, intersects_iff, hemp ha, hemp hb]
      exact and_congr_right fun _ => and_congr_right fun _ => and_congr
        (and_congr (hlt ha.1.1 hb.2.1) (hlt hb.1.1 ha.2.1))
        (and_congr (hlt ha.1.2 hb.2.2) (hlt hb.1.2 ha.2.2))

/-- From the reals to `int8` a box becomes empty and the one around it does not. -/
theorem convert_predicates_fractions :
    let a : Box2 (Value ℚ .real) := ofCorners ⟨0, 0⟩ ⟨2, 2⟩
    let b : Box2 (Value ℚ .real) := ofCorners ⟨1 / 3, 1 / 3⟩ ⟨2 / 3, 2 / 3⟩
    ∃ c d, a.convert (.integral .int8) = some c ∧ b.convert (.integral .int8) = some d ∧
      (c.contains d = true ∨ d.empty = true) ∧ c.empty = false := by
  intro a b
  obtain ⟨c, d, hc, hd, -, -, hcont, -⟩ := convert_predicates (K := ℚ) (.integral .int8) a b
    (by decide +kernel) (by decide +kernel)
  have hc' : a.convert (.integral .int8) = some (a.cast (.integral .int8)) := by decide +kernel
  obtain rfl := Option.some.inj (hc.symm.trans hc')
  exact ⟨_, d, hc, hd, hcont (by decide +kernel), by decide +kernel⟩

/-! ## Over a third type -/

/-- **A conversion over a third type**, the reals taken as exact. Where the third type holds every value
of the first or of the last, and the coordinates are in the range of the last after the cast, a box
converted over it is the box converted at once. So a box comes back from any type that holds its
coordinate type. -/
theorem convert_detour (U V T : ScalarType) :
    (Widens U V ∨ Widens T V → ∀ b : Box2 (Value K U), b.Fits T →
      (b.convert V).bind (convert T) = b.convert T) ∧
    (Widens U V → ∀ b : Box2 (Value K U), (b.convert V).bind (convert U) = some b) := by
  have hdetour : ∀ {T}, Widens U V ∨ Widens T V → ∀ b : Box2 (Value K U), b.Fits T →
      (b.convert V).bind (convert T) = b.convert T := by
    intro T h b hb
    obtain ⟨hx, hxT, ex⟩ := Value.cast_cast h hb.1.1
    obtain ⟨hy, hyT, ey⟩ := Value.cast_cast h hb.1.2
    obtain ⟨hx', hxT', ex'⟩ := Value.cast_cast h hb.2.1
    obtain ⟨hy', hyT', ey'⟩ := Value.cast_cast h hb.2.2
    have hV : b.Fits V := ⟨⟨hx, hy⟩, hx', hy'⟩
    have hT : (b.cast V).Fits T := ⟨⟨hxT, hyT⟩, hxT', hyT'⟩
    rw [convert_of_fits hV, Option.bind_some, convert_of_fits hT, convert_of_fits hb]
    simp only [cast, ex, ey, ex', ey']
  refine ⟨hdetour, fun h b => ?_⟩
  have hself : b.Fits U := ⟨⟨b.min.x.fits_self, b.min.y.fits_self⟩, b.max.x.fits_self, b.max.y.fits_self⟩
  rw [hdetour (.inl h) b hself, convert_of_fits hself]
  simp only [cast, Value.cast_self]

/-- From `int8` to the reals and back. -/
theorem convert_detour_back :
    let b : Box2 (Value ℚ (.integral .int8)) :=
      ⟨⟨Arith.lit (-128), Arith.lit 3⟩, Arith.lit 127, Arith.lit 4⟩
    (b.convert .real).bind (convert (.integral .int8)) = some b := by
  intro b
  exact (convert_detour (K := ℚ) (.integral .int8) .real .real).2 trivial b

end Box2

end BoomEd
