import Mathlib.Init
/-!
# State machines with undefined steps

A machine starts in one state and takes one action at a time. Some actions the surroundings promise
never to offer in a given state (`allowed`); an allowed action whose `step` is `none` has run into
undefined behaviour. An invariant is worth having only together with the fact that no allowed action
does that, so `Safe` asks for both at once: each allowed step is defined, and ends in the invariant.
-/

universe u v

/-- `step s a = none`: taking `a` in `s` has no defined outcome. -/
structure Machine (σ : Type u) (α : Type v) where
  init : σ
  allowed : σ → α → Prop
  step : σ → α → Option σ

namespace Machine

variable {σ : Type u} {α : Type v} {m : Machine σ α} {I : σ → Prop} {s s' : σ} {a : α}

/-- The states that some finite sequence of allowed actions leads to. -/
inductive Reachable (m : Machine σ α) : σ → Prop where
  | init : Reachable m m.init
  | step {s s' : σ} (a : α) : Reachable m s → m.allowed s a → m.step s a = some s' → Reachable m s'

/-- Takes the actions one after the other, as long as each is allowed and defined. -/
def run (m : Machine σ α) [∀ s a, Decidable (m.allowed s a)] : σ → List α → Option σ
  | s, [] => some s
  | s, a :: as => if m.allowed s a then (m.step s a).bind fun t => m.run t as else none

theorem reachable_of_run [∀ s a, Decidable (m.allowed s a)] {as : List α} (hs : Reachable m s)
    (h : m.run s as = some s') : Reachable m s' := by
  induction as generalizing s with
  | nil =>
    cases h
    exact hs
  | cons a as ih =>
    by_cases ha : m.allowed s a
    · rw [run, if_pos ha] at h
      obtain ⟨t, ht, hrun⟩ := Option.bind_eq_some_iff.mp h
      exact ih (hs.step a ha ht) hrun
    · rw [run, if_neg ha] at h
      cases h

/-- `I` holds at the start, and in `I` every allowed action is defined and stays in `I`. -/
structure Safe (m : Machine σ α) (I : σ → Prop) : Prop where
  init : I m.init
  step : ∀ s a, I s → m.allowed s a → ∃ s', m.step s a = some s' ∧ I s'

theorem Safe.reachable (h : Safe m I) (hs : Reachable m s) : I s := by
  induction hs with
  | init => exact h.init
  | step a _ hallowed hstep ih =>
    obtain ⟨t, ht, hI⟩ := h.step _ a ih hallowed
    rw [hstep] at ht
    cases ht
    exact hI

/-- No run is ever stuck. -/
theorem Safe.defined (h : Safe m I) (hs : Reachable m s) (ha : m.allowed s a) :
    ∃ s', m.step s a = some s' ∧ Reachable m s' := by
  obtain ⟨t, ht, -⟩ := h.step s a (h.reachable hs) ha
  exact ⟨t, ht, hs.step a ha ht⟩

/-- Along a run from the invariant, what is seen of the state follows `next`, if every step does. -/
theorem Safe.view_of_run [∀ s a, Decidable (m.allowed s a)] {β : Type*} {view : σ → β}
    {next : β → α → β} (h : Safe m I)
    (hview : ∀ s a s', I s → m.allowed s a → m.step s a = some s' → view s' = next (view s) a)
    {as : List α} (hs : I s) (hrun : m.run s as = some s') : view s' = as.foldl next (view s) := by
  induction as generalizing s with
  | nil =>
    cases hrun
    rfl
  | cons a as ih =>
    by_cases ha : m.allowed s a
    · rw [run, if_pos ha] at hrun
      obtain ⟨t, ht, hrun⟩ := Option.bind_eq_some_iff.mp hrun
      obtain ⟨t', ht', hI⟩ := h.step s a hs ha
      obtain rfl : t' = t := Option.some.inj (ht'.symm.trans ht)
      rw [ih hI hrun, hview s a t' hs ha ht, List.foldl_cons]
    · rw [run, if_neg ha] at hrun
      cases hrun

end Machine
