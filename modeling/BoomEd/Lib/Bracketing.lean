import Mathlib.Algebra.Free
import Mathlib.Algebra.BigOperators.Group.List.Basic
import Mathlib.Order.Bounds.Basic
/-!
# Bracketed combinations

A binary operation applied over a list in some bracketing is a tree with the operands at its leaves:
Mathlib's free magma. `eval op t` carries the combination out. What the result depends on follows
from the laws of `op`: on the list of leaves for an associative operation, on their set for a join.
-/

universe u v

/-- Bracketed combinations of elements of `α`. -/
abbrev Bracketing (α : Type u) := FreeMagma α

namespace Bracketing

variable {α : Type u} {β : Type v}

/-- The operands, from left to right. -/
def leaves : Bracketing α → List α
  | .of a => [a]
  | .mul s t => leaves s ++ leaves t

/-- The combination carried out with `op`. -/
def eval (op : α → α → α) : Bracketing α → α
  | .of a => a
  | .mul s t => op (eval op s) (eval op t)

@[simp] theorem leaves_of (a : α) : leaves (FreeMagma.of a) = [a] := rfl
@[simp] theorem leaves_mul (s t : Bracketing α) : leaves (s * t) = leaves s ++ leaves t := rfl
@[simp] theorem eval_of (op : α → α → α) (a : α) : eval op (FreeMagma.of a) = a := rfl
@[simp] theorem eval_mul (op : α → α → α) (s t : Bracketing α) :
    eval op (s * t) = op (eval op s) (eval op t) := rfl

@[simp] theorem leaves_map (f : α → β) (t : Bracketing α) :
    leaves (FreeMagma.map f t) = (leaves t).map f := by
  induction t with
  | of a => rfl
  | mul s t hs ht => simp [hs, ht]

/-- A homomorphism goes through the whole combination. -/
theorem map_eval {op : α → α → α} {op' : β → β → β} (f : α → β)
    (hf : ∀ a b, f (op a b) = op' (f a) (f b)) (t : Bracketing α) :
    f (eval op t) = eval op' (FreeMagma.map f t) := by
  induction t with
  | of a => rfl
  | mul s t hs ht => simp [hf, hs, ht]

/-! ## Associative operations: only the list of operands counts -/

theorem eval_eq_prod [Monoid α] (t : Bracketing α) : eval (· * ·) t = (leaves t).prod := by
  induction t with
  | of a => simp
  | mul s t hs ht => simp [hs, ht]

/-- An operation that some denotation turns into a monoid's product denotes, in every bracketing,
the product of its operands' denotations. -/
theorem denote_eval [Monoid β] {op : α → α → α} (d : α → β) (hd : ∀ a b, d (op a b) = d a * d b)
    (t : Bracketing α) : d (eval op t) = ((leaves t).map d).prod := by
  rw [map_eval d hd, eval_eq_prod, leaves_map]

/-! ## Joins: only the set of operands counts -/

section SemilatticeSup
variable [SemilatticeSup α]

/-- Combining with the join yields the least upper bound of the operands. -/
theorem isLUB_eval (t : Bracketing α) : IsLUB {a | a ∈ leaves t} (eval (· ⊔ ·) t) := by
  induction t with
  | of a => simp [isLUB_singleton]
  | mul s t hs ht =>
    have e : {a | a ∈ leaves (s.mul t)} = {a | a ∈ leaves s} ∪ {a | a ∈ leaves t} := by
      ext a; simp
    rw [e]
    exact hs.union ht

theorem eval_sup_congr {s t : Bracketing α} (h : ∀ a, a ∈ leaves s ↔ a ∈ leaves t) :
    eval (· ⊔ ·) s = eval (· ⊔ ·) t := by
  have e : {a | a ∈ leaves s} = {a | a ∈ leaves t} := Set.ext h
  exact (isLUB_eval s).unique (e ▸ isLUB_eval t)

end SemilatticeSup

/-! ## Loops over a list

`op` puts one element at a time into the accumulator; `P` is an invariant of the accumulator. -/

section Loop
variable {γ : Type v} {P : β → Prop} {op : β → α → β}

/-- What relates each new accumulator to the old one and to the element put in relates the result to
the start and to every element. -/
theorem foldl_rel {R : β → β → Prop} {S : β → α → Prop} (hP : ∀ b a, P b → P (op b a))
    (hrefl : ∀ b, R b b) (hR : ∀ b a, P b → R (op b a) b) (hS : ∀ b a, P b → S (op b a) a)
    (htrans : ∀ b c d, R b c → R c d → R b d) (hRS : ∀ b c a, R b c → S c a → S b a) :
    ∀ (l : List α) (b : β), P b →
      P (l.foldl op b) ∧ R (l.foldl op b) b ∧ ∀ a ∈ l, S (l.foldl op b) a
  | [], b, hb => ⟨hb, hrefl b, by simp⟩
  | a :: l, b, hb => by
    obtain ⟨hp, hr, hs⟩ := foldl_rel hP hrefl hR hS htrans hRS l (op b a) (hP b a hb)
    refine ⟨hp, htrans _ _ _ hr (hR b a hb), fun c hc => ?_⟩
    rcases List.mem_cons.1 hc with rfl | hc
    · exact hRS _ _ _ hr (hS b c hb)
    · exact hs c hc

/-- A coordinate that each step takes over from the accumulator or from the element comes, in the
result, from the start or from one of the elements. -/
theorem foldl_selects {f : β → γ} {g : α → γ} (hP : ∀ b a, P b → P (op b a))
    (h : ∀ b a, P b → f (op b a) = f b ∨ f (op b a) = g a) :
    ∀ (l : List α) (b : β), P b → f (l.foldl op b) = f b ∨ ∃ a ∈ l, f (l.foldl op b) = g a
  | [], b, _ => Or.inl rfl
  | a :: l, b, hb => by
    rcases foldl_selects hP h l (op b a) (hP b a hb) with ih | ⟨c, hc, ih⟩
    · rcases h b a hb with e | e
      · exact Or.inl (ih.trans e)
      · exact Or.inr ⟨a, by simp, ih.trans e⟩
    · exact Or.inr ⟨c, by simp [hc], ih⟩

end Loop

/-! ## From lists and from subtypes -/

/-- The combination a loop over the list makes, starting from `a`. -/
def ofList (a : α) (l : List α) : Bracketing α := l.foldl (fun t b => t * FreeMagma.of b) (FreeMagma.of a)

theorem leaves_ofList (a : α) (l : List α) : leaves (ofList a l) = a :: l := by
  have key : ∀ (l : List α) (t : Bracketing α),
      leaves (l.foldl (fun t b => t * FreeMagma.of b) t) = leaves t ++ l := by
    intro l
    induction l with
    | nil => simp
    | cons b l ih => intro t; simp [ih]
  exact key l _

theorem eval_ofList (op : α → α → α) (a : α) (l : List α) : eval op (ofList a l) = l.foldl op a := by
  have key : ∀ (l : List α) (t : Bracketing α),
      eval op (l.foldl (fun t b => t * FreeMagma.of b) t) = l.foldl op (eval op t) := by
    intro l
    induction l with
    | nil => simp
    | cons b l ih => intro t; simp [ih]
  exact key l _

/-- Operands that all satisfy `p` make a combination in the subtype. -/
theorem exists_lift {p : α → Prop} (t : Bracketing α) (h : ∀ a ∈ leaves t, p a) :
    ∃ s : Bracketing {a // p a}, FreeMagma.map Subtype.val s = t := by
  induction t with
  | of a => exact ⟨FreeMagma.of ⟨a, h a (by simp)⟩, rfl⟩
  | mul s t hs ht =>
    obtain ⟨s', rfl⟩ := hs fun a ha => h a (by simp [ha])
    obtain ⟨t', rfl⟩ := ht fun a ha => h a (by simp [ha])
    exact ⟨s' * t', by simp⟩

end Bracketing
