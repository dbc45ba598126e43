import BoomEd.CmdLedger
import BoomEd.Lib.Scope
/-!
# Commands held by local variables

Code that keeps its commands in variables of type `unique_cmd`, as `app::app` does (app/app.cpp:10-13):
blocks, exceptions and handlers around makes, moves and resets. A variable's handle is released where
its scope ends, by `~unique_ptr`, however control leaves. The slots of the ledger are now a stack, the
innermost variable last.

`Stmt` is the syntax of such code and `denote` its meaning. `scopes_keep_ledger`: it is never undefined
and leaves no command behind that an outer variable does not own.
-/

namespace BoomEd

open Cxx

variable {τ : Type}

/-- A part of the program that uses one factory. Variables are numbered from the outermost scope; what
a `make` calls out to is given by the world it happens in. -/
inductive Stmt (τ : Type) where
  | skip
  | throw (e : Exn)
  | seq (a b : Stmt τ)
  | tryCatch (a b : Stmt τ)
  | make (T : τ) (env : World τ → Env) (body : Stmt τ)
  | move (i : Nat) (body : Stmt τ)
  | reset (i : Nat)

/-! ## Meaning -/

/-- Code of the factory, on the world alone. -/
def onWorld {α : Type} (x : M τ α) : Prog Exn (State τ) α :=
  Prog.zoom State.world (fun w s => { s with world := w }) x

/-- A deleter is `noexcept` (cmd.h:34): what would leave it ends the program. -/
def noexcept {α : Type} (x : Prog Exn (State τ) α) : Prog Exn (State τ) α :=
  tryCatch x fun _ => Prog.undefined

/-- The handle in a variable is released and the variable null. -/
def resetLocal (i : Nat) : Prog Exn (State τ) Unit := do
  let s ← get
  match s.slots[i]? with
  | none => Prog.undefined
  | some h =>
    noexcept (onWorld h.release)
    modify fun s => { s with slots := s.slots.set i h.emptied }

/-- The end of the innermost scope. -/
def dropLocal : Prog Exn (State τ) Unit := do
  let s ← get
  resetLocal (s.slots.length - 1)
  modify fun s => { s with slots := s.slots.dropLast }

/-- `auto d = std::move(c);` -/
def moveLocal (i : Nat) : Prog Exn (State τ) Unit := do
  let s ← get
  match s.slots[i]? with
  | none => Prog.undefined
  | some h => set { s with slots := s.slots.set i h.emptied ++ [h] }

variable [CmdType τ] [DecidableEq τ]

/-- `auto c = cf.make<T>(…);` -/
def makeLocal (f : CmdFactory) (T : τ) (env : World τ → Env) : Prog Exn (State τ) Unit := do
  let s ← get
  let h ← onWorld (f.make T (env s.world))
  modify fun s => { s with slots := s.slots ++ [h] }

def Stmt.denote (f : CmdFactory) : Stmt τ → Prog Exn (State τ) Unit
  | skip => pure ()
  | throw e => MonadExcept.throw e
  | seq a b => do a.denote f; b.denote f
  | tryCatch a b => MonadExcept.tryCatch (a.denote f) fun _ => b.denote f
  | make T env body => Prog.withLocal (makeLocal f T env) (fun _ => dropLocal) fun _ => body.denote f
  | move i body => Prog.withLocal (moveLocal i) (fun _ => dropLocal) fun _ => body.denote f
  | reset i => resetLocal i

/-- `allocate` returns a fresh block or throws, wherever the `make` happens. -/
def Honest (T : τ) (env : World τ → Env) : Prop :=
  ∀ w p, (env w).alloc = .ok p → w.Fresh p (Layout.size T)

/-- With `n` variables in scope, no other is named, and the surroundings keep their promise. -/
def Stmt.Closed : Nat → Stmt τ → Prop
  | _, skip => True
  | _, throw _ => True
  | n, seq a b => a.Closed n ∧ b.Closed n
  | n, tryCatch a b => a.Closed n ∧ b.Closed n
  | n, make T env body => Honest T env ∧ body.Closed (n + 1)
  | n, move i body => i < n ∧ body.Closed (n + 1)
  | n, reset i => i < n

/-! ## An allocator that keeps the promise -/

section Top

omit [CmdType τ] [DecidableEq τ]

/-- The end of the outstanding block that ends last. -/
def top (w : World τ) : Nat := w.blocks.foldr (fun b m => max (b.addr + b.bytes) m) 0

theorem le_foldr_max {bs : List (Block τ)} {b : Block τ} (hb : b ∈ bs) :
    b.addr + b.bytes ≤ bs.foldr (fun b m => max (b.addr + b.bytes) m) 0 := by
  induction bs with
  | nil => cases hb
  | cons c bs ih =>
    rcases List.mem_cons.1 hb with rfl | hb
    · exact Nat.le_max_left ..
    · exact (ih hb).trans (Nat.le_max_right ..)

theorem fresh_top (w : World τ) (n : Nat) : w.Fresh (top w) n := fun _ hb => .inl (le_foldr_max hb)

end Top

omit [DecidableEq τ] in
theorem honest_top (T : τ) (ctor : CtorOutcome) : Honest T fun w => ⟨.ok (top w), ctor⟩ := by
  intro w p hp
  cases hp
  exact fresh_top w _

/-! ## Variables -/

section Variables

omit [CmdType τ] [DecidableEq τ]

/-- Every variable holds what it held or is null. -/
structure Spent (l l' : List (UniqueCmd τ)) : Prop where
  length : l'.length = l.length
  slot : ∀ i : Nat, l'[i]? = l[i]? ∨ l'[i]? = l[i]?.map UniqueCmd.emptied

theorem Spent.refl (l : List (UniqueCmd τ)) : Spent l l := ⟨rfl, fun _ => .inl rfl⟩

theorem Spent.trans {l l' l'' : List (UniqueCmd τ)} (h : Spent l l') (h' : Spent l' l'') :
    Spent l l'' := by
  refine ⟨h'.length.trans h.length, fun i => ?_⟩
  have hidem : ∀ o : Option (UniqueCmd τ),
      (o.map UniqueCmd.emptied).map UniqueCmd.emptied = o.map UniqueCmd.emptied := fun o => by
    cases o <;> rfl
  rcases h.slot i with e | e <;> rcases h'.slot i with e' | e'
  · exact .inl (e'.trans e)
  · exact .inr (by rw [e', e])
  · exact .inr (by rw [e', e])
  · exact .inr (by rw [e', e, hidem])

theorem Spent.set {l : List (UniqueCmd τ)} {i : Nat} {h : UniqueCmd τ} (hi : l[i]? = some h) :
    Spent l (l.set i h.emptied) := by
  refine ⟨List.length_set, fun j => ?_⟩
  by_cases hj : i = j
  · subst hj
    right
    rw [List.getElem?_set_self' , hi]
    rfl
  · left
    rw [List.getElem?_set_ne hj]

theorem Spent.dropLast {l l' : List (UniqueCmd τ)} (h : Spent l l') : Spent l.dropLast l'.dropLast := by
  refine ⟨by simp [h.length], fun i => ?_⟩
  rw [List.getElem?_dropLast, List.getElem?_dropLast, h.length]
  split
  · exact h.slot i
  · exact .inl rfl

/-- Nothing that was null holds a command. -/
theorem Spent.live_eq_nil {l l' : List (UniqueCmd τ)} (h : Spent l l') (hl : liveOf l = []) :
    liveOf l' = [] := by
  rw [liveOf, List.filter_eq_nil_iff] at *
  intro g hg
  obtain ⟨i, hi⟩ := List.mem_iff_getElem?.1 hg
  rcases h.slot i with e | e
  · exact hl g (List.mem_iff_getElem?.2 ⟨i, e ▸ hi⟩)
  · rw [hi] at e
    obtain ⟨g', -, rfl⟩ := Option.map_eq_some_iff.1 e.symm
    simp [UniqueCmd.emptied]

end Variables

/-! ## What the parts of a scope do -/

variable {f : CmdFactory} {s : State τ}

omit [CmdType τ] [DecidableEq τ] in
theorem exec_onWorld {α : Type} {x : M τ α} {r : Except Exn α} {w' : World τ}
    (h : Prog.exec x s.world = some (r, w')) :
    Prog.exec (onWorld x) s = some (r, ⟨w', s.slots⟩) := Prog.exec_zoom h

theorem exec_resetLocal (h : Ledger f s) {i : Nat} {g : UniqueCmd τ} (hi : s.slots[i]? = some g) :
    ∃ s', Prog.exec (resetLocal i) s = some (.ok (), s') ∧ Ledger f s' ∧
      s'.slots = s.slots.set i g.emptied := by
  obtain ⟨w', hexec, hledger⟩ : ∃ w', Prog.exec g.release s.world = some (.ok (), w') ∧
      Ledger f ⟨w', s.slots.set i g.emptied⟩ := by
    cases hnull : g.ptr.isSome with
    | true =>
      obtain ⟨b, T, w', -, -, -, hexec, -, -, hledger⟩ := h.release hi hnull
      exact ⟨w', hexec, hledger⟩
    | false => exact ⟨_, UniqueCmd.release_of_null hnull _, h.release_null hi hnull⟩
  have hrelease := exec_onWorld hexec
  refine ⟨⟨w', s.slots.set i g.emptied⟩, ?_, hledger, rfl⟩
  simp [resetLocal, noexcept, Prog.exec_bind, Prog.exec_tryCatch, hi, hrelease]

theorem exec_dropLocal (h : Ledger f s) (hne : s.slots ≠ []) :
    ∃ s', Prog.exec dropLocal s = some (.ok (), s') ∧ Ledger f s' ∧ s'.slots = s.slots.dropLast := by
  obtain ⟨l, g, e⟩ : ∃ l g, s.slots = l ++ [g] := ⟨_, _, (List.dropLast_append_getLast hne).symm⟩
  have hi : s.slots[s.slots.length - 1]? = some g := by simp [e]
  obtain ⟨s', hreset, hledger, hslots⟩ := exec_resetLocal h hi
  have hpop : s'.slots = l ++ [g.emptied] := by rw [hslots, e]; simp
  refine ⟨⟨s'.world, s'.slots.dropLast⟩, ?_, hledger.of_perm ?_, ?_⟩
  · simp [dropLocal, Prog.exec_bind, hreset]
  · rw [State.live, hpop, List.dropLast_concat, liveOf_append, liveOf_emptied, List.append_nil]
  · rw [hpop, e, List.dropLast_concat, List.dropLast_concat]

theorem exec_moveLocal (h : Ledger f s) {i : Nat} {g : UniqueCmd τ} (hi : s.slots[i]? = some g) :
    ∃ s', Prog.exec (moveLocal i) s = some (.ok (), s') ∧ Ledger f s' ∧
      s'.slots = s.slots.set i g.emptied ++ [g] := by
  refine ⟨_, ?_, h.move hi, rfl⟩
  simp [moveLocal, Prog.exec_bind, hi]

omit [DecidableEq τ] in
theorem Honest.allowed {T : τ} {env : World τ → Env} (henv : Honest T env) (s : State τ) :
    CmdFactory.Allowed s (.make T (env s.world)) := by
  cases halloc : (env s.world).alloc with
  | error e => simp only [CmdFactory.Allowed, halloc]
  | ok p =>
    simp only [CmdFactory.Allowed, halloc]
    exact henv s.world p halloc

/-- What a local `make` leaves when it throws: no block, and no log but its own. -/
theorem exec_makeLocal_throws (h : Ledger f s) {T : τ} {env : World τ → Env} (henv : Honest T env)
    {e : Exn} (he : (env s.world).thrown = some e) :
    ∃ s' failed, Prog.exec (makeLocal f T env) s = some (.error e, s') ∧ Ledger f s' ∧
      s'.slots = s.slots ∧ s'.world.blocks = s.world.blocks ∧
      s'.world.log = s.world.log ++ failed ∧ (failed = [] ∨ ∃ id p, failed = aborted f id p T) := by
  obtain ⟨w', failed, hexec, hblocks, -, hlog, hfailed, h'⟩ := h.make_throws (henv.allowed s) he
  have hmake := exec_onWorld hexec
  exact ⟨⟨w', s.slots⟩, failed, by simp [makeLocal, Prog.exec_bind, hmake], h', rfl, hblocks, hlog,
    hfailed.imp_right fun ⟨p, hp⟩ => ⟨_, p, hp⟩⟩

/-- And when it returns: the new block, its log and the handle that owns it. -/
theorem exec_makeLocal_returns (h : Ledger f s) {T : τ} {env : World τ → Env} (henv : Honest T env)
    (he : (env s.world).thrown = none) :
    ∃ p s', Prog.exec (makeLocal f T env) s = some (.ok (), s') ∧ Ledger f s' ∧
      s'.slots = s.slots ++ [f.handle T p] ∧
      s'.world.blocks = s.world.blocks ++ [{ f.rawBlock T s.world.next p with obj := some T }] ∧
      s'.world.log = s.world.log ++ opened f s.world.next p T ∧
      s.world.Fresh p (Layout.size T) := by
  obtain ⟨p, hp⟩ := Env.exists_alloc he
  obtain ⟨w', hexec, hblocks, hlog, h'⟩ := h.make_returns (henv.allowed s) he hp
  have hmake := exec_onWorld hexec
  exact ⟨p, ⟨w', s.slots ++ [f.handle T p]⟩, by simp [makeLocal, Prog.exec_bind, hmake], h', rfl,
    hblocks, hlog, henv s.world p hp⟩

/-! ## Every piece of code -/

/-- From a ledger with `n` variables in scope the code has an outcome, keeps the ledger and these
variables, and fills none. -/
def KeepsLedger (f : CmdFactory) (n : Nat) (x : Prog Exn (State τ) Unit) : Prop :=
  Prog.Keeps (fun s => Ledger f s ∧ s.slots.length = n) (fun s s' => Spent s.slots s'.slots) x

/-- A block whose constructor, if it returns, leaves one more variable. -/
theorem KeepsLedger.block {n : Nat} {ctor body : Prog Exn (State τ) Unit}
    (hctor : ∀ s, Ledger f s → s.slots.length = n →
      (∃ e s', Prog.exec ctor s = some (.error e, s') ∧ Ledger f s' ∧ s'.slots = s.slots) ∨
      ∃ g s' l, Prog.exec ctor s = some (.ok (), s') ∧ Ledger f s' ∧ s'.slots = l ++ [g] ∧
        Spent s.slots l)
    (hbody : KeepsLedger f (n + 1) body) :
    KeepsLedger f n (Prog.withLocal ctor (fun _ => dropLocal) fun _ => body) := by
  refine Prog.Keeps.withLocal (J := fun _ s s₁ => s.slots.length = n ∧
    (Ledger f s₁ ∧ s₁.slots.length = n + 1) ∧ Spent s.slots s₁.slots.dropLast) ?_ ?_ ?_
  · rintro s ⟨h, hn⟩
    rcases hctor s h hn with ⟨e, s', hexec, h', hslots⟩ | ⟨g, s', l, hexec, h', hslots, hl⟩
    · exact .inl ⟨e, s', hexec, ⟨h', by rw [hslots, hn]⟩, hslots ▸ .refl _⟩
    · refine .inr ⟨(), s', hexec, hn, ⟨h', ?_⟩, ?_⟩
      · rw [hslots, List.length_append, hl.length, hn, List.length_singleton]
      · rwa [hslots, List.dropLast_concat]
  · rintro - s s₁ ⟨hn, h₁, hl⟩
    obtain ⟨r, s₂, hexec, h₂, hspent⟩ := hbody s₁ h₁
    exact ⟨r, s₂, hexec, hn, h₂, hl.trans hspent.dropLast⟩
  · rintro - s s₂ ⟨hn, ⟨h₂, hlen⟩, hl⟩
    have hne : s₂.slots ≠ [] := List.ne_nil_of_length_eq_add_one hlen
    obtain ⟨s', hexec, h', hslots⟩ := exec_dropLocal h₂ hne
    refine ⟨s', hexec, ⟨h', ?_⟩, hslots ▸ hl⟩
    rw [hslots, List.length_dropLast, hlen, Nat.add_sub_cancel]

/-- The induction is on the code; the ledger and the number of variables in scope carry it. -/
theorem Stmt.keepsLedger (a : Stmt τ) : ∀ n, a.Closed n → KeepsLedger f n (a.denote f) := by
  induction a with
  | skip => exact fun n _ => .pure (fun s => .refl s.slots) ()
  | throw e => exact fun n _ => .throw (fun s => .refl s.slots) e
  | seq a b iha ihb => exact fun n ⟨ha, hb⟩ => .bind .trans (iha n ha) fun _ => ihb n hb
  | tryCatch a b iha ihb => exact fun n ⟨ha, hb⟩ => .tryCatch .trans (iha n ha) fun _ => ihb n hb
  | make T env body ih =>
    rintro n ⟨henv, hbody⟩
    refine .block (fun s h _ => ?_) (ih (n + 1) hbody)
    cases ht : (env s.world).thrown with
    | some e =>
      obtain ⟨s', -, hexec, h', hslots, -⟩ := exec_makeLocal_throws h henv ht
      exact .inl ⟨e, s', hexec, h', hslots⟩
    | none =>
      obtain ⟨p, s', hexec, h', hslots, -⟩ := exec_makeLocal_returns h henv ht
      exact .inr ⟨_, s', _, hexec, h', hslots, .refl _⟩
  | move i body ih =>
    rintro n ⟨hi, hbody⟩
    refine .block (fun s h hn => .inr ?_) (ih (n + 1) hbody)
    obtain ⟨g, hg⟩ : ∃ g, s.slots[i]? = some g :=
      ⟨_, List.getElem?_eq_getElem (hn.symm ▸ hi : i < s.slots.length)⟩
    obtain ⟨s', hexec, h', hslots⟩ := exec_moveLocal h hg
    exact ⟨_, s', _, hexec, h', hslots, .set hg⟩
  | reset i =>
    rintro n hi s ⟨h, hn⟩
    obtain ⟨g, hg⟩ : ∃ g, s.slots[i]? = some g :=
      ⟨_, List.getElem?_eq_getElem (hn.symm ▸ hi : i < s.slots.length)⟩
    obtain ⟨s', hexec, h', hslots⟩ := exec_resetLocal h hg
    refine ⟨_, s', hexec, ⟨h', by rw [hslots, List.length_set, hn]⟩, ?_⟩
    show Spent s.slots s'.slots
    rw [hslots]
    exact .set hg

/-- **Scopes keep the ledger.** Code that holds its commands in local variables, closed over the
variables in scope, runs from every ledger without undefined behaviour and returns or throws; either
way the ledger holds again, the outer variables are there, each holding what it held or null, and what
is out belongs to one of them: if none held a command, nothing is out. -/
theorem scopes_keep_ledger (f : CmdFactory) (a : Stmt τ) (s : State τ) (h : Ledger f s)
    (ha : a.Closed s.slots.length) :
    ∃ r s', Prog.exec (a.denote f) s = some (r, s') ∧ Ledger f s' ∧ Spent s.slots s'.slots ∧
      Matched f s'.live s'.world.blocks ∧
      (s.live = [] → s'.world.blocks = [] ∧ s'.world.inner = []) := by
  obtain ⟨r, s', hexec, ⟨h', -⟩, hspent⟩ := a.keepsLedger s.slots.length ha s ⟨h, rfl⟩
  exact ⟨r, s', hexec, h', hspent, h'.owned, fun hlive => h'.nothing_out (hspent.live_eq_nil hlive)⟩

/-- A handler, a move and an exception on the way out. -/
theorem scopes_keep_ledger_throwing :
    let f : CmdFactory := ⟨⟨0⟩⟩
    let made : World Command → Env := fun w => ⟨.ok (top w), .returns []⟩
    let failed : World Command → Env := fun w => ⟨.ok (top w), .throws .badAlloc⟩
    let code : Stmt Command := .make .sentinel made
      (.seq (.tryCatch (.make .addVertex failed .skip) .skip) (.move 0 (.throw (.other 1))))
    ∃ r s', Prog.exec (code.denote f) ⟨World.empty, []⟩ = some (r, s') ∧
      s'.world.blocks = [] ∧ s'.world.log.length = 6 := by
  intro f made failed code
  have hclosed : code.Closed 0 :=
    ⟨honest_top _ _, ⟨⟨honest_top _ _, trivial⟩, trivial⟩, Nat.one_pos, trivial⟩
  obtain ⟨r, s', hexec, -, -, -, hout⟩ :=
    scopes_keep_ledger f code ⟨World.empty, []⟩ (ledger_empty f) hclosed
  have hrun : Prog.exec (code.denote f) ⟨World.empty, []⟩ = some (.error (.other 1), _) := rfl
  cases hexec.symm.trans hrun
  exact ⟨_, _, rfl, (hout rfl).1, rfl⟩

/-! ## The order of destruction -/

end BoomEd
