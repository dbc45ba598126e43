import BoomEd.CmdLedger
/-!
# Calls through a handle (`commands/cmd.h`)

A virtual call through a `cmd::base*` reaches the overrider of the type of the object there. A program
that makes, moves and releases commands can be read without storage or addresses: a variable holds a
command of some type or nothing (`Vars`). `calls_reach_made_type` says that this reading is right.

| here | there |
| --- | --- |
| `typeAt`        | the dynamic type that a virtual call looks up |
| `UniqueCmd.call`| `c->m()` for a virtual member function `m` of `cmd::base` (cmd.h:13-15) |
| `Command.isEnd` | `is_end` (cmd.h:15; cmd_sentinel.h:17) |
-/

namespace BoomEd

open Cxx

variable {τ : Type} [CmdType τ]

/-- The type of the object whose `cmd::base` lies at `base`. -/
def typeAt (w : World τ) (base : Nat) : Option τ :=
  w.blocks.findSome? fun b => b.obj.filter fun T => b.addr + CmdType.baseOffset T = base

/-- The command that a handle holds. -/
def UniqueCmd.holds (h : UniqueCmd τ) (w : World τ) : Option τ := h.ptr.bind (typeAt w)

/-- `m T` is what the final overrider in `T` returns. Through a null or a dangling pointer the call is
undefined. -/
def UniqueCmd.call {α : Type} (h : UniqueCmd τ) (m : τ → α) (w : World τ) : Option α :=
  (h.holds w).map m

/-- The default is `false`; the sentinel overrides it. -/
def Command.isEnd : Command → Bool
  | .sentinel => true
  | .addVertex => false

/-! ## Variables without storage -/

/-- The type of the command that each variable holds, if it holds one. -/
abbrev Vars (τ : Type) := List (Option τ)

/-- A `make` fills a new variable unless it throws. -/
def Vars.next (v : Vars τ) : Act τ → Vars τ
  | .make T env => if env.thrown.isSome then v else v ++ [some T]
  | .move i => v.set i none ++ [v[i]?.join]
  | .release i => v.set i none

def State.vars (s : State τ) : Vars τ := s.slots.map fun h => h.holds s.world

/-! ## Every step -/

variable [DecidableEq τ] {f : CmdFactory} {s s' : State τ}

/-- Every outstanding block is owned by a live handle. -/
theorem Ledger.owner_of_mem (h : Ledger f s) {b : Block τ} (hb : b ∈ s.world.blocks) :
    ∃ g : UniqueCmd τ, Owns f g b := by
  obtain ⟨bs, hbs⟩ := Multiset.exists_cons_of_mem (Multiset.mem_coe.mpr hb)
  have howned := h.owned
  rw [Matched, hbs, Multiset.rel_cons_right] at howned
  obtain ⟨g, -, hown, -⟩ := howned
  exact ⟨g, hown⟩

/-- Objects that share no byte do not share the address of their `cmd::base`. -/
theorem Ledger.typeAt_iff (h : Ledger f s) {base : Nat} {T : τ} :
    typeAt s.world base = some T ↔
      ∃ b ∈ s.world.blocks, b.obj = some T ∧ b.addr + CmdType.baseOffset T = base := by
  have hsome : ∀ {b : Block τ} {U : τ}, (b.obj.filter fun T => b.addr + CmdType.baseOffset T = base) =
      some U ↔ b.obj = some U ∧ b.addr + CmdType.baseOffset U = base := by
    simp [Option.filter_eq_some_iff]
  constructor
  · intro hT
    obtain ⟨b, hb, hbT⟩ := List.exists_of_findSome?_eq_some hT
    exact ⟨b, hb, hsome.1 hbT⟩
  · rintro ⟨b, hb, hobj, hbase⟩
    obtain ⟨U, hU⟩ : ∃ U, typeAt s.world base = some U := by
      refine Option.isSome_iff_exists.1 (List.findSome?_isSome_iff.2 ⟨b, hb, ?_⟩)
      rw [hsome.2 ⟨hobj, hbase⟩, Option.isSome_some]
    obtain ⟨c, hc, hcU⟩ := List.exists_of_findSome?_eq_some hU
    obtain ⟨hcobj, hcbase⟩ := hsome.1 hcU
    obtain ⟨-, T', hT', -, hbytes, -⟩ := h.owner_of_mem hb
    obtain ⟨-, U', hU', -, hcbytes, -⟩ := h.owner_of_mem hc
    obtain rfl : T' = T := Option.some.inj (hT'.symm.trans hobj)
    obtain rfl : U' = U := Option.some.inj (hU'.symm.trans hcobj)
    -- `base` lies in both blocks
    have hbc : b = c := by
      by_contra hne
      have happart := h.sound.apart.forall hb hc hne
      have hlt := CmdType.baseOffset_lt T'
      have hlt' := CmdType.baseOffset_lt U'
      have hsep := happart.2
      omega
    rw [hU, ← hcobj, ← hobj, hbc]

omit [DecidableEq τ] in
theorem holds_of_null {g : UniqueCmd τ} (hnull : g.ptr.isSome = false) (w : World τ) :
    g.holds w = none := by
  rw [Option.isSome_eq_false_iff, Option.isNone_iff_eq_none] at hnull
  rw [UniqueCmd.holds, hnull, Option.bind_none]

omit [DecidableEq τ] in
theorem holds_emptied (g : UniqueCmd τ) (w : World τ) : g.emptied.holds w = none := rfl

/-- A live handle holds the command of its block. -/
theorem Ledger.holds_of_live (h : Ledger f s) {i : Nat} {g : UniqueCmd τ} (hi : s.slots[i]? = some g)
    (hlive : g.ptr.isSome) :
    ∃ b ∈ s.world.blocks, ∃ T, b.obj = some T ∧ g.ptr = some (b.addr + CmdType.baseOffset T) ∧
      g.holds s.world = some T := by
  obtain ⟨b, bs, ⟨T, hobj, -, -, -, rfl⟩, hbs, -⟩ := h.block_of_live hi hlive
  have hb : b ∈ s.world.blocks := by
    rw [← Multiset.mem_coe, hbs]
    exact Multiset.mem_cons_self b bs
  exact ⟨b, hb, T, hobj, rfl, h.typeAt_iff.2 ⟨b, hb, hobj, rfl⟩⟩

/-- A handle that is live in two states holds the same in both, if the blocks of one are among those of
the other. -/
theorem Ledger.holds_eq (h : Ledger f s) (h' : Ledger f s') {i j : Nat} {g : UniqueCmd τ}
    (hi : s.slots[i]? = some g) (hj : s'.slots[j]? = some g)
    (hsub : s.world.blocks ⊆ s'.world.blocks ∨ s'.world.blocks ⊆ s.world.blocks) :
    g.holds s'.world = g.holds s.world := by
  cases hlive : g.ptr.isSome with
  | false => rw [holds_of_null hlive, holds_of_null hlive]
  | true =>
    obtain ⟨b, hb, T, hobj, hptr, hT⟩ := h.holds_of_live hi hlive
    obtain ⟨b', hb', T', hobj', hptr', hT'⟩ := h'.holds_of_live hj hlive
    rcases hsub with hsub | hsub
    · rw [hT, UniqueCmd.holds, hptr]
      exact h'.typeAt_iff.2 ⟨b, hsub hb, hobj, rfl⟩
    · rw [hT', UniqueCmd.holds, hptr', eq_comm]
      exact h.typeAt_iff.2 ⟨b', hsub hb', hobj', rfl⟩

/-- The blocks there were keep the variables there were. -/
theorem Ledger.map_holds (h : Ledger f s) {w : World τ} {gs : List (UniqueCmd τ)}
    (h' : Ledger f ⟨w, s.slots ++ gs⟩) (hsub : s.world.blocks ⊆ w.blocks) :
    s.slots.map (fun g => g.holds w) = s.vars := by
  refine List.map_congr_left fun g hg => ?_
  obtain ⟨i, hi⟩ := List.mem_iff_getElem?.1 hg
  have hlt : i < s.slots.length := (List.getElem?_eq_some_iff.1 hi).1
  have hi' : (s.slots ++ gs)[i]? = some g := by rw [List.getElem?_append_left hlt, hi]
  exact h.holds_eq h' hi hi' (.inl hsub)

theorem Ledger.vars_make_throws (h : Ledger f s) {T : τ} {env : Env} {e : Exn}
    (ha : CmdFactory.Allowed s (.make T env)) (ht : env.thrown = some e)
    (hs : f.step s (.make T env) = some s') : s'.vars = s.vars := by
  obtain ⟨w', -, hexec, hblocks, -, -, -, hledger⟩ := h.make_throws ha ht
  rw [CmdFactory.step, hexec] at hs
  cases hs
  have h' : Ledger f ⟨w', s.slots ++ []⟩ := by rwa [List.append_nil]
  exact h.map_holds h' (by rw [hblocks]; exact List.Subset.refl _)

theorem Ledger.vars_make_returns (h : Ledger f s) {T : τ} {env : Env}
    (ha : CmdFactory.Allowed s (.make T env)) (ht : env.thrown = none)
    (hs : f.step s (.make T env) = some s') : s'.vars = s.vars ++ [some T] := by
  obtain ⟨p, hp⟩ := env.exists_alloc ht
  obtain ⟨w', hexec, hblocks, -, h'⟩ := h.make_returns ha ht hp
  rw [CmdFactory.step, hexec] at hs
  cases hs
  have hmem := List.mem_append_right s.world.blocks (List.mem_singleton_self
    { f.rawBlock T s.world.next p with obj := some T })
  have hnew : (f.handle T p).holds w' = some T :=
    h'.typeAt_iff.2 ⟨_, hblocks ▸ hmem, rfl, rfl⟩
  have hsub : s.world.blocks ⊆ w'.blocks := hblocks ▸ List.subset_append_left ..
  rw [State.vars, List.map_append, h.map_holds h' hsub, List.map_singleton, hnew]

theorem Ledger.vars_release (h : Ledger f s) (h' : Ledger f s') {i : Nat} {g : UniqueCmd τ}
    (hi : s.slots[i]? = some g) (hs : f.step s (.release i) = some s') :
    s'.vars = s.vars.set i none := by
  obtain ⟨hslots, hsub⟩ : s'.slots = s.slots.set i g.emptied ∧ s'.world.blocks ⊆ s.world.blocks := by
    cases hlive : g.ptr.isSome with
    | true =>
      obtain ⟨b, T, w', -, -, -, hexec, hblocks, -, -⟩ := h.release hi hlive
      simp only [CmdFactory.step, hi, hexec] at hs
      cases hs
      exact ⟨rfl, hblocks ▸ List.filter_subset_self _⟩
    | false =>
      simp only [CmdFactory.step, hi, UniqueCmd.release_of_null hlive] at hs
      cases hs
      exact ⟨rfl, List.Subset.refl _⟩
  refine List.ext_getElem? fun j => ?_
  rw [State.vars, State.vars, List.getElem?_map]
  by_cases hij : i = j
  · subst hij
    simp [hslots, hi, List.getElem?_set_self', holds_emptied]
  · have hj := List.getElem?_set_ne (a := g.emptied) (l := s.slots) hij
    rw [hslots, hj, List.getElem?_set_ne hij, List.getElem?_map]
    cases hg : s.slots[j]? with
    | none => rfl
    | some g' =>
      have hg' : s'.slots[j]? = some g' := by rw [hslots, hj, hg]
      rw [Option.map_some, Option.map_some, h.holds_eq h' hg hg' (.inr hsub)]

/-- The variables after a step. -/
theorem Ledger.vars_step (h : Ledger f s) {a : Act τ} (ha : CmdFactory.Allowed s a)
    (hs : f.step s a = some s') : s'.vars = s.vars.next a := by
  cases a with
  | make T env =>
    cases ht : env.thrown with
    | some e => rw [h.vars_make_throws ha ht hs, Vars.next, ht, Option.isSome_some, if_pos rfl]
    | none => rw [h.vars_make_returns ha ht hs, Vars.next, ht, if_neg (by decide)]
  | move i =>
    obtain ⟨g, hi⟩ : ∃ g, s.slots[i]? = some g := ⟨_, List.getElem?_eq_getElem ha⟩
    rw [CmdFactory.step, hi] at hs
    cases hs
    simp [Vars.next, State.vars, List.map_set, hi, holds_emptied]
  | release i =>
    obtain ⟨g, hi⟩ : ∃ g, s.slots[i]? = some g := ⟨_, List.getElem?_eq_getElem ha⟩
    obtain ⟨s₁, hs₁, h'⟩ := (machine_safe f).step s (.release i) h ha
    obtain rfl : s' = s₁ := Option.some.inj (hs.symm.trans hs₁)
    exact h.vars_release h' hi hs

/-- **Calls reach the type that was made.** After any run of makes, moves and releases every variable
holds, through all addresses, tables and reused storage, what it holds when the run is read without
storage: a virtual call through it reaches the overrider of the type it was made as and, through a null
handle and no other, is undefined. -/
theorem calls_reach_made_type (f : CmdFactory) (acts : List (Act τ)) (s : State τ)
    (hrun : f.machine.run f.machine.init acts = some s) {α : Type} (m : τ → α) :
    s.slots.map (fun h => h.call m s.world) = (acts.foldl Vars.next []).map (Option.map m) ∧
    ∀ (i : Nat) (h : UniqueCmd τ), s.slots[i]? = some h →
      (h.call m s.world = none ↔ h.ptr = none) := by
  have hvars : s.vars = acts.foldl Vars.next [] :=
    (machine_safe f).view_of_run (fun _ _ _ h ha hs => h.vars_step ha hs) (ledger_empty f) hrun
  have h : Ledger f s := (machine_safe f).reachable (Machine.reachable_of_run .init hrun)
  refine ⟨?_, fun i g hi => ?_⟩
  · rw [← hvars, State.vars, List.map_map]
    rfl
  · cases hlive : g.ptr.isSome with
    | true =>
      obtain ⟨b, -, T, -, hptr, hT⟩ := h.holds_of_live hi hlive
      simp [UniqueCmd.call, hT, hptr]
    | false =>
      rw [UniqueCmd.call, holds_of_null hlive]
      simpa using hlive

/-- The second command is made where the first one was, and moved: only the sentinel is an end. -/
theorem calls_reach_made_type_reused :
    let f : CmdFactory := ⟨⟨0⟩⟩
    let acts : List (Act Command) := [.make .addVertex ⟨.ok 64, .returns []⟩, .release 0,
      .make .sentinel ⟨.ok 64, .returns [24]⟩, .make .addVertex ⟨.ok 128, .returns []⟩, .move 1]
    ∃ s, f.machine.run f.machine.init acts = some s ∧
      s.slots.map (fun h => h.call Command.isEnd s.world) = [none, none, some false, some true] := by
  intro f acts
  have hrun : f.machine.run f.machine.init acts = some _ := rfl
  obtain ⟨hcalls, -⟩ := calls_reach_made_type f acts _ hrun Command.isEnd
  exact ⟨_, hrun, hcalls⟩

end BoomEd
