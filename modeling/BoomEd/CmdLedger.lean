import BoomEd.CmdFactory
import BoomEd.Lib.Machine
/-!
# The storage ledger of one `cmd_factory`

`make` and the release of handles, in any order and mixed over all command types. A slot is a
variable of type `unique_cmd`: `make` fills a new one, a move leaves its source empty, a release
empties it. The surroundings promise that `allocate` returns a fresh block or throws.

`Ledger` is the invariant. The outstanding blocks and the live handles match one to one, type and
resource included, although the handle's type is gone: its deleter is `destroy` at the type of the
object in its block. `storage_ledger` reads the rest off it.

| here | there |
| --- | --- |
| `Act.make`, `Act.release` | cmd.h:43-55; `deleter::operator ()` (cmd.h:34-36) |
| `Act.move`                | the move constructor of `unique_cmd` |
| `emptied`                 | a `unique_ptr` after a release or a move from it |
-/

namespace BoomEd

open Cxx

variable {τ : Type} [CmdType τ] [DecidableEq τ]

structure State (τ : Type) where
  world : World τ
  slots : List (UniqueCmd τ)

/-- Live handles: those that are not null. -/
def liveOf (slots : List (UniqueCmd τ)) : List (UniqueCmd τ) := slots.filter fun h => h.ptr.isSome

def State.live (s : State τ) : List (UniqueCmd τ) := liveOf s.slots

inductive Act (τ : Type) where
  | make (T : τ) (env : Env)
  | move (i : Nat)
  | release (i : Nat)

/-- The exception that a `make` ends with, if it does. -/
def Env.thrown (env : Env) : Option Exn :=
  match env.alloc, env.ctor with
  | .error e, _ => some e
  | .ok _, .throws e => some e
  | .ok _, .returns _ => none

theorem Env.exists_alloc {env : Env} (h : env.thrown = none) : ∃ p, env.alloc = .ok p := by
  obtain ⟨alloc, ctor⟩ := env
  cases alloc with
  | error e => cases h
  | ok p => exact ⟨p, rfl⟩

namespace CmdFactory

/-- A `make` that throws leaves no new slot. An exception out of a deleter, which is `noexcept`, ends
the program. -/
def step (f : CmdFactory) (s : State τ) : Act τ → Option (State τ)
  | .make T env =>
    match Prog.exec (f.make T env) s.world with
    | none => none
    | some (.ok h, w) => some ⟨w, s.slots ++ [h]⟩
    | some (.error _, w) => some ⟨w, s.slots⟩
  | .move i =>
    match s.slots[i]? with
    | none => none
    | some h => some { s with slots := s.slots.set i h.emptied ++ [h] }
  | .release i =>
    match s.slots[i]? with
    | none => none
    | some h =>
      match Prog.exec h.release s.world with
      | some (.ok _, w) => some ⟨w, s.slots.set i h.emptied⟩
      | _ => none

/-- `allocate` returns a fresh block, and only slots that exist are moved from or released. -/
def Allowed (s : State τ) : Act τ → Prop
  | .make T env =>
    match env.alloc with
    | .error _ => True
    | .ok p => s.world.Fresh p (Layout.size T)
  | .move i => i < s.slots.length
  | .release i => i < s.slots.length

instance (s : State τ) : ∀ a, Decidable (Allowed s a)
  | .make _ ⟨.error _, _⟩ => .isTrue trivial
  | .make T ⟨.ok p, _⟩ => inferInstanceAs (Decidable (s.world.Fresh p (Layout.size T)))
  | .move i => inferInstanceAs (Decidable (i < s.slots.length))
  | .release i => inferInstanceAs (Decidable (i < s.slots.length))

def machine (f : CmdFactory) : Machine (State τ) (Act τ) := ⟨⟨World.empty, []⟩, Allowed, f.step⟩

instance (f : CmdFactory) (s : State τ) (a : Act τ) : Decidable (f.machine.allowed s a) :=
  inferInstanceAs (Decidable (Allowed s a))

end CmdFactory

/-! ## The invariant -/

/-- Handle `h` is the one to delete the command in block `b`: it points at the `cmd::base` of the
object in `b`, and its deleter carries the resource of `b` and `destroy` at the type of the object. -/
def Owns (f : CmdFactory) (h : UniqueCmd τ) (b : Block τ) : Prop :=
  ∃ T, b.obj = some T ∧ b.mr = f.pool ∧ b.bytes = Layout.size T ∧ b.align = Layout.align T ∧
    h = f.handle T b.addr

/-- The handles and the blocks match one to one. -/
def Matched (f : CmdFactory) (hs : List (UniqueCmd τ)) (bs : List (Block τ)) : Prop :=
  Multiset.Rel (Owns f) (hs : Multiset (UniqueCmd τ)) (bs : Multiset (Block τ))

/-- The log of a command of type `T` in block `id` at `p` that has not been released, -/
def opened (f : CmdFactory) (id p : Nat) (T : τ) : List (Event τ) :=
  [.allocate id f.pool p (Layout.size T) (Layout.align T), .construct id T p]

/-- of one that has, -/
def closed (f : CmdFactory) (id p : Nat) (T : τ) : List (Event τ) :=
  opened f id p T ++ [.destroy id T p, .deallocate id f.pool p (Layout.size T) (Layout.align T)]

/-- and of one whose constructor threw. -/
def aborted (f : CmdFactory) (id p : Nat) (T : τ) : List (Event τ) :=
  [.allocate id f.pool p (Layout.size T) (Layout.align T),
    .deallocate id f.pool p (Layout.size T) (Layout.align T)]

/-- `settled` speaks of the allocations that are no longer out. -/
structure Ledger (f : CmdFactory) (s : State τ) : Prop where
  sound : s.world.WellFormed
  owned : Matched f s.live s.world.blocks
  inner : ∀ i ∈ s.world.inner, ∃ b ∈ s.world.blocks, b.id = i.owner
  opened : ∀ b ∈ s.world.blocks, ∀ T, b.obj = some T →
    s.world.history b.id = opened f b.id b.addr T
  settled : ∀ id < s.world.next, (∀ b ∈ s.world.blocks, b.id ≠ id) →
    ∃ p T, s.world.history id = closed f id p T ∨ s.world.history id = aborted f id p T

/-! ## Slots -/

section Slots

omit [CmdType τ] [DecidableEq τ]

theorem liveOf_append (l₁ l₂ : List (UniqueCmd τ)) : liveOf (l₁ ++ l₂) = liveOf l₁ ++ liveOf l₂ :=
  List.filter_append ..

theorem liveOf_emptied (h : UniqueCmd τ) : liveOf [h.emptied] = [] := rfl

/-- Emptying a slot takes the handle it held, if it held one, and no other. -/
theorem perm_liveOf_set {slots : List (UniqueCmd τ)} {i : Nat} {h : UniqueCmd τ}
    (hi : slots[i]? = some h) :
    (liveOf slots).Perm (liveOf [h] ++ liveOf (slots.set i h.emptied)) := by
  induction slots generalizing i with
  | nil => cases hi
  | cons x xs ih =>
    cases i with
    | zero =>
      obtain rfl : x = h := by simpa using hi
      show (liveOf ([x] ++ xs)).Perm (liveOf [x] ++ liveOf ([x.emptied] ++ xs))
      rw [liveOf_append, liveOf_append, liveOf_emptied, List.nil_append]
    | succ i =>
      have hperm := ih (by simpa using hi)
      show (liveOf ([x] ++ xs)).Perm (liveOf [h] ++ liveOf ([x] ++ xs.set i h.emptied))
      rw [liveOf_append, liveOf_append]
      exact (hperm.append_left _).trans (List.perm_append_comm_assoc _ _ _)

end Slots

/-! ## Each step keeps the ledger -/

section Steps

variable {f : CmdFactory} {s : State τ} {T : τ} {env : Env} {e : Exn} {p : Nat}

theorem ledger_empty (f : CmdFactory) : Ledger f (⟨World.empty, []⟩ : State τ) where
  sound := World.wellFormed_empty
  owned := .zero
  inner _ hi := by cases hi
  opened _ hb := by cases hb
  settled _ hid := absurd hid (Nat.not_lt_zero _)

/-- Only which handles are live matters, not the slots they are in. -/
theorem Ledger.of_perm (h : Ledger f s) {slots : List (UniqueCmd τ)}
    (hperm : (liveOf slots).Perm s.live) : Ledger f ⟨s.world, slots⟩ where
  sound := h.sound
  owned := by
    show Matched f (liveOf slots) s.world.blocks
    rw [Matched, Multiset.coe_eq_coe.mpr hperm]
    exact h.owned
  inner := h.inner
  opened := h.opened
  settled := h.settled

/-- The part of the ledger that is about allocations no longer out, after a step that logged only
under `id` and took no other number's block away. -/
theorem Ledger.settled_step (h : Ledger f s) {w' : World τ} {id : Nat}
    (hold : ∀ k, k ≠ id → w'.history k = s.world.history k)
    (hnext : ∀ k, k ≠ id → k < w'.next → k < s.world.next)
    (hblocks : ∀ b ∈ s.world.blocks, b.id ≠ id → b ∈ w'.blocks)
    (hid : (∀ b ∈ w'.blocks, b.id ≠ id) →
      ∃ p T, w'.history id = closed f id p T ∨ w'.history id = aborted f id p T) :
    ∀ k < w'.next, (∀ b ∈ w'.blocks, b.id ≠ k) →
      ∃ p T, w'.history k = closed f k p T ∨ w'.history k = aborted f k p T := by
  intro k hlt hout
  by_cases hk : k = id
  · subst hk
    exact hid hout
  · rw [hold k hk]
    refine h.settled k (hnext k hk hlt) fun b hb hbk => ?_
    exact hout b (hblocks b hb fun hbid => hk (hbk.symm.trans hbid)) hbk

/-- After a constructor that throws one more number has been used, and that is all. -/
theorem Ledger.after_throw (h : Ledger f s) (hfresh : s.world.Fresh p (Layout.size T)) :
    let w' := (f.allocated T s.world p).deallocated s.world.next f.pool p (Layout.size T)
      (Layout.align T)
    w'.blocks = s.world.blocks ∧ Ledger f ⟨w', s.slots⟩ := by
  intro w'
  have hne : ∀ b ∈ s.world.blocks, b.addr ≠ p := fun b hb => hfresh.addr_ne h.sound (size_pos T) hb
  have hblocks : w'.blocks = s.world.blocks := World.filter_allocated hne
  obtain ⟨hnew, hold⟩ := World.history_pair s.world w' s.world.next rfl rfl rfl
  refine ⟨hblocks, ?_, ?_, ?_, ?_, ?_⟩
  · exact (h.sound.allocated hfresh (size_pos T)).deallocated (Nat.lt_succ_self _)
  · show Matched f s.live w'.blocks
    rw [hblocks]
    exact h.owned
  · show ∀ i ∈ s.world.inner, ∃ b ∈ w'.blocks, b.id = i.owner
    rw [hblocks]
    exact h.inner
  · intro b hb U hU
    have hb' : b ∈ s.world.blocks := hblocks ▸ hb
    have hid : b.id ≠ s.world.next := Nat.ne_of_lt (h.sound.issued b hb')
    exact (hold b.id hid).trans (h.opened b hb' U hU)
  · refine h.settled_step hold (fun k hk hlt => ?_) (fun b hb _ => hblocks.symm ▸ hb) fun _ => ?_
    · exact Nat.lt_of_le_of_ne (Nat.le_of_lt_succ hlt) hk
    · refine ⟨p, T, Or.inr ?_⟩
      rw [hnew, h.sound.history_eq_nil (Nat.le_refl _)]
      rfl

/-- After a `make` that returns: one more block, and one more handle that owns it. -/
theorem Ledger.after_return (h : Ledger f s) (hfresh : s.world.Fresh p (Layout.size T))
    (taken : List Nat) :
    Ledger f ⟨(f.allocated T s.world p).constructed s.world.next T p f.pool taken,
      s.slots ++ [f.handle T p]⟩ := by
  have hne : ∀ b ∈ s.world.blocks, b.addr ≠ p := fun b hb => hfresh.addr_ne h.sound (size_pos T) hb
  generalize hw' : (f.allocated T s.world p).constructed s.world.next T p f.pool taken = w'
  let new : Block τ := { f.rawBlock T s.world.next p with obj := some T }
  have hblocks : w'.blocks = s.world.blocks ++ [new] := by
    rw [← hw']
    exact World.update_allocated hne (some T)
  have hmem : new ∈ w'.blocks := hblocks ▸ List.mem_append_right _ (List.mem_singleton.mpr rfl)
  obtain ⟨hnew, hold⟩ := World.history_pair s.world w' s.world.next
    (by rw [← hw']; rfl) rfl rfl
  refine ⟨?_, ?_, ?_, ?_, ?_⟩
  · rw [← hw']
    exact (h.sound.allocated hfresh (size_pos T)).constructed (Nat.lt_succ_self _)
  · show Matched f (liveOf (s.slots ++ [f.handle T p])) w'.blocks
    rw [hblocks, liveOf_append, Matched, ← Multiset.coe_add, ← Multiset.coe_add]
    exact h.owned.add (.cons ⟨T, rfl, rfl, rfl, rfl, rfl⟩ .zero)
  · intro i hi
    show ∃ b ∈ w'.blocks, b.id = i.owner
    rw [← hw'] at hi
    rcases List.mem_append.mp hi with hi | hi
    · obtain ⟨b, hb, hid⟩ := h.inner i hi
      exact ⟨b, hblocks ▸ List.mem_append_left _ hb, hid⟩
    · obtain ⟨n, -, rfl⟩ := List.mem_map.mp hi
      exact ⟨new, hmem, rfl⟩
  · intro b hb U hU
    rcases List.mem_append.mp (hblocks ▸ hb : b ∈ s.world.blocks ++ [new]) with hb | hb
    · exact (hold b.id (Nat.ne_of_lt (h.sound.issued b hb))).trans (h.opened b hb U hU)
    · obtain rfl := List.mem_singleton.mp hb
      obtain rfl : T = U := Option.some.inj hU
      show w'.history s.world.next = _
      rw [hnew, h.sound.history_eq_nil (Nat.le_refl _)]
      rfl
  · refine h.settled_step hold (fun k hk hlt => ?_) (fun b hb _ => ?_) fun hout => ?_
    · rw [← hw'] at hlt
      exact Nat.lt_of_le_of_ne (Nat.le_of_lt_succ hlt) hk
    · exact hblocks ▸ List.mem_append_left _ hb
    · exact absurd rfl (hout new hmem)

/-- A live handle has its block, and the other live handles have the other blocks. -/
theorem Ledger.block_of_live (h : Ledger f s) {i : Nat} {g : UniqueCmd τ} (hi : s.slots[i]? = some g)
    (hlive : g.ptr.isSome) :
    ∃ (b : Block τ) (bs : Multiset (Block τ)), Owns f g b ∧
      (s.world.blocks : Multiset (Block τ)) = b ::ₘ bs ∧
      Multiset.Rel (Owns f) (liveOf (s.slots.set i g.emptied) : Multiset (UniqueCmd τ)) bs := by
  have hself : liveOf [g] = [g] := List.filter_eq_self.mpr fun x hx => by
    rw [List.mem_singleton.mp hx, hlive]
  have hperm : s.live.Perm (liveOf [g] ++ liveOf (s.slots.set i g.emptied)) := perm_liveOf_set hi
  have howned := h.owned
  rw [Matched, Multiset.coe_eq_coe.mpr hperm, hself, List.singleton_append, ← Multiset.cons_coe,
    Multiset.rel_cons_left] at howned
  obtain ⟨b, bs, hown, hrest, hbs⟩ := howned
  exact ⟨b, bs, hown, hbs, hrest⟩

/-- After the release of the handle of block `b` that block is gone, destroyed and given back as what
it was made as; every other block and handle is where it was. -/
theorem Ledger.after_release (h : Ledger f s) {i : Nat} {b : Block τ} {bs : Multiset (Block τ)}
    (hb : b ∈ s.world.blocks) (hobj : b.obj = some T)
    (hbs : (s.world.blocks : Multiset (Block τ)) = b ::ₘ bs)
    (hrest : Multiset.Rel (Owns f) (liveOf (s.slots.set i (f.handle T b.addr).emptied)) bs) :
    let w' := (s.world.destroyed b.id T b.addr).deallocated b.id f.pool b.addr (Layout.size T)
      (Layout.align T)
    w'.blocks = (s.world.blocks.filter fun c => c.addr ≠ b.addr) ∧
      w'.history b.id = closed f b.id b.addr T ∧
      Ledger f ⟨w', s.slots.set i (f.handle T b.addr).emptied⟩ := by
  intro w'
  have hissued := h.sound.issued b hb
  have hblocks : w'.blocks = s.world.blocks.filter fun c => c.addr ≠ b.addr := World.filter_update none
  -- the blocks that stay are those of the other numbers
  have hmem : ∀ c, c ∈ w'.blocks ↔ c ∈ s.world.blocks ∧ c.id ≠ b.id := by
    intro c
    rw [hblocks, List.mem_filter, decide_eq_true_eq]
    refine and_congr_right fun hc => not_congr ⟨fun e => ?_, fun e => ?_⟩
    · rw [h.sound.eq_of_addr_eq hc hb e]
    · rw [h.sound.eq_of_id_eq hc hb e]
  obtain ⟨hself, hold⟩ := World.history_pair s.world w' b.id rfl rfl rfl
  have hclosed : w'.history b.id = closed f b.id b.addr T := by
    rw [hself, h.opened b hb T hobj]
    rfl
  refine ⟨hblocks, hclosed, ?_, ?_, ?_, ?_, ?_⟩
  · exact (h.sound.destroyed hissued).deallocated hissued
  · show Matched f (liveOf (s.slots.set i (f.handle T b.addr).emptied)) w'.blocks
    rw [Matched, hblocks, h.sound.filter_addr hbs]
    exact hrest
  · intro j hj
    have hj' : j ∈ s.world.inner.filter fun j => j.owner ≠ b.id := hj
    obtain ⟨hj', howner⟩ := List.mem_filter.mp hj'
    obtain ⟨c, hc, hid⟩ := h.inner j hj'
    refine ⟨c, (hmem c).mpr ⟨hc, ?_⟩, hid⟩
    rw [hid]
    exact of_decide_eq_true howner
  · intro c hc U hU
    obtain ⟨hc, hid⟩ := (hmem c).mp hc
    exact (hold c.id hid).trans (h.opened c hc U hU)
  · exact h.settled_step hold (fun k _ hlt => hlt) (fun c hc hid => (hmem c).mpr ⟨hc, hid⟩) fun _ =>
      ⟨b.addr, T, Or.inl hclosed⟩

/-- The release of a live handle runs, on the block that the handle owns. -/
theorem Ledger.release (h : Ledger f s) {i : Nat} {g : UniqueCmd τ} (hi : s.slots[i]? = some g)
    (hlive : g.ptr.isSome) :
    ∃ b T w', b ∈ s.world.blocks ∧ b.obj = some T ∧ g = f.handle T b.addr ∧
      Prog.exec g.release s.world = some (.ok (), w') ∧
      w'.blocks = (s.world.blocks.filter fun c => c.addr ≠ b.addr) ∧
      w'.history b.id = closed f b.id b.addr T ∧ Ledger f ⟨w', s.slots.set i g.emptied⟩ := by
  obtain ⟨b, bs, ⟨T, hobj, hmr, hbytes, halign, rfl⟩, hbs, hrest⟩ := h.block_of_live hi hlive
  have hb : b ∈ s.world.blocks := by
    rw [← Multiset.mem_coe, hbs]
    exact Multiset.mem_cons_self b bs
  refine ⟨b, T, _, hb, hobj, rfl, ?_, h.after_release hb hobj hbs hrest⟩
  show Prog.exec (destroy T (b.addr + CmdType.baseOffset T) f.pool) s.world = _
  rw [← hmr, exec_destroy h.sound hb hobj hbytes halign]

/-- Every outstanding block holds a command: no step ends between the two halves of `make`. -/
theorem Ledger.obj_of_mem (h : Ledger f s) {b : Block τ} (hb : b ∈ s.world.blocks) :
    ∃ T, b.obj = some T := by
  obtain ⟨bs, hbs⟩ := Multiset.exists_cons_of_mem (Multiset.mem_coe.mpr hb)
  have howned := h.owned
  rw [Matched, hbs, Multiset.rel_cons_right] at howned
  obtain ⟨g, hs', ⟨T, hobj, -⟩, -⟩ := howned
  exact ⟨T, hobj⟩

theorem Ledger.nothing_out (h : Ledger f s) (hempty : s.live = []) :
    s.world.blocks = [] ∧ s.world.inner = [] := by
  have howned := h.owned
  rw [Matched, hempty, Multiset.coe_nil, Multiset.rel_zero_left, Multiset.coe_eq_zero] at howned
  refine ⟨howned, List.eq_nil_iff_forall_not_mem.mpr fun i hi => ?_⟩
  obtain ⟨b, hb, -⟩ := h.inner i hi
  rw [howned] at hb
  cases hb

/-- A `make` that throws: no new block, and no log but that of the block it took and gave back. -/
theorem Ledger.make_throws (h : Ledger f s) (ha : CmdFactory.Allowed s (.make T env))
    (he : env.thrown = some e) :
    ∃ w' failed, Prog.exec (f.make T env) s.world = some (.error e, w') ∧
      w'.blocks = s.world.blocks ∧ w'.inner = s.world.inner ∧ w'.log = s.world.log ++ failed ∧
      (failed = [] ∨ ∃ p, failed = aborted f s.world.next p T) ∧ Ledger f ⟨w', s.slots⟩ := by
  obtain ⟨alloc, ctor⟩ := env
  cases alloc with
  | error e' =>
    obtain rfl : e' = e := Option.some.inj he
    exact ⟨s.world, [], make_alloc_throws rfl, rfl, rfl, by simp, .inl rfl, h⟩
  | ok p =>
    cases ctor with
    | throws e' =>
      obtain rfl : e' = e := Option.some.inj he
      obtain ⟨hblocks, hledger⟩ := h.after_throw ha
      exact ⟨_, _, make_ctor_throws h.sound rfl ha rfl, hblocks, rfl, List.append_assoc ..,
        .inr ⟨p, rfl⟩, hledger⟩
    | returns taken => cases he

/-- A `make` that returns: the handle of a new command in the block that `allocate` gave. -/
theorem Ledger.make_returns (h : Ledger f s) (ha : CmdFactory.Allowed s (.make T env))
    (hr : env.thrown = none) (hp : env.alloc = .ok p) :
    ∃ w', Prog.exec (f.make T env) s.world = some (.ok (f.handle T p), w') ∧
      w'.blocks = s.world.blocks ++ [{ f.rawBlock T s.world.next p with obj := some T }] ∧
      w'.log = s.world.log ++ BoomEd.opened f s.world.next p T ∧
      Ledger f ⟨w', s.slots ++ [f.handle T p]⟩ := by
  obtain ⟨alloc, ctor⟩ := env
  obtain rfl : alloc = .ok p := hp
  cases ctor with
  | throws e => cases hr
  | returns taken =>
    have hne : ∀ b ∈ s.world.blocks, b.addr ≠ p := fun b hb =>
      World.Fresh.addr_ne ha h.sound (size_pos T) hb
    exact ⟨_, BoomEd.make_returns h.sound rfl ha rfl, World.update_allocated hne (some T),
      List.append_assoc .., h.after_return ha taken⟩

theorem Ledger.move (h : Ledger f s) {i : Nat} {g : UniqueCmd τ} (hi : s.slots[i]? = some g) :
    Ledger f ⟨s.world, s.slots.set i g.emptied ++ [g]⟩ := by
  refine h.of_perm ?_
  rw [liveOf_append]
  exact List.perm_append_comm.trans (perm_liveOf_set hi).symm

theorem Ledger.release_null (h : Ledger f s) {i : Nat} {g : UniqueCmd τ} (hi : s.slots[i]? = some g)
    (hnull : g.ptr.isSome = false) : Ledger f ⟨s.world, s.slots.set i g.emptied⟩ := by
  refine h.of_perm ?_
  have hself : liveOf [g] = [] := List.filter_eq_nil_iff.mpr fun x hx => by
    rw [List.mem_singleton.mp hx, hnull]
    exact Bool.false_ne_true
  have hperm : s.live.Perm (liveOf [g] ++ liveOf (s.slots.set i g.emptied)) := perm_liveOf_set hi
  rw [hself, List.nil_append] at hperm
  exact hperm.symm

/-- No step the surroundings may ask for is undefined, and each keeps the ledger. -/
theorem machine_safe (f : CmdFactory) :
    Machine.Safe (f.machine : Machine (State τ) (Act τ)) (Ledger f) where
  init := ledger_empty f
  step s a h ha := by
    cases a with
    | make T env =>
      cases ht : env.thrown with
      | some e =>
        obtain ⟨w', -, hexec, -, -, -, -, hledger⟩ := h.make_throws ha ht
        refine ⟨_, ?_, hledger⟩
        simp only [CmdFactory.machine, CmdFactory.step, hexec]
      | none =>
        obtain ⟨p, hp⟩ := env.exists_alloc ht
        obtain ⟨w', hexec, -, -, hledger⟩ := h.make_returns ha ht hp
        refine ⟨_, ?_, hledger⟩
        simp only [CmdFactory.machine, CmdFactory.step, hexec]
    | move i =>
      obtain ⟨g, hi⟩ : ∃ g, s.slots[i]? = some g := ⟨_, List.getElem?_eq_getElem ha⟩
      refine ⟨_, ?_, h.move hi⟩
      simp only [CmdFactory.machine, CmdFactory.step, hi]
    | release i =>
      obtain ⟨g, hi⟩ : ∃ g, s.slots[i]? = some g := ⟨_, List.getElem?_eq_getElem ha⟩
      cases hnull : g.ptr.isSome with
      | true =>
        obtain ⟨b, T, w', -, -, -, hexec, -, -, hledger⟩ := h.release hi hnull
        refine ⟨_, ?_, hledger⟩
        simp only [CmdFactory.machine, CmdFactory.step, hi, hexec]
      | false =>
        refine ⟨_, ?_, h.release_null hi hnull⟩
        simp only [CmdFactory.machine, CmdFactory.step, hi, UniqueCmd.release_of_null hnull]

end Steps

/-- **The storage ledger.** In every state that makes, moves and releases lead to: live handles and
outstanding command blocks match one to one; each allocation was made and constructed and is still
out, or was also destroyed as the same type and given back to the same resource, or was given back by
a `make` whose constructor threw; a `make` that returns adds the block that `allocate` gave, with the
command in it, and the handle that owns it, to blocks and handles as they were; a `make` that throws
leaves both as they were; a release settles the block of its own handle only, and of a null handle
nothing, as a move does; without live handles nothing is out; and no step is undefined. -/
theorem storage_ledger (f : CmdFactory) (s : State τ) (hs : Machine.Reachable f.machine s) :
    (Matched f s.live s.world.blocks ∧ s.world.blocks.Pairwise World.Apart) ∧
    ((∀ id, s.world.next ≤ id → s.world.history id = []) ∧
      ∀ id < s.world.next, ∃ p T,
        (s.world.history id = opened f id p T ∧
          ∃ b ∈ s.world.blocks, b.id = id ∧ b.addr = p ∧ b.obj = some T) ∨
        ((∀ b ∈ s.world.blocks, b.id ≠ id) ∧
          (s.world.history id = closed f id p T ∨ s.world.history id = aborted f id p T))) ∧
    (∀ T env p, CmdFactory.Allowed s (.make T env) → env.thrown = none → env.alloc = .ok p →
      ∃ w', Prog.exec (f.make T env) s.world = some (.ok (f.handle T p), w') ∧
        f.step s (.make T env) = some ⟨w', s.slots ++ [f.handle T p]⟩ ∧
        w'.blocks = s.world.blocks ++ [{ f.rawBlock T s.world.next p with obj := some T }] ∧
        w'.log = s.world.log ++ opened f s.world.next p T) ∧
    (∀ T env e, CmdFactory.Allowed s (.make T env) → env.thrown = some e →
      ∃ w' failed, Prog.exec (f.make T env) s.world = some (.error e, w') ∧
        f.step s (.make T env) = some ⟨w', s.slots⟩ ∧
        w'.blocks = s.world.blocks ∧ w'.inner = s.world.inner ∧ w'.log = s.world.log ++ failed ∧
        (failed = [] ∨ ∃ p, failed = aborted f s.world.next p T)) ∧
    (∀ i g, s.slots[i]? = some g → g.ptr.isSome →
      ∃ b T w', b ∈ s.world.blocks ∧ b.obj = some T ∧ g = f.handle T b.addr ∧
        f.step s (.release i) = some ⟨w', s.slots.set i g.emptied⟩ ∧
        w'.blocks = (s.world.blocks.filter fun c => c.addr ≠ b.addr) ∧
        w'.history b.id = closed f b.id b.addr T) ∧
    (∀ i g, s.slots[i]? = some g →
      f.step s (.move i) = some ⟨s.world, s.slots.set i g.emptied ++ [g]⟩ ∧
      (g.ptr.isSome = false → f.step s (.release i) = some ⟨s.world, s.slots.set i g.emptied⟩)) ∧
    (s.live = [] → s.world.blocks = [] ∧ s.world.inner = []) ∧
    (∀ a, CmdFactory.Allowed s a → ∃ s', f.step s a = some s') := by
  have h : Ledger f s := (machine_safe f).reachable hs
  refine ⟨⟨h.owned, h.sound.apart⟩, ⟨fun id hid => h.sound.history_eq_nil hid, fun id hid => ?_⟩,
    fun T env p ha hr hp => ?_, fun T env e ha he => ?_, fun i g hi hlive => ?_,
    fun i g hi => ⟨?_, fun hnull => ?_⟩, h.nothing_out, fun a ha => ?_⟩
  · by_cases hout : ∃ b ∈ s.world.blocks, b.id = id
    · obtain ⟨b, hb, rfl⟩ := hout
      obtain ⟨T, hobj⟩ := h.obj_of_mem hb
      exact ⟨b.addr, T, Or.inl ⟨h.opened b hb T hobj, b, hb, rfl, rfl, hobj⟩⟩
    · have hout' : ∀ b ∈ s.world.blocks, b.id ≠ id := fun b hb hbid => hout ⟨b, hb, hbid⟩
      obtain ⟨p, T, hlog⟩ := h.settled id hid hout'
      exact ⟨p, T, Or.inr ⟨hout', hlog⟩⟩
  · obtain ⟨w', hexec, hblocks, hlog, -⟩ := h.make_returns ha hr hp
    refine ⟨w', hexec, ?_, hblocks, hlog⟩
    simp only [CmdFactory.step, hexec]
  · obtain ⟨w', failed, hexec, hblocks, hinner, hlog, hfailed, -⟩ := h.make_throws ha he
    refine ⟨w', failed, hexec, ?_, hblocks, hinner, hlog, hfailed⟩
    simp only [CmdFactory.step, hexec]
  · obtain ⟨b, T, w', hb, hobj, hg, hexec, hblocks, hlog, -⟩ := h.release hi hlive
    refine ⟨b, T, w', hb, hobj, hg, ?_, hblocks, hlog⟩
    simp only [CmdFactory.step, hi, hexec]
  · simp only [CmdFactory.step, hi]
  · simp only [CmdFactory.step, hi, UniqueCmd.release_of_null hnull]
  · obtain ⟨s', hstep, -⟩ := (machine_safe f).defined hs ha
    exact ⟨s', hstep⟩

/-- The commands there are (cmd_sentinel.h:10, cmd_add_vertex.h:8). -/
inductive Command where
  | sentinel
  | addVertex
deriving DecidableEq

/-- On x86-64 with libstdc++: a pointer to the virtual table, and in a sentinel its name. -/
instance : CmdType Command where
  size
    | .sentinel => 48
    | .addVertex => 8
  align _ := 8
  baseOffset _ := 0
  baseOffset_lt T := by cases T <;> decide

/-- A sentinel whose name takes a block of its own, a command whose constructor throws and whose place
the next one gets, and the release of the sentinel: the last command is what is left, and one more
comes with its own block. -/
theorem storage_ledger_run :
    let f : CmdFactory := ⟨⟨0⟩⟩
    ∃ s : State Command, Machine.Reachable f.machine s ∧ Matched f s.live s.world.blocks ∧
      s.world.blocks.map (fun b => (b.addr, b.obj)) = [(128, some .addVertex)] ∧
      s.world.inner = [] ∧
      ∃ w', Prog.exec (f.make Command.sentinel ⟨.ok 64, .returns []⟩) s.world =
          some (.ok (f.handle .sentinel 64), w') ∧
        w'.blocks.map (fun b => (b.addr, b.obj)) =
          [(128, some .addVertex), (64, some .sentinel)] := by
  intro f
  let acts : List (Act Command) := [
    .make .sentinel ⟨.ok 64, .returns [24]⟩,
    .make .addVertex ⟨.ok 128, .throws .badAlloc⟩,
    .make .addVertex ⟨.ok 128, .returns []⟩,
    .release 0]
  have hrun : f.machine.run f.machine.init acts = some _ := rfl
  have hs := Machine.reachable_of_run .init hrun
  obtain ⟨⟨hmatched, -⟩, -, hmake, -⟩ := storage_ledger f _ hs
  obtain ⟨w', hexec, -, hblocks, -⟩ := hmake .sentinel ⟨.ok 64, .returns []⟩ 64 (by decide) rfl rfl
  exact ⟨_, hs, hmatched, rfl, rfl, w', hexec, by rw [hblocks]; rfl⟩

end BoomEd
