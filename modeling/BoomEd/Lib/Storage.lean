import BoomEd.Lib.Scope
import Mathlib.Data.List.Pairwise
import Mathlib.Data.Multiset.Filter
import Mathlib.Tactic.ByContra
/-!
# Dynamic storage and object lifetimes in C++

Blocks of storage come from memory resources; an object of some type lives in a block from its
constructor to its destructor. Calls that are not ours to define, a resource's `allocate` and a
constructor's body, have their outcome given to them as an argument. What the standard leaves
undefined is the failure of a run: returning a block that is not out, or to another resource, or with
another size or alignment; destroying an object that is not there, or as another type.

Every allocation gets a number that is never used again, so that the log can be read block by block
although addresses, plain numbers here, come back.
-/

namespace Cxx

/-- The identity of a `std::pmr::memory_resource`. -/
structure Resource where
  key : Nat
deriving DecidableEq

inductive Exn where
  | badAlloc
  | other (code : Nat)
deriving DecidableEq, Repr

/-- `sizeof` and `alignof`. -/
class Layout (τ : Type) where
  size : τ → Nat
  align : τ → Nat

/-- An outstanding block; `obj` is the type of the object that lives in it. -/
structure Block (τ : Type) where
  id : Nat
  mr : Resource
  addr : Nat
  bytes : Nat
  align : Nat
  obj : Option τ
deriving DecidableEq

/-- A block that the object in block `owner` took for itself and still holds. -/
structure Inner where
  owner : Nat
  mr : Resource
  bytes : Nat
deriving DecidableEq

inductive Event (τ : Type) where
  | allocate (id : Nat) (mr : Resource) (p bytes align : Nat)
  | construct (id : Nat) (T : τ) (p : Nat)
  | destroy (id : Nat) (T : τ) (p : Nat)
  | deallocate (id : Nat) (mr : Resource) (p bytes align : Nat)
deriving DecidableEq

/-- The allocation an event belongs to. -/
def Event.id {τ : Type} : Event τ → Nat
  | allocate id .. | construct id .. | destroy id .. | deallocate id .. => id

structure World (τ : Type) where
  blocks : List (Block τ)
  inner : List Inner
  next : Nat
  log : List (Event τ)
deriving DecidableEq

/-- What a constructor's body does: throw, after giving back what it took, or return holding blocks of
these sizes, taken from the resource it was passed. -/
inductive CtorOutcome where
  | throws (e : Exn)
  | returns (taken : List Nat)
deriving DecidableEq

namespace World

variable {τ : Type}

def empty : World τ := ⟨[], [], 0, []⟩

/-- The block that starts at `p`. -/
def blockAt (w : World τ) (p : Nat) : Option (Block τ) := w.blocks.find? fun b => b.addr = p

def update (w : World τ) (p : Nat) (obj : Option τ) : List (Block τ) :=
  w.blocks.map fun b => if b.addr = p then { b with obj := obj } else b

/-- The log of one allocation. -/
def history (w : World τ) (id : Nat) : List (Event τ) := w.log.filter fun e => e.id = id

/-- Two blocks of different allocations that share no byte. -/
def Apart (b c : Block τ) : Prop :=
  b.id ≠ c.id ∧ (b.addr + b.bytes ≤ c.addr ∨ c.addr + c.bytes ≤ b.addr)

instance : Std.Symm (@Apart τ) := ⟨fun _ _ h => ⟨h.1.symm, h.2.symm⟩⟩

/-- The `bytes` bytes at `p` overlap no outstanding block. -/
def Fresh (w : World τ) (p bytes : Nat) : Prop :=
  ∀ b ∈ w.blocks, b.addr + b.bytes ≤ p ∨ p + bytes ≤ b.addr

instance (w : World τ) (p bytes : Nat) : Decidable (w.Fresh p bytes) :=
  inferInstanceAs (Decidable (∀ b ∈ w.blocks, b.addr + b.bytes ≤ p ∨ p + bytes ≤ b.addr))

/-! The four updates; `id` is the number of the allocation concerned. -/

def allocated (w : World τ) (mr : Resource) (p bytes align : Nat) : World τ :=
  { w with
    blocks := w.blocks ++ [⟨w.next, mr, p, bytes, align, none⟩]
    next := w.next + 1
    log := w.log ++ [.allocate w.next mr p bytes align] }

def deallocated (w : World τ) (id : Nat) (mr : Resource) (p bytes align : Nat) : World τ :=
  { w with
    blocks := w.blocks.filter fun b => b.addr ≠ p
    log := w.log ++ [.deallocate id mr p bytes align] }

def constructed (w : World τ) (id : Nat) (T : τ) (p : Nat) (mr : Resource) (taken : List Nat) :
    World τ :=
  { w with
    blocks := w.update p (some T)
    inner := w.inner ++ taken.map fun n => ⟨id, mr, n⟩
    log := w.log ++ [.construct id T p] }

def destroyed (w : World τ) (id : Nat) (T : τ) (p : Nat) : World τ :=
  { w with
    blocks := w.update p none
    inner := w.inner.filter fun i => i.owner ≠ id
    log := w.log ++ [.destroy id T p] }

end World

/-- Code on a world. -/
abbrev M (τ : Type) (α : Type) := Prog Exn (World τ) α

section Access

variable {τ α : Type} {w : World τ}

/-- Access through a pointer that must point at an outstanding block. -/
def atBlock (p : Nat) (f : Block τ → M τ α) : M τ α := do
  let w ← get
  match w.blockAt p with
  | none => Prog.undefined
  | some b => f b

theorem exec_atBlock {p : Nat} {b : Block τ} {f : Block τ → M τ α} (h : w.blockAt p = some b) :
    Prog.exec (atBlock p f) w = Prog.exec (f b) w := by
  rw [atBlock, Prog.exec_bind_ok Prog.exec_get, h]

end Access

/-! ## Resources and lifetimes -/

section Operations

variable {τ : Type}

/-- `mr->allocate(bytes, align)`, which throws or returns as `outcome` says. -/
def allocate (mr : Resource) (bytes align : Nat) (outcome : Except Exn Nat) : M τ Nat := do
  match outcome with
  | .error e => throw e
  | .ok p =>
    modify fun w => w.allocated mr p bytes align
    return p

/-- `mr->deallocate(p, bytes, align)`: `p` must be out, from `mr`, with this size and alignment. -/
def deallocate (mr : Resource) (p bytes align : Nat) : M τ Unit :=
  atBlock p fun b =>
    if b.mr = mr ∧ b.bytes = bytes ∧ b.align = align then
      modify fun w => w.deallocated b.id mr p bytes align
    else Prog.undefined

/-- `std::construct_at` at `p`, where the constructor is passed `mr` and does as `outcome` says. -/
def constructAt [Layout τ] (T : τ) (p : Nat) (mr : Resource) (outcome : CtorOutcome) : M τ Unit :=
  atBlock p fun b =>
    if b.obj = none ∧ Layout.size T ≤ b.bytes then
      match outcome with
      | .throws e => throw e
      | .returns taken => modify fun w => w.constructed b.id T p mr taken
    else Prog.undefined

/-- `std::destroy_at` at `p`: the destructor of `T` gives back what the object still holds. -/
def destroyAt [DecidableEq τ] (T : τ) (p : Nat) : M τ Unit :=
  atBlock p fun b =>
    if b.obj = some T then modify fun w => w.destroyed b.id T p else Prog.undefined

variable {w : World τ} {b : Block τ} {mr : Resource} {p bytes align : Nat} {T : τ} {e : Exn}

theorem exec_allocate_ok :
    Prog.exec (allocate mr bytes align (.ok p)) w = some (.ok p, w.allocated mr p bytes align) := rfl

theorem exec_allocate_error :
    Prog.exec (allocate mr bytes align (.error e)) w = some (.error e, w) := rfl

theorem exec_deallocate (hb : w.blockAt p = some b) (hmr : b.mr = mr) (hbytes : b.bytes = bytes)
    (halign : b.align = align) :
    Prog.exec (deallocate mr p bytes align) w = some (.ok (), w.deallocated b.id mr p bytes align) := by
  rw [deallocate, exec_atBlock hb, if_pos ⟨hmr, hbytes, halign⟩, Prog.exec_modify]

theorem exec_constructAt_throws [Layout τ] (hb : w.blockAt p = some b) (hraw : b.obj = none)
    (hsize : Layout.size T ≤ b.bytes) :
    Prog.exec (constructAt T p mr (.throws e)) w = some (.error e, w) := by
  rw [constructAt, exec_atBlock hb, if_pos ⟨hraw, hsize⟩, Prog.exec_throw]

theorem exec_constructAt_returns [Layout τ] {taken : List Nat} (hb : w.blockAt p = some b)
    (hraw : b.obj = none) (hsize : Layout.size T ≤ b.bytes) :
    Prog.exec (constructAt T p mr (.returns taken)) w
      = some (.ok (), w.constructed b.id T p mr taken) := by
  rw [constructAt, exec_atBlock hb, if_pos ⟨hraw, hsize⟩, Prog.exec_modify]

theorem exec_destroyAt [DecidableEq τ] (hb : w.blockAt p = some b) (hobj : b.obj = some T) :
    Prog.exec (destroyAt T p) w = some (.ok (), w.destroyed b.id T p) := by
  rw [destroyAt, exec_atBlock hb, if_pos hobj, Prog.exec_modify]

end Operations

/-! ## Well-formed worlds -/

namespace World

variable {τ : Type} {w w' : World τ} {b : Block τ} {mr : Resource} {p bytes align id : Nat}

/-- Outstanding blocks are not empty, share no byte and no number, and only numbers below `next` have
been given out. -/
structure WellFormed (w : World τ) : Prop where
  nonempty : ∀ b ∈ w.blocks, 0 < b.bytes
  apart : w.blocks.Pairwise Apart
  issued : ∀ b ∈ w.blocks, b.id < w.next
  logged : ∀ e ∈ w.log, e.id < w.next

theorem wellFormed_empty : (empty : World τ).WellFormed :=
  ⟨by simp [empty], by simp [empty], by simp [empty], by simp [empty]⟩

theorem Fresh.addr_ne (h : w.Fresh p bytes) (hw : w.WellFormed) (hbytes : 0 < bytes)
    (hb : b ∈ w.blocks) : b.addr ≠ p := by
  have hpos := hw.nonempty b hb
  rcases h b hb with h | h <;> omega

theorem WellFormed.eq_of_addr_eq (hw : w.WellFormed) {c : Block τ} (hb : b ∈ w.blocks)
    (hc : c ∈ w.blocks) (h : b.addr = c.addr) : b = c := by
  by_contra hne
  have hapart := hw.apart.forall hb hc hne
  have hposb := hw.nonempty b hb
  have hposc := hw.nonempty c hc
  rcases hapart.2 with h' | h' <;> omega

theorem WellFormed.eq_of_id_eq (hw : w.WellFormed) {c : Block τ} (hb : b ∈ w.blocks)
    (hc : c ∈ w.blocks) (h : b.id = c.id) : b = c := by
  by_contra hne
  exact (hw.apart.forall hb hc hne).1 h

theorem WellFormed.nodup (hw : w.WellFormed) : w.blocks.Nodup :=
  hw.apart.imp fun h e => h.1 (congrArg Block.id e)

/-- Dropping what starts where an outstanding block starts drops that block and no other. -/
theorem WellFormed.filter_addr (hw : w.WellFormed) {bs : Multiset (Block τ)}
    (h : (w.blocks : Multiset (Block τ)) = b ::ₘ bs) :
    ((w.blocks.filter fun c => c.addr ≠ b.addr : List (Block τ)) : Multiset (Block τ)) = bs := by
  have hnodup : (b ::ₘ bs).Nodup := h ▸ Multiset.coe_nodup.mpr hw.nodup
  have hmem : ∀ c, c ∈ w.blocks ↔ c ∈ b ::ₘ bs := fun c => by rw [← h, Multiset.mem_coe]
  have hrest : ∀ c ∈ bs, c.addr ≠ b.addr := by
    intro c hc haddr
    have hcb := hw.eq_of_addr_eq ((hmem c).mpr (Multiset.mem_cons_of_mem hc))
      ((hmem b).mpr (Multiset.mem_cons_self b bs)) haddr
    exact (Multiset.nodup_cons.mp hnodup).1 (hcb ▸ hc)
  have hself : ¬ b.addr ≠ b.addr := fun hne => hne rfl
  rw [← Multiset.filter_coe, h, Multiset.filter_cons_of_neg (p := fun c => c.addr ≠ b.addr) bs hself,
    Multiset.filter_eq_self.mpr hrest]

theorem WellFormed.blockAt (hw : w.WellFormed) (hb : b ∈ w.blocks) : w.blockAt b.addr = some b := by
  cases h : w.blockAt b.addr with
  | none =>
    rw [World.blockAt, List.find?_eq_none] at h
    have hne : ¬ b.addr = b.addr := by simpa only [decide_eq_true_eq] using h b hb
    exact absurd rfl hne
  | some c =>
    have haddr : c.addr = b.addr := by simpa using List.find?_some h
    rw [hw.eq_of_addr_eq (List.mem_of_find?_eq_some h) hb haddr]

theorem mem_update {c : Block τ} {obj : Option τ} (h : c ∈ w.update p obj) :
    ∃ b ∈ w.blocks, c.id = b.id ∧ c.bytes = b.bytes := by
  obtain ⟨b, hb, rfl⟩ := List.mem_map.mp h
  refine ⟨b, hb, ?_⟩
  split <;> exact ⟨rfl, rfl⟩

theorem mem_update_self {obj : Option τ} (hb : b ∈ w.blocks) :
    { b with obj := obj } ∈ w.update b.addr obj :=
  List.mem_map.mpr ⟨b, hb, if_pos rfl⟩

theorem apart_update {obj : Option τ} (h : w.blocks.Pairwise Apart) :
    (w.update p obj).Pairwise Apart := by
  rw [update, List.pairwise_map]
  refine h.imp fun {b c} hbc => ?_
  -- neither the number nor the range of a block depends on its object
  by_cases hb : b.addr = p <;> by_cases hc : c.addr = p <;>
    simpa only [Apart, hb, hc, if_true, if_false] using hbc

theorem WellFormed.allocated (hw : w.WellFormed) (hfresh : w.Fresh p bytes) (hbytes : 0 < bytes) :
    (w.allocated mr p bytes align).WellFormed where
  nonempty b hb := by
    rcases List.mem_append.mp hb with hb | hb
    · exact hw.nonempty b hb
    · rw [List.mem_singleton.mp hb]
      exact hbytes
  apart := by
    refine List.pairwise_append.mpr ⟨hw.apart, List.pairwise_singleton _ _, fun b hb c hc => ?_⟩
    rw [List.mem_singleton.mp hc]
    exact ⟨Nat.ne_of_lt (hw.issued b hb), hfresh b hb⟩
  issued b hb := by
    rcases List.mem_append.mp hb with hb | hb
    · exact Nat.lt_succ_of_lt (hw.issued b hb)
    · rw [List.mem_singleton.mp hb]
      exact Nat.lt_succ_self w.next
  logged e he := by
    rcases List.mem_append.mp he with he | he
    · exact Nat.lt_succ_of_lt (hw.logged e he)
    · rw [List.mem_singleton.mp he]
      exact Nat.lt_succ_self w.next

/-- An update of one object, logged under a number given out before. -/
theorem WellFormed.updated (hw : w.WellFormed) {obj : Option τ} {e : Event τ} (he : e.id < w.next)
    (hblocks : w'.blocks = w.update p obj) (hnext : w'.next = w.next) (hlog : w'.log = w.log ++ [e]) :
    w'.WellFormed where
  nonempty b hb := by
    rw [hblocks] at hb
    obtain ⟨c, hc, -, hbytes⟩ := mem_update hb
    rw [hbytes]
    exact hw.nonempty c hc
  apart := hblocks ▸ apart_update hw.apart
  issued b hb := by
    rw [hblocks] at hb
    obtain ⟨c, hc, hid, -⟩ := mem_update hb
    rw [hid, hnext]
    exact hw.issued c hc
  logged d hd := by
    rw [hlog] at hd
    rw [hnext]
    rcases List.mem_append.mp hd with hd | hd
    · exact hw.logged d hd
    · rw [List.mem_singleton.mp hd]
      exact he

theorem WellFormed.constructed (hw : w.WellFormed) (hid : id < w.next) {T : τ} {taken : List Nat} :
    (w.constructed id T p mr taken).WellFormed :=
  hw.updated (e := .construct id T p) hid rfl rfl rfl

theorem WellFormed.destroyed (hw : w.WellFormed) (hid : id < w.next) {T : τ} :
    (w.destroyed id T p).WellFormed :=
  hw.updated (e := .destroy id T p) hid rfl rfl rfl

theorem WellFormed.deallocated (hw : w.WellFormed) (hid : id < w.next) :
    (w.deallocated id mr p bytes align).WellFormed where
  nonempty b hb := hw.nonempty b (List.mem_filter.mp hb).1
  apart := hw.apart.sublist List.filter_sublist
  issued b hb := hw.issued b (List.mem_filter.mp hb).1
  logged e he := by
    rcases List.mem_append.mp he with he | he
    · exact hw.logged e he
    · rw [List.mem_singleton.mp he]
      exact hid

/-! ### Blocks after two updates at one address -/

theorem filter_addr_ne (h : ∀ b ∈ w.blocks, b.addr ≠ p) :
    (w.blocks.filter fun b => b.addr ≠ p) = w.blocks :=
  List.filter_eq_self.mpr fun b hb => decide_eq_true (h b hb)

theorem update_allocated (h : ∀ b ∈ w.blocks, b.addr ≠ p) (obj : Option τ) :
    (w.allocated mr p bytes align).update p obj
      = w.blocks ++ [⟨w.next, mr, p, bytes, align, obj⟩] := by
  have hid : (w.blocks.map fun b => if b.addr = p then { b with obj := obj } else b) = w.blocks :=
    (List.map_congr_left fun b hb => if_neg (h b hb)).trans (List.map_id' _)
  rw [update, World.allocated, List.map_append, hid]
  simp

theorem filter_allocated (h : ∀ b ∈ w.blocks, b.addr ≠ p) :
    ((w.allocated mr p bytes align).blocks.filter fun b => b.addr ≠ p) = w.blocks := by
  rw [World.allocated, List.filter_append, filter_addr_ne h]
  simp

theorem filter_update (obj : Option τ) :
    ((w.update p obj).filter fun b => b.addr ≠ p) = w.blocks.filter fun b => b.addr ≠ p := by
  rw [update, List.filter_map]
  have haddr : (w.blocks.filter ((fun b : Block τ => decide (b.addr ≠ p)) ∘
      fun b => if b.addr = p then { b with obj := obj } else b))
        = w.blocks.filter fun b => b.addr ≠ p := by
    refine List.filter_congr fun b _ => ?_
    by_cases hb : b.addr = p <;> simp [hb]
  rw [haddr]
  refine (List.map_congr_left fun b hb => if_neg ?_).trans (List.map_id' _)
  simpa using (List.mem_filter.mp hb).2

/-! ### The log of one allocation -/

/-- Two more events of one allocation leave every other allocation's log alone. -/
theorem history_pair (w w' : World τ) (id : Nat) {e₁ e₂ : Event τ} (h : w'.log = w.log ++ [e₁] ++ [e₂]) (h₁ : e₁.id = id)
    (h₂ : e₂.id = id) :
    w'.history id = w.history id ++ [e₁, e₂] ∧ ∀ k, k ≠ id → w'.history k = w.history k := by
  constructor
  · simp [history, h, h₁, h₂]
  · intro k hk
    simp [history, h, h₁, h₂, hk.symm]

/-- A number not given out yet has no history. -/
theorem WellFormed.history_eq_nil (hw : w.WellFormed) (h : w.next ≤ id) : w.history id = [] := by
  refine List.filter_eq_nil_iff.mpr fun e he => ?_
  have hlt := hw.logged e he
  simp only [decide_eq_true_eq]
  omega

end World

end Cxx
