import BoomEd.Lib.Storage
/-!
# `cmd_factory` (`commands/cmd.h`)

Commands of any type derived from `cmd::base` are made in a pool and handed out behind a
`cmd::base*`. The type survives only in the instance of `destroy` that the handle's deleter carries.
Calls out of this file, `allocate` and the constructor of `T`, have their outcome in an `Env`.

| here | there |
| --- | --- |
| `CmdType`                    | the concept (cmd.h:20-21), for a family `τ` of types |
| `Deleter`, `Deleter.call`    | `cmd_factory::deleter` (cmd.h:29-37) |
| `UniqueCmd`                  | `cmd_factory::unique_cmd` (cmd.h:39) |
| `destroy`                    | `cmd_factory::destroy<T>` (cmd.h:59-65) |
| `CmdFactory.make`            | `cmd_factory::make<T>` (cmd.h:43-55) |
| `PolymorphicAllocator`       | `std::pmr::polymorphic_allocator<T>` |
-/

namespace BoomEd

open Cxx

/-- The types derived from `cmd::base`. `baseOffset T` is where the `cmd::base` subobject lies in a
`T`: converting a `T*` to `cmd::base*` adds it, the `static_cast` back takes it off. -/
class CmdType (τ : Type) extends Layout τ where
  baseOffset : τ → Nat
  baseOffset_lt : ∀ T, baseOffset T < size T

variable {τ : Type}

/-- cmd.h:29. `destroy` is a plain function pointer, null by default. -/
structure Deleter (τ : Type) where
  mr : Resource
  destroy : Option (Nat → Resource → M τ Unit) := none

/-- `std::unique_ptr<cmd::base, deleter>`: the stored pointer and the deleter. -/
structure UniqueCmd (τ : Type) where
  ptr : Option Nat
  deleter : Deleter τ

/-- cmd.h:34. -/
def Deleter.call (d : Deleter τ) (c : Option Nat) : M τ Unit :=
  match c with
  | none => pure ()
  | some c =>
    match d.destroy with
    | none => Prog.undefined
    | some f => f c d.mr

namespace UniqueCmd

/-- `~unique_ptr` and `reset()`: a null handle has nothing to delete. -/
def release (h : UniqueCmd τ) : M τ Unit :=
  if h.ptr.isSome then h.deleter.call h.ptr else pure ()

/-- What is left of a handle that was released or moved from. -/
def emptied (h : UniqueCmd τ) : UniqueCmd τ := { h with ptr := none }

theorem release_of_null {h : UniqueCmd τ} (hnull : h.ptr.isSome = false) (w : World τ) :
    Prog.exec h.release w = some (.ok (), w) := by
  rw [release, hnull]
  rfl

end UniqueCmd

variable [CmdType τ]

/-- `std::pmr::polymorphic_allocator<T>`: room for `n` objects of type `T`. -/
structure PolymorphicAllocator (T : τ) where
  mr : Resource

namespace PolymorphicAllocator

variable {T : τ}

def allocate (a : PolymorphicAllocator T) (n : Nat) (outcome : Except Exn Nat) : M τ Nat :=
  Cxx.allocate a.mr (n * Layout.size T) (Layout.align T) outcome

def deallocate (a : PolymorphicAllocator T) (p : Nat) (n : Nat) : M τ Unit :=
  Cxx.deallocate a.mr p (n * Layout.size T) (Layout.align T)

end PolymorphicAllocator

/-- cmd.h:60. -/
def destroy [DecidableEq τ] (T : τ) (base : Nat) (mr : Resource) : M τ Unit := do
  let c := base - CmdType.baseOffset T
  destroyAt T c
  let alloc : PolymorphicAllocator T := ⟨mr⟩
  alloc.deallocate c 1

/-- What the two calls out of `make` do. -/
structure Env where
  alloc : Except Exn Nat
  ctor : CtorOutcome

structure CmdFactory where
  pool : Resource

/-- cmd.h:44. -/
def CmdFactory.make [DecidableEq τ] (f : CmdFactory) (T : τ) (env : Env) : M τ (UniqueCmd τ) := do
  let alloc : PolymorphicAllocator T := ⟨f.pool⟩
  let c ← alloc.allocate 1 env.alloc
  try
    constructAt T c f.pool env.ctor
  catch e =>
    alloc.deallocate c 1
    throw e
  return ⟨some (c + CmdType.baseOffset T), ⟨f.pool, some (destroy T)⟩⟩

/-! ## What one call does

`make` has three outcomes, a release one; none of them is undefined. -/

section Spec

variable {f : CmdFactory} {T : τ} {env : Env} {w : World τ} {b : Block τ} {p : Nat} {mr : Resource} {e : Exn}

/-- The block `make<T>` asks for, once it is out. -/
def CmdFactory.rawBlock (f : CmdFactory) (T : τ) (id p : Nat) : Block τ :=
  ⟨id, f.pool, p, Layout.size T, Layout.align T, none⟩

/-- The handle `make<T>` returns for a command at `p`. -/
def CmdFactory.handle [DecidableEq τ] (f : CmdFactory) (T : τ) (p : Nat) : UniqueCmd τ :=
  ⟨some (p + CmdType.baseOffset T), ⟨f.pool, some (destroy T)⟩⟩

theorem size_pos (T : τ) : 0 < Layout.size T :=
  Nat.lt_of_le_of_lt (Nat.zero_le _) (CmdType.baseOffset_lt T)

/-- The world in which the constructor runs. -/
def CmdFactory.allocated (f : CmdFactory) (T : τ) (w : World τ) (p : Nat) : World τ :=
  w.allocated f.pool p (Layout.size T) (Layout.align T)

theorem blockAt_allocated (hw : w.WellFormed) (hfresh : w.Fresh p (Layout.size T)) :
    (f.allocated T w p).blockAt p = some (f.rawBlock T w.next p) :=
  (hw.allocated hfresh (size_pos T)).blockAt (List.mem_append_right _ (List.mem_singleton.mpr rfl))

theorem exec_alloc (hp : env.alloc = .ok p) :
    Prog.exec ((⟨f.pool⟩ : PolymorphicAllocator T).allocate 1 env.alloc) w
      = some (.ok p, f.allocated T w p) := by
  rw [PolymorphicAllocator.allocate, hp, exec_allocate_ok, Nat.one_mul]
  rfl

theorem exec_dealloc (hb : w.blockAt p = some b) (hmr : b.mr = mr) (hbytes : b.bytes = Layout.size T)
    (halign : b.align = Layout.align T) :
    Prog.exec ((⟨mr⟩ : PolymorphicAllocator T).deallocate p 1) w
      = some (.ok (), w.deallocated b.id mr p (Layout.size T) (Layout.align T)) := by
  rw [PolymorphicAllocator.deallocate, Nat.one_mul]
  exact exec_deallocate hb hmr hbytes halign

variable [DecidableEq τ]

/-- `allocate` throws: there is nothing to give back. -/
theorem make_alloc_throws (he : env.alloc = .error e) :
    Prog.exec (f.make T env) w = some (.error e, w) := by
  refine Prog.exec_bind_error ?_
  rw [PolymorphicAllocator.allocate, he, exec_allocate_error]

/-- The constructor throws: the block goes back and the exception on. -/
theorem make_ctor_throws (hw : w.WellFormed) (hp : env.alloc = .ok p)
    (hfresh : w.Fresh p (Layout.size T)) (he : env.ctor = .throws e) :
    Prog.exec (f.make T env) w = some (.error e,
      (f.allocated T w p).deallocated w.next f.pool p (Layout.size T) (Layout.align T)) := by
  have hb := blockAt_allocated (f := f) hw hfresh
  have hctor : Prog.exec (constructAt T p f.pool env.ctor) (f.allocated T w p)
      = some (.error e, f.allocated T w p) := by
    rw [he]
    exact exec_constructAt_throws hb rfl (Nat.le_refl _)
  have hback : Prog.exec ((⟨f.pool⟩ : PolymorphicAllocator T).deallocate p 1) (f.allocated T w p)
      = some (.ok (),
        (f.allocated T w p).deallocated w.next f.pool p (Layout.size T) (Layout.align T)) :=
    exec_dealloc hb rfl rfl rfl
  rw [CmdFactory.make, Prog.exec_bind_ok (exec_alloc hp)]
  refine Prog.exec_bind_error ?_
  rw [Prog.exec_tryCatch_error hctor, Prog.exec_bind_ok hback, Prog.exec_throw]

/-- The constructor returns. -/
theorem make_returns (hw : w.WellFormed) (hp : env.alloc = .ok p)
    (hfresh : w.Fresh p (Layout.size T)) {taken : List Nat} (ht : env.ctor = .returns taken) :
    Prog.exec (f.make T env) w = some (.ok (f.handle T p),
      (f.allocated T w p).constructed w.next T p f.pool taken) := by
  have hb := blockAt_allocated (f := f) hw hfresh
  have hctor : Prog.exec (constructAt T p f.pool env.ctor) (f.allocated T w p)
      = some (.ok (), (f.allocated T w p).constructed w.next T p f.pool taken) := by
    rw [ht]
    exact exec_constructAt_returns hb rfl (Nat.le_refl _)
  rw [CmdFactory.make, Prog.exec_bind_ok (exec_alloc hp),
    Prog.exec_bind_ok (Prog.exec_tryCatch_ok hctor), Prog.exec_pure]
  rfl

/-- `destroy<T>` through the base pointer of a `T`: the object goes first, then its block. -/
theorem exec_destroy (hw : w.WellFormed) (hb : b ∈ w.blocks) (hobj : b.obj = some T)
    (hbytes : b.bytes = Layout.size T) (halign : b.align = Layout.align T) :
    Prog.exec (destroy T (b.addr + CmdType.baseOffset T) b.mr) w = some (.ok (),
      (w.destroyed b.id T b.addr).deallocated b.id b.mr b.addr (Layout.size T) (Layout.align T)) := by
  have hraw : (w.destroyed b.id T b.addr).blockAt b.addr = some { b with obj := none } :=
    (hw.destroyed (hw.issued b hb)).blockAt (World.mem_update_self hb)
  rw [destroy, Nat.add_sub_cancel, Prog.exec_bind_ok (exec_destroyAt (hw.blockAt hb) hobj)]
  exact exec_dealloc (b := { b with obj := none }) hraw rfl hbytes halign

end Spec

end BoomEd
