import Mathlib.Tactic.Common
/-!
# Programs that throw, and scopes

A program runs on a state and ends, if it ends, by returning or by throwing; `none` is undefined
behaviour. `withLocal` is a block with one local object: it is destroyed at the end of the block,
whichever way control leaves it, and not when its constructor throws. `scope` is the same block where
nobody handles the exception.

`Keeps I R` says of a program that from the invariant `I` it has an outcome, is back in `I`, and has
changed the state within `R`. Sequences, handlers and scopes are made of parts that do.
-/

namespace Cxx

/-- Programs with exceptions `ε` on a state `σ`. -/
abbrev Prog (ε σ : Type) (α : Type) := ExceptT ε (StateT σ Option) α

namespace Prog

variable {ε σ ρ α β : Type}

def undefined : Prog ε σ α := ExceptT.mk fun _ => none

def exec (x : Prog ε σ α) (s : σ) : Option (Except ε α × σ) := x.run.run s

variable {x : Prog ε σ α} {g : α → Prog ε σ β} {s s' : σ} {a : α} {e : ε} {r : Except ε β}

@[simp] theorem exec_pure : exec (pure a : Prog ε σ α) s = some (.ok a, s) := rfl
@[simp] theorem exec_throw : exec (throw e : Prog ε σ α) s = some (.error e, s) := rfl
@[simp] theorem exec_get : exec (get : Prog ε σ σ) s = some (.ok s, s) := rfl
@[simp] theorem exec_set : exec (set s' : Prog ε σ PUnit) s = some (.ok ⟨⟩, s') := rfl
@[simp] theorem exec_modify {h : σ → σ} :
    exec (modify h : Prog ε σ PUnit) s = some (.ok ⟨⟩, h s) := rfl

/-- A call of a function that does not throw. -/
def call (h : σ → Option (α × σ)) : Prog ε σ α := ExceptT.mk fun s => (h s).map fun (a, t) => (.ok a, t)

@[simp] theorem exec_call {h : σ → Option (α × σ)} :
    exec (call h : Prog ε σ α) s = (h s).map fun (a, t) => (.ok a, t) := rfl

theorem exec_bind :
    exec (x >>= g) s = (exec x s).bind fun (r, s') =>
      match r with
      | .ok a => exec (g a) s'
      | .error e => some (.error e, s') := by
  simp only [exec, ExceptT.run_bind, StateT.run_bind, Option.bind_eq_bind]
  congr 1
  funext ⟨r, s'⟩
  cases r <;> rfl

theorem exec_bind_ok (h : exec x s = some (.ok a, s')) : exec (x >>= g) s = exec (g a) s' := by
  rw [exec_bind, h, Option.bind_some]

theorem exec_bind_error (h : exec x s = some (.error e, s')) :
    exec (x >>= g) s = some (.error e, s') := by
  rw [exec_bind, h, Option.bind_some]

@[simp] theorem exec_map {h : α → β} :
    exec (h <$> x) s = (exec x s).map fun (r, s') => (r.map h, s') := by
  rw [map_eq_pure_bind, exec_bind, Option.map_eq_bind]
  congr 1
  funext ⟨r, s'⟩
  cases r <;> rfl

theorem exec_tryCatch {h : ε → Prog ε σ α} :
    exec (tryCatch x h) s = (exec x s).bind fun (r, s') =>
      match r with
      | .ok a => some (.ok a, s')
      | .error e => exec (h e) s' := by
  simp only [exec, ExceptT.run_tryCatch, StateT.run_bind, Option.bind_eq_bind]
  congr 1
  funext ⟨r, s'⟩
  cases r <;> rfl

theorem exec_tryCatch_ok {h : ε → Prog ε σ α} (hx : exec x s = some (.ok a, s')) :
    exec (tryCatch x h) s = some (.ok a, s') := by
  rw [exec_tryCatch, hx, Option.bind_some]

theorem exec_tryCatch_error {h : ε → Prog ε σ α} (hx : exec x s = some (.error e, s')) :
    exec (tryCatch x h) s = exec (h e) s' := by
  rw [exec_tryCatch, hx, Option.bind_some]

/-- `{ T x = ctor; body(x) }`: `dtor` runs on both ways out of `body`. -/
def withLocal (ctor : Prog ε σ α) (dtor : α → Prog ε σ Unit) (body : α → Prog ε σ β) : Prog ε σ β := do
  let x ← ctor
  let y ← tryCatch (body x) fun e => do
    dtor x
    throw e
  dtor x
  return y

variable {dtor : α → Prog ε σ Unit} {s₁ s₂ : σ}

theorem exec_withLocal_throws (h : exec x s = some (.error e, s')) :
    exec (withLocal x dtor g) s = some (.error e, s') := by
  simp [withLocal, exec_bind, h]

/-- The local object goes on either way out, and the way out is kept. -/
theorem exec_withLocal (hctor : exec x s = some (.ok a, s₁)) (hbody : exec (g a) s₁ = some (r, s₂))
    (hdtor : exec (dtor a) s₂ = some (.ok (), s')) : exec (withLocal x dtor g) s = some (r, s') := by
  cases r <;>
    simp only [withLocal, exec_bind, exec_tryCatch, hctor, hbody, hdtor, Option.bind_some, exec_pure,
      exec_throw]

/-- A block of a program that does not handle what its body throws. An implementation may then end the
program at the throw, without unwinding. -/
def scope (unwinds : Bool) (ctor : Prog ε σ α) (dtor : α → Prog ε σ Unit) (body : α → Prog ε σ β) :
    Prog ε σ β :=
  if unwinds then withLocal ctor dtor body
  else do
    let x ← ctor
    let y ← body x
    dtor x
    return y

variable {unwinds : Bool} {b : β}

theorem exec_scope_throws (h : exec x s = some (.error e, s')) :
    exec (scope unwinds x dtor g) s = some (.error e, s') := by
  cases unwinds with
  | true => exact exec_withLocal_throws h
  | false => exact exec_bind_error h

theorem exec_scope_ok (hctor : exec x s = some (.ok a, s₁)) (hbody : exec (g a) s₁ = some (.ok b, s₂))
    (hdtor : exec (dtor a) s₂ = some (.ok (), s')) :
    exec (scope unwinds x dtor g) s = some (.ok b, s') := by
  cases unwinds with
  | true => exact exec_withLocal hctor hbody hdtor
  | false =>
    show exec (x >>= fun x => g x >>= fun y => dtor x >>= fun _ => pure y) s = _
    rw [exec_bind_ok hctor, exec_bind_ok hbody, exec_bind_ok hdtor, exec_pure]

theorem exec_scope_none (hctor : exec x s = some (.ok a, s₁)) (hbody : exec (g a) s₁ = none) :
    exec (scope unwinds x dtor g) s = none := by
  cases unwinds with
  | true => simp [scope, withLocal, exec_bind, exec_tryCatch, hctor, hbody]
  | false => simp [scope, exec_bind, hctor, hbody]

/-- Without unwinding the object stays. -/
theorem exec_scope_error (hctor : exec x s = some (.ok a, s₁))
    (hbody : exec (g a) s₁ = some (.error e, s₂)) (hdtor : exec (dtor a) s₂ = some (.ok (), s')) :
    exec (scope unwinds x dtor g) s = some (.error e, if unwinds then s' else s₂) := by
  cases unwinds with
  | true => exact exec_withLocal hctor hbody hdtor
  | false =>
    show exec (x >>= fun x => g x >>= fun y => dtor x >>= fun _ => pure y) s = _
    rw [exec_bind_ok hctor, exec_bind_error hbody]
    rfl

/-! ## Defined programs that keep an invariant -/

/-- From `I` the program has an outcome, in `I` again and within `R` of where it started. -/
def Keeps (I : σ → Prop) (R : σ → σ → Prop) (x : Prog ε σ α) : Prop :=
  ∀ s, I s → ∃ r s', exec x s = some (r, s') ∧ I s' ∧ R s s'

variable {I : σ → Prop} {R : σ → σ → Prop}

theorem Keeps.pure (hR : ∀ s, R s s) (a : α) : Keeps I R (pure a : Prog ε σ α) := fun s hs =>
  ⟨.ok a, s, exec_pure, hs, hR s⟩

theorem Keeps.throw (hR : ∀ s, R s s) (e : ε) : Keeps I R (throw e : Prog ε σ α) := fun s hs =>
  ⟨.error e, s, exec_throw, hs, hR s⟩

theorem Keeps.bind (hR : ∀ {a b c}, R a b → R b c → R a c) (hx : Keeps I R x)
    (hg : ∀ a, Keeps I R (g a)) : Keeps I R (x >>= g) := by
  intro s hs
  obtain ⟨r, s₁, hx, h₁, hR₁⟩ := hx s hs
  cases r with
  | error e => exact ⟨.error e, s₁, by simp [exec_bind, hx], h₁, hR₁⟩
  | ok a =>
    obtain ⟨r, s₂, hg, h₂, hR₂⟩ := hg a s₁ h₁
    exact ⟨r, s₂, by simp [exec_bind, hx, hg], h₂, hR hR₁ hR₂⟩

theorem Keeps.tryCatch {h : ε → Prog ε σ α} (hR : ∀ {a b c}, R a b → R b c → R a c)
    (hx : Keeps I R x) (hh : ∀ e, Keeps I R (h e)) : Keeps I R (tryCatch x h) := by
  intro s hs
  obtain ⟨r, s₁, hx, h₁, hR₁⟩ := hx s hs
  cases r with
  | ok a => exact ⟨.ok a, s₁, by simp [exec_tryCatch, hx], h₁, hR₁⟩
  | error e =>
    obtain ⟨r, s₂, hh, h₂, hR₂⟩ := hh e s₁ h₁
    exact ⟨r, s₂, by simp [exec_tryCatch, hx, hh], h₂, hR hR₁ hR₂⟩

/-- The body may rely on more than the invariant: on whatever the constructor leaves and the destructor
needs. -/
theorem Keeps.withLocal {J : α → σ → σ → Prop}
    (hctor : ∀ s, I s → (∃ e s', exec x s = some (.error e, s') ∧ I s' ∧ R s s') ∨
      ∃ a s', exec x s = some (.ok a, s') ∧ J a s s')
    (hbody : ∀ a s s₁, J a s s₁ → ∃ r s₂, exec (g a) s₁ = some (r, s₂) ∧ J a s s₂)
    (hdtor : ∀ a s s₂, J a s s₂ → ∃ s', exec (dtor a) s₂ = some (.ok (), s') ∧ I s' ∧ R s s') :
    Keeps I R (withLocal x dtor g) := by
  intro s hs
  rcases hctor s hs with ⟨e, s', hx, hI, hR⟩ | ⟨a, s₁, hx, h₁⟩
  · exact ⟨.error e, s', exec_withLocal_throws hx, hI, hR⟩
  · obtain ⟨r, s₂, hg, h₂⟩ := hbody a s s₁ h₁
    obtain ⟨s', hd, hI, hR⟩ := hdtor a s s₂ h₂
    exact ⟨r, s', exec_withLocal hx hg hd, hI, hR⟩

/-! ## Running on a part of the state -/

/-- Runs `x` on the part of the state that `get` reads and `put` writes. -/
def zoom (get : ρ → σ) (put : σ → ρ → ρ) (x : Prog ε σ α) : Prog ε ρ α := ExceptT.mk fun s =>
  (exec x (get s)).map fun (r, t) => (r, put t s)

theorem exec_zoom {get : ρ → σ} {put : σ → ρ → ρ} {w : ρ} {t : σ} {r : Except ε α}
    (h : exec x (get w) = some (r, t)) : exec (zoom get put x) w = some (r, put t w) := by
  show (exec x (get w)).map _ = _
  rw [h]
  rfl

end Prog

end Cxx
