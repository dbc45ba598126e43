import BoomEd.Glfw
import BoomEd.Vec2
import BoomEd.Lib.Machine
import BoomEd.Lib.Storage
/-!
# `platform::app` (`platform_glfw/platform/app.cpp`)

An app owns a window, and its destructor terminates the library for the whole process. So several apps
at a time do not go together: `apps_share_one_library` says which of them can still be used and
destroyed, in every order of constructions, destructions and turns of the main loop.

| here | there |
| --- | --- |
| `PlatformApp.construct` | app.cpp:7-36 |
| `PlatformApp.destroy`   | app.cpp:39-43 |
| `PlatformApp.iterate`   | one turn of the loop (app.cpp:48-55) |
| `PlatformApp.run`       | app.cpp:46-56 |
-/

namespace BoomEd

open Cxx Glfw

/-- What is thrown in this program. -/
inductive Thrown where
  | runtimeError (what : String)
  | cmd (e : Exn)
deriving DecidableEq

/-- What the platform does during a construction. -/
structure InitEnv where
  init : Bool
  create : Bool
  restore : Switch
  closed : List Nat
  attach : Switch

/-- The platform does as it is asked. -/
def InitEnv.willing : InitEnv := ⟨true, true, .kept, [], .taken⟩

/-- `window` is null by default (app.h:21). -/
structure PlatformApp where
  window : Option Nat
deriving DecidableEq

namespace PlatformApp

/-- app.cpp:7. -/
def construct (size : Vec2 (SInt IntType.int32)) (env : InitEnv) : Prog Thrown Glfw PlatformApp := do
  let ok ← Prog.call (glfwInit env.init)
  if !ok then
    throw (.runtimeError "Could not initialize GLFW")
  let window ← Prog.call
    (glfwCreateWindow size.x.val size.y.val env.create env.restore env.closed)
  if window.isNone then
    throw (.runtimeError "Could not create GLFW window")
  Prog.call (glfwMakeContextCurrent window env.attach)
  return ⟨window⟩

/-- app.cpp:39. -/
def destroy (a : PlatformApp) : Prog Thrown Glfw Unit := do
  Prog.call (glfwDestroyWindow a.window)
  Prog.call glfwTerminate

/-- One turn of the loop: `false` when its condition fails. -/
def iterate (a : PlatformApp) (closed : List Nat) : Prog Thrown Glfw Bool := do
  let close ← Prog.call (glfwWindowShouldClose a.window)
  if close then
    return false
  Prog.call (glfwPollEvents closed)
  Prog.call glClear
  Prog.call (glfwSwapBuffers a.window)
  return true

/-- app.cpp:46, as far as the polls in the list: after the last the condition is tested once more, and
`false` is returned when the loop goes on. -/
def run (a : PlatformApp) : List (List Nat) → Prog Thrown Glfw Bool
  | [] => Prog.call (glfwWindowShouldClose a.window)
  | closed :: polls => do
    if ← iterate a closed then run a polls else return true

/-! ## What one call does -/

variable {g : Glfw} {size : Vec2 (SInt IntType.int32)} {env : InitEnv}

/-- A negative size fails an `assert`. -/
def Sized (size : Vec2 (SInt IntType.int32)) : Prop := 0 ≤ size.x.val ∧ 0 ≤ size.y.val

instance (size : Vec2 (SInt IntType.int32)) : Decidable (Sized size) := by
  unfold Sized
  infer_instance

/-- There will be a window: an empty one is refused. -/
def makesWindow (size : Vec2 (SInt IntType.int32)) (env : InitEnv) : Bool :=
  env.create && decide (size.x.val ≠ 0) && decide (size.y.val ≠ 0)

/-- The library as a successful `glfwInit` leaves it, -/
def started (g : Glfw) : Glfw := if g.initialized then g else { g.zeroed with initialized := true }

/-- with one more window, whose context was asked for twice, -/
def opened (env : InitEnv) (g : Glfw) : Glfw :=
  asked env.closed { g with
    windows := ⟨g.next, false⟩ :: g.windows
    current := env.attach.pick g.next (env.restore.pick g.next g.current)
    next := g.next + 1 }

/-- and with none made. -/
def refused (size : Vec2 (SInt IntType.int32)) (env : InitEnv) (g : Glfw) : Glfw :=
  if size.x.val = 0 ∨ size.y.val = 0 then g
  else asked env.closed { g with current := if env.restore = .kept then g.current else none }

@[simp] theorem ids_asked (closed : List Nat) (g : Glfw) : (asked closed g).ids = g.ids := by
  simp [asked, ids]

theorem started_initialized (g : Glfw) : (started g).initialized = true := by
  unfold started
  split
  · assumption
  · rfl

theorem exec_construct (hsize : Sized size) :
    Prog.exec (construct size env) g =
      if !g.initialized && !env.init then
        some (.error (.runtimeError "Could not initialize GLFW"), g.zeroed)
      else if makesWindow size env then
        some (.ok ⟨some (started g).next⟩, opened env (started g))
      else
        some (.error (.runtimeError "Could not create GLFW window"), refused size env (started g)) := by
  have hinit : glfwInit env.init g = if !g.initialized && !env.init then some (false, g.zeroed)
      else some (true, started g) := by
    unfold glfwInit started
    cases g.initialized <;> cases env.init <;> rfl
  have hs := started_initialized g
  generalize started g = u at *
  have hcreate : glfwCreateWindow size.x.val size.y.val env.create env.restore env.closed u =
      if makesWindow size env then some (some u.next, asked env.closed { u with
        windows := ⟨u.next, false⟩ :: u.windows
        current := env.restore.pick u.next u.current
        next := u.next + 1 })
      else some (none, refused size env u) := by
    unfold glfwCreateWindow makesWindow refused Sized at *
    rw [hs, if_neg (by omega), if_neg (by decide)]
    by_cases h0 : size.x.val = 0 ∨ size.y.val = 0
    · rw [if_pos h0, if_pos h0]
      rcases h0 with h0 | h0 <;> simp [h0]
    · rw [if_neg h0, if_neg h0]
      rw [not_or] at h0
      cases env.create <;> simp [h0]
  by_cases hi : (!g.initialized && !env.init) = true
  · simp [construct, Prog.exec_bind, hinit, hi]
  · by_cases hm : makesWindow size env = true
    · have hcurrent : glfwMakeContextCurrent (some u.next) env.attach (asked env.closed { u with
          windows := ⟨u.next, false⟩ :: u.windows
          current := env.restore.pick u.next u.current
          next := u.next + 1 }) = some ((), opened env u) := by
        simp [glfwMakeContextCurrent, asked, ids, opened, hs]
      simp [construct, Prog.exec_bind, hinit, hi, hcreate, hm, hcurrent, Except.map]
    · simp [construct, Prog.exec_bind, hinit, hi, hcreate, hm]

theorem exec_destroy (a : PlatformApp) :
    Prog.exec (destroy a) g =
      if g.initialized then
        match a.window with
        | none => some (.ok (), g.zeroed)
        | some w => if w ∈ g.ids then some (.ok (), g.zeroed) else none
      else some (.ok (), g) := by
  cases hi : g.initialized with
  | false => simp [destroy, Prog.exec_bind, glfwDestroyWindow, glfwTerminate, hi]
  | true =>
    cases hw : a.window with
    | none => simp [destroy, Prog.exec_bind, glfwDestroyWindow, glfwTerminate, hi, hw]
    | some w =>
      by_cases hmem : w ∈ g.ids
      · simp [destroy, Prog.exec_bind, glfwDestroyWindow, glfwTerminate, hi, hw, hmem, zeroed]
      · simp [destroy, Prog.exec_bind, glfwDestroyWindow, hi, hw, hmem]

/-- The library after one frame of window `w` in the context of `c`. -/
def frame (w c : Nat) (closed : List Nat) (g : Glfw) : Glfw :=
  { asked closed g with calls := g.calls ++ [.clear c, .swap w] }

/-- What a turn of the loop of the app of window `v` does, by the condition of the loop and the current
context. -/
def turned (v : Window) (closed : List Nat) (g : Glfw) : Option (Bool × Glfw) :=
  if v.shouldClose then some (false, g)
  else g.current.map fun c => (true, frame v.id c closed g)

theorem turned_keeps {v : Window} {closed : List Nat} {b : Bool} {g' : Glfw}
    (h : turned v closed g = some (b, g')) : g'.current = g.current ∧ g'.ids = g.ids := by
  unfold turned at h
  split at h
  · cases h
    exact ⟨rfl, rfl⟩
  · obtain ⟨c, -, e⟩ := Option.map_eq_some_iff.1 h
    cases e
    exact ⟨rfl, ids_asked ..⟩

/-- A turn of the loop of an app whose window is there. -/
theorem exec_iterate {a : PlatformApp} {v : Window} {closed : List Nat} (hi : g.initialized)
    (hw : a.window = some v.id) (hv : g.windows.find? (fun u => u.id = v.id) = some v) :
    Prog.exec (iterate a closed) g = (turned v closed g).map fun (b, g') => (.ok b, g') := by
  have hmem : v.id ∈ g.ids := List.mem_map_of_mem (List.mem_of_find?_eq_some hv)
  have hclose : glfwWindowShouldClose a.window g = some (v.shouldClose, g) := by
    simp [glfwWindowShouldClose, hw, hi, hv]
  have hpoll : glfwPollEvents closed g = some ((), asked closed g) := by
    simp [glfwPollEvents, hi]
  cases hs : v.shouldClose with
  | true => simp [iterate, Prog.exec_bind, hclose, hs, turned]
  | false =>
    cases hc : g.current with
    | none =>
      have hclear : glClear (asked closed g) = none := by simp [glClear, asked, hc]
      simp [iterate, Prog.exec_bind, hclose, hs, hpoll, hclear, turned, hc]
    | some c =>
      have hclear : glClear (asked closed g) =
          some ((), { asked closed g with calls := g.calls ++ [.clear c] }) := by
        simp [glClear, asked, hc]
      have hswap : glfwSwapBuffers a.window { asked closed g with calls := g.calls ++ [.clear c] } =
          some ((), frame v.id c closed g) := by
        have hmem' : v.id ∈ (asked closed g).ids := by rwa [ids_asked]
        simp only [glfwSwapBuffers, hw]
        rw [if_neg (by simp [asked, hi])]
        refine (if_pos hmem').trans ?_
        rw [List.append_assoc]
        rfl
      simp [iterate, Prog.exec_bind, hclose, hs, hpoll, hclear, hswap, turned, hc, Except.map]

end PlatformApp

/-! ## Several apps in one process -/

/-- A live app and, for the record, the number of destructions before its construction. -/
structure Live where
  app : PlatformApp
  born : Nat
deriving DecidableEq

/-- `epoch` counts the destructions so far; a destroyed app leaves an empty slot. -/
structure Process where
  glfw : Glfw
  apps : List (Option Live)
  epoch : Nat

namespace Process

inductive Act where
  | construct (size : Vec2 (SInt IntType.int32)) (env : InitEnv)
  | destroy (i : Nat)
  | iterate (i : Nat) (closed : List Nat)

/-- An app whose constructor throws does not come to be. -/
def step (p : Process) : Act → Option Process
  | .construct size env =>
    match Prog.exec (PlatformApp.construct size env) p.glfw with
    | none => none
    | some (.ok a, g) => some ⟨g, p.apps ++ [some ⟨a, p.epoch⟩], p.epoch⟩
    | some (.error _, g) => some { p with glfw := g }
  | .destroy i =>
    match p.apps[i]? with
    | some (some a) =>
      match Prog.exec a.app.destroy p.glfw with
      | some (.ok _, g) => some ⟨g, p.apps.set i none, p.epoch + 1⟩
      | _ => none
    | _ => none
  | .iterate i closed =>
    match p.apps[i]? with
    | some (some a) =>
      match Prog.exec (a.app.iterate closed) p.glfw with
      | some (.ok _, g) => some { p with glfw := g }
      | _ => none
    | _ => none

/-- Sizes are not negative, and only live apps are used and destroyed. -/
def Allowed (p : Process) : Act → Prop
  | .construct size _ => PlatformApp.Sized size
  | .destroy i => ∃ a, p.apps[i]? = some (some a)
  | .iterate i _ => ∃ a, p.apps[i]? = some (some a)

def hasApp (p : Process) (i : Nat) : Decidable (∃ a, p.apps[i]? = some (some a)) :=
  match h : p.apps[i]? with
  | none => .isFalse (by simp)
  | some none => .isFalse (by simp)
  | some (some a) => .isTrue ⟨a, rfl⟩

instance (p : Process) : ∀ x, Decidable (Allowed p x)
  | .construct size _ => inferInstanceAs (Decidable (PlatformApp.Sized size))
  | .destroy i => p.hasApp i
  | .iterate i _ => p.hasApp i

def machine : Machine Process Act := ⟨⟨Glfw.empty, [], 0⟩, Allowed, step⟩

instance (p : Process) (x : Act) : Decidable (machine.allowed p x) :=
  inferInstanceAs (Decidable (Allowed p x))

/-- The windows of the live apps of this epoch, from the first. -/
def present (p : Process) : List Nat :=
  p.apps.filterMap fun s => s.bind fun a => if a.born = p.epoch then a.app.window else none

/-- The windows there are belong to the apps of this epoch, one each, and one of them has the context if
any has; the windows of older apps are gone for good. -/
structure Inv (p : Process) : Prop where
  down : p.glfw.initialized = false → p.glfw.windows = []
  current : ∀ c, p.glfw.current = some c → c ∈ p.glfw.ids
  owned : p.glfw.ids.reverse = p.present
  distinct : p.glfw.ids.Nodup
  issued : ∀ w ∈ p.glfw.ids, w < p.glfw.next
  app : ∀ a, some a ∈ p.apps → a.born ≤ p.epoch ∧
    ∃ w, a.app.window = some w ∧ w < p.glfw.next ∧ (w ∈ p.glfw.ids ↔ a.born = p.epoch)

variable {p : Process}

theorem inv_init : Inv machine.init where
  down _ := rfl
  current _ h := by cases h
  owned := rfl
  distinct := .nil
  issued _ h := by cases h
  app _ h := by cases h

/-- Only the windows, the context and the numbers given out matter. -/
theorem Inv.of_glfw (h : Inv p) {g : Glfw} (hdown : g.initialized = false → g.windows = [])
    (hids : g.ids = p.glfw.ids) (hcur : ∀ c, g.current = some c → p.glfw.current = some c)
    (hnext : g.next = p.glfw.next) : Inv { p with glfw := g } where
  down := hdown
  current c hc := by
    show c ∈ g.ids
    rw [hids]
    exact h.current c (hcur c hc)
  owned := hids ▸ h.owned
  distinct := hids ▸ h.distinct
  issued := by rw [hids, hnext]; exact h.issued
  app := by
    show ∀ a, some a ∈ p.apps → _
    rw [hids, hnext]
    exact h.app

theorem Inv.current_eq_none (h : Inv p) (hw : p.glfw.windows = []) : p.glfw.current = none := by
  refine Option.eq_none_iff_forall_ne_some.2 fun c hc => ?_
  have hmem := h.current c hc
  rw [ids, hw] at hmem
  cases hmem

/-- A library that is down has been zeroed already. -/
theorem Inv.zeroed_eq (h : Inv p) (hd : p.glfw.initialized = false) : p.glfw.zeroed = p.glfw := by
  have hw := h.down hd
  have hc := h.current_eq_none hw
  obtain ⟨⟨initialized, windows, current, next, calls⟩, apps, epoch⟩ := p
  simp only at hd hw hc
  simp [zeroed, hd, hw, hc]

theorem Inv.started (h : Inv p) : Inv { p with glfw := PlatformApp.started p.glfw } := by
  cases hi : p.glfw.initialized with
  | true => rwa [PlatformApp.started, if_pos hi]
  | false =>
    rw [PlatformApp.started, if_neg (by simp [hi]), h.zeroed_eq hi]
    exact h.of_glfw (fun hd => by cases hd) rfl (fun _ => id) rfl

/-- A window that is not made may cost the context, no more. -/
theorem Inv.refused (h : Inv p) (size : Vec2 (SInt IntType.int32)) (env : InitEnv) :
    Inv { p with glfw := PlatformApp.refused size env p.glfw } := by
  unfold PlatformApp.refused
  split
  · exact h
  · refine h.of_glfw (fun hd => ?_) (PlatformApp.ids_asked ..) (fun c hc => ?_) rfl
    · show (asked env.closed p.glfw).windows = []
      rw [asked, h.down hd]
      rfl
    · have hc' : (if env.restore = .kept then p.glfw.current else none) = some c := hc
      split at hc'
      · exact hc'
      · cases hc'

theorem pick_eq_some {w c : Nat} {old : Option Nat} {sw : Switch} (h : sw.pick w old = some c) :
    c = w ∨ old = some c := by
  cases sw with
  | taken => exact .inl (Option.some.inj h).symm
  | kept => exact .inr h
  | lost => cases h

theorem Inv.opened (h : Inv p) (hi : p.glfw.initialized = true) (env : InitEnv) :
    Inv { p with
      glfw := PlatformApp.opened env p.glfw
      apps := p.apps ++ [some ⟨⟨some p.glfw.next⟩, p.epoch⟩] } := by
  have hids : (PlatformApp.opened env p.glfw).ids = p.glfw.next :: p.glfw.ids :=
    PlatformApp.ids_asked ..
  refine ⟨fun hd => ?_, fun c hc => ?_, ?_, ?_, ?_, ?_⟩
  · exact absurd (hi.symm.trans hd) (by decide)
  · show c ∈ (PlatformApp.opened env p.glfw).ids
    rw [hids, List.mem_cons]
    rcases pick_eq_some hc with rfl | hc
    · exact .inl rfl
    · exact (pick_eq_some hc).imp_right (h.current c)
  · show (PlatformApp.opened env p.glfw).ids.reverse = present _
    rw [hids, List.reverse_cons, h.owned]
    simp [present]
  · show (PlatformApp.opened env p.glfw).ids.Nodup
    rw [hids, List.nodup_cons]
    exact ⟨fun hmem => Nat.lt_irrefl _ (h.issued _ hmem), h.distinct⟩
  · show ∀ w ∈ (PlatformApp.opened env p.glfw).ids, w < p.glfw.next + 1
    rw [hids]
    intro w hw
    rcases List.mem_cons.1 hw with rfl | hw
    · exact Nat.lt_succ_self _
    · exact Nat.lt_succ_of_lt (h.issued w hw)
  · intro a ha
    show a.born ≤ p.epoch ∧ ∃ w, a.app.window = some w ∧ w < p.glfw.next + 1 ∧
      (w ∈ (PlatformApp.opened env p.glfw).ids ↔ a.born = p.epoch)
    rw [hids]
    rcases List.mem_append.1 ha with ha | ha
    · obtain ⟨hborn, w, hw, hlt, hiff⟩ := h.app a ha
      refine ⟨hborn, w, hw, Nat.lt_succ_of_lt hlt, ?_⟩
      rw [List.mem_cons, or_iff_right (Nat.ne_of_lt hlt)]
      exact hiff
    · obtain rfl : a = ⟨⟨some p.glfw.next⟩, p.epoch⟩ := by simpa using ha
      exact ⟨Nat.le_refl _, p.glfw.next, rfl, Nat.lt_succ_self _, by simp⟩

/-- After a destruction there is no window, and every app left is of an older epoch. -/
theorem Inv.destroyed (h : Inv p) (i : Nat) {g : Glfw} (hw : g.windows = []) (hc : g.current = none)
    (hnext : g.next = p.glfw.next) : Inv ⟨g, p.apps.set i none, p.epoch + 1⟩ := by
  have hids : g.ids = [] := by rw [ids, hw, List.map_nil]
  have happ : ∀ a, some a ∈ p.apps.set i none → some a ∈ p.apps := fun a ha =>
    (List.mem_or_eq_of_mem_set ha).resolve_right (by simp)
  refine ⟨fun _ => hw, fun c hc' => ?_, ?_, ?_, ?_, ?_⟩
  · cases hc.symm.trans hc'
  · show g.ids.reverse = _
    rw [hids, List.reverse_nil, eq_comm, present, List.filterMap_eq_nil_iff]
    intro s hs
    cases s with
    | none => rfl
    | some a =>
      have hborn := (h.app a (happ a hs)).1
      exact if_neg (Nat.ne_of_lt (Nat.lt_succ_of_le hborn))
  · show g.ids.Nodup
    rw [hids]
    exact .nil
  · show ∀ w ∈ g.ids, _
    rw [hids]
    exact fun w hw => by cases hw
  · intro a ha
    obtain ⟨hborn, w, hw, hlt, -⟩ := h.app a (happ a ha)
    refine ⟨Nat.le_succ_of_le hborn, w, hw, hnext ▸ hlt, ?_⟩
    rw [hids]
    exact iff_of_false (by simp) (Nat.ne_of_lt (Nat.lt_succ_of_le hborn))

/-! ## Each step from the invariant -/

theorem step_construct {size : Vec2 (SInt IntType.int32)} {env : InitEnv}
    (hsize : PlatformApp.Sized size) :
    step p (.construct size env) =
      if !p.glfw.initialized && !env.init then some { p with glfw := p.glfw.zeroed }
      else if PlatformApp.makesWindow size env then some { p with
        glfw := PlatformApp.opened env (PlatformApp.started p.glfw)
        apps := p.apps ++ [some ⟨⟨some (PlatformApp.started p.glfw).next⟩, p.epoch⟩] }
      else some { p with glfw := PlatformApp.refused size env (PlatformApp.started p.glfw) } := by
  rw [step, PlatformApp.exec_construct hsize]
  cases !p.glfw.initialized && !env.init <;> cases PlatformApp.makesWindow size env <;> rfl

theorem Inv.step_destroy (h : Inv p) {i : Nat} {a : Live} (hi : p.apps[i]? = some (some a)) :
    step p (.destroy i) =
      if p.glfw.initialized ∧ a.born ≠ p.epoch then none
      else some ⟨p.glfw.zeroed, p.apps.set i none, p.epoch + 1⟩ := by
  obtain ⟨-, w, hw, -, hiff⟩ := h.app a (List.mem_of_getElem? hi)
  simp only [step, hi, PlatformApp.exec_destroy, hw]
  cases hinit : p.glfw.initialized with
  | false => simp [h.zeroed_eq hinit]
  | true =>
    by_cases hborn : a.born = p.epoch
    · simp [hiff.2 hborn, hborn]
    · simp [mt hiff.1 hborn, hborn]

/-- A construction always has an outcome: one app more, with a window of its own, or none. -/
theorem Inv.construct_outcome (h : Inv p) (size : Vec2 (SInt IntType.int32)) (env : InitEnv)
    (hsize : PlatformApp.Sized size) : ∃ p', Process.step p (.construct size env) = some p' ∧
      ((p.glfw.initialized || env.init) && PlatformApp.makesWindow size env →
        ∃ w, w ∉ p.glfw.ids ∧ p'.glfw.ids = w :: p.glfw.ids ∧
          p'.apps = p.apps ++ [some ⟨⟨some w⟩, p.epoch⟩] ∧
          (env.attach = .taken → p'.glfw.current = some w)) ∧
      (¬ ((p.glfw.initialized || env.init) && PlatformApp.makesWindow size env) →
        p'.glfw.ids = p.glfw.ids ∧ p'.apps = p.apps) := by
  have hstarted : (PlatformApp.started p.glfw).ids = p.glfw.ids := by
    unfold PlatformApp.started
    split
    · rfl
    · next hd => rw [h.zeroed_eq (by simpa using hd)]; rfl
  rw [step_construct hsize]
  split
  · next hdown =>
    obtain ⟨hd, he⟩ : p.glfw.initialized = false ∧ env.init = false := by simpa using hdown
    rw [h.zeroed_eq hd]
    exact ⟨p, rfl, by simp [hd, he], fun _ => ⟨rfl, rfl⟩⟩
  · next hup =>
    have hup' : (p.glfw.initialized || env.init) = true := by
      simpa [Bool.or_eq_true, or_iff_not_imp_left] using hup
    split
    · next hm =>
      refine ⟨_, rfl, fun _ => ⟨(PlatformApp.started p.glfw).next, ?_, ?_, rfl, fun ht => ?_⟩,
        fun hn => absurd hm (by simpa [hup'] using hn)⟩
      · rw [← hstarted]
        exact fun hmem => Nat.lt_irrefl _ (h.started.issued _ hmem)
      · exact (PlatformApp.ids_asked ..).trans (congrArg _ hstarted)
      · show env.attach.pick _ _ = _
        rw [ht]
        rfl
    · next hm =>
      refine ⟨_, rfl, fun hy => absurd hy (by simp [hm]), fun _ => ⟨?_, rfl⟩⟩
      rw [← hstarted]
      show (PlatformApp.refused size env (PlatformApp.started p.glfw)).ids = _
      unfold PlatformApp.refused
      split
      · rfl
      · exact PlatformApp.ids_asked ..

/-- In the epoch of the app its window is there. -/
theorem Inv.window_of_born (h : Inv p) {a : Live} (ha : some a ∈ p.apps) (hborn : a.born = p.epoch) :
    ∃ v ∈ p.glfw.windows, a.app.window = some v.id ∧
      p.glfw.windows.find? (fun u => u.id = v.id) = some v ∧ p.glfw.initialized := by
  obtain ⟨-, w, hw, -, hiff⟩ := h.app a ha
  obtain ⟨u, hu, rfl⟩ := List.mem_map.1 (hiff.2 hborn)
  obtain ⟨v, hv⟩ : ∃ v, p.glfw.windows.find? (fun x => x.id = u.id) = some v := by
    rw [← Option.isSome_iff_exists, List.find?_isSome]
    exact ⟨u, hu, by simp⟩
  have hid : v.id = u.id := by simpa using List.find?_some hv
  have hinit : p.glfw.initialized = true := by
    by_contra hdown
    rw [h.down (by simpa using hdown)] at hu
    cases hu
  exact ⟨v, List.mem_of_find?_eq_some hv, by rw [hid, hw], by rw [hid, hv], hinit⟩

theorem Inv.step_iterate (h : Inv p) {i : Nat} {a : Live} (hi : p.apps[i]? = some (some a))
    (hborn : a.born = p.epoch) :
    ∃ v ∈ p.glfw.windows, a.app.window = some v.id ∧ ∀ closed, step p (.iterate i closed) =
      (PlatformApp.turned v closed p.glfw).map fun (_, g) => { p with glfw := g } := by
  obtain ⟨v, hmem, hw, hv, hinit⟩ := h.window_of_born (List.mem_of_getElem? hi) hborn
  refine ⟨v, hmem, hw, fun closed => ?_⟩
  simp only [step, hi, PlatformApp.exec_iterate hinit hw hv]
  cases PlatformApp.turned v closed p.glfw <;> rfl

/-- In a later epoch: either the library is up and the window dangles, or it is down, says that the
window stays open, and there is no context to draw in. -/
theorem Inv.step_iterate_stale (h : Inv p) {i : Nat} {a : Live} {closed : List Nat}
    (hi : p.apps[i]? = some (some a)) (hborn : a.born ≠ p.epoch) :
    step p (.iterate i closed) = none := by
  obtain ⟨-, w, hw, -, hiff⟩ := h.app a (List.mem_of_getElem? hi)
  have hgone := mt hiff.1 hborn
  have hexec : Prog.exec (a.app.iterate closed) p.glfw = none := by
    cases hinit : p.glfw.initialized with
    | true =>
      have hfind : p.glfw.windows.find? (fun v => v.id = w) = none := by
        rw [List.find?_eq_none]
        exact fun v hv hid => hgone (List.mem_map.2 ⟨v, hv, by simpa using hid⟩)
      simp [PlatformApp.iterate, Prog.exec_bind, glfwWindowShouldClose, hw, hinit, hfind]
    | false =>
      have hc := h.current_eq_none (h.down hinit)
      simp [PlatformApp.iterate, Prog.exec_bind, glfwWindowShouldClose, glfwPollEvents, glClear, hw,
        hinit, hc]
  simp only [step, hi, hexec]

/-- A turn moves no window and no context. -/
theorem Inv.turned (h : Inv p) {v : Window} {closed : List Nat} {b : Bool} {g : Glfw}
    (ht : PlatformApp.turned v closed p.glfw = some (b, g)) : Inv { p with glfw := g } := by
  unfold PlatformApp.turned at ht
  split at ht
  · cases ht
    exact h
  · obtain ⟨c, -, e⟩ := Option.map_eq_some_iff.1 ht
    cases e
    refine h.of_glfw (fun hd => ?_) (PlatformApp.ids_asked ..) (fun _ => id) rfl
    show (asked closed p.glfw).windows = []
    rw [asked, h.down hd]
    rfl

theorem Inv.step (h : Inv p) {x : Act} (ha : Allowed p x) {p' : Process} (hs : step p x = some p') :
    Inv p' := by
  cases x with
  | construct size env =>
    rw [step_construct ha] at hs
    split at hs
    · next hdown =>
      obtain ⟨hdown, -⟩ : p.glfw.initialized = false ∧ env.init = false := by simpa using hdown
      rw [h.zeroed_eq hdown] at hs
      cases hs
      exact h
    · split at hs
      · cases hs
        exact h.started.opened (PlatformApp.started_initialized _) env
      · cases hs
        exact h.started.refused size env
  | destroy i =>
    obtain ⟨a, hi⟩ := ha
    rw [h.step_destroy hi] at hs
    split at hs
    · cases hs
    · cases hs
      exact h.destroyed i rfl rfl rfl
  | iterate i closed =>
    obtain ⟨a, hi⟩ := ha
    by_cases hborn : a.born = p.epoch
    · obtain ⟨v, -, -, e⟩ := h.step_iterate hi hborn
      rw [e] at hs
      obtain ⟨⟨b, g⟩, ht, rfl⟩ := Option.map_eq_some_iff.1 hs
      exact h.turned ht
    · rw [h.step_iterate_stale hi hborn] at hs
      cases hs

theorem inv_of_reachable (hp : machine.Reachable p) : Inv p := by
  induction hp with
  | init => exact inv_init
  | step x _ ha hs ih => exact ih.step ha hs

/-- **Apps share one library.** In every state that constructions, destructions and turns of main loops
lead to, in any order and whatever the platform answers: the windows are those of the apps constructed
since the last destruction, and if there is a context it is that of one of them. A construction always
has an outcome; it adds one app with a window of its own, and its context if the platform gives it, or
leaves apps and windows alone. A live app can be destroyed just when no other was destroyed since its
construction or the library is down; after that the library is down, without windows, and no app left
can take a turn of its loop. An app can take a turn only if no other was destroyed since its
construction. If its window was asked to close the turn ends the loop and nothing happens; else it
clears in whatever context there is, needs one, and swaps its own window. -/
theorem apps_share_one_library (p : Process) (hp : machine.Reachable p) :
    (p.glfw.ids.reverse = p.present ∧ p.glfw.ids.Nodup ∧
      ∀ c, p.glfw.current = some c → c ∈ p.glfw.ids) ∧
    (∀ size env, PlatformApp.Sized size → ∃ p', step p (.construct size env) = some p' ∧
      ((p.glfw.initialized || env.init) && PlatformApp.makesWindow size env →
        ∃ w, w ∉ p.glfw.ids ∧ p'.glfw.ids = w :: p.glfw.ids ∧
          p'.apps = p.apps ++ [some ⟨⟨some w⟩, p.epoch⟩] ∧
          (env.attach = .taken → p'.glfw.current = some w)) ∧
      (¬ ((p.glfw.initialized || env.init) && PlatformApp.makesWindow size env) →
        p'.glfw.ids = p.glfw.ids ∧ p'.apps = p.apps)) ∧
    ∀ i a, p.apps[i]? = some (some a) →
      ((∃ p', step p (.destroy i) = some p') ↔ a.born = p.epoch ∨ p.glfw.initialized = false) ∧
      (∀ p', step p (.destroy i) = some p' → p'.glfw.initialized = false ∧ p'.glfw.windows = [] ∧
        ∀ j b closed, p'.apps[j]? = some (some b) → step p' (.iterate j closed) = none) ∧
      (a.born ≠ p.epoch → ∀ closed, step p (.iterate i closed) = none) ∧
      (a.born = p.epoch → ∃ v ∈ p.glfw.windows, a.app.window = some v.id ∧ ∀ closed,
        (v.shouldClose = true → step p (.iterate i closed) = some p) ∧
        (v.shouldClose = false → p.glfw.current = none → step p (.iterate i closed) = none) ∧
        ∀ c, v.shouldClose = false → p.glfw.current = some c → step p (.iterate i closed) =
          some { p with glfw := { asked closed p.glfw with
            calls := p.glfw.calls ++ [.clear c, .swap v.id] } }) := by
  have h := inv_of_reachable hp
  refine ⟨⟨h.owned, h.distinct, h.current⟩, h.construct_outcome, fun i a hi =>
    ⟨?_, fun p' hs => ?_, fun hborn closed => h.step_iterate_stale hi hborn, fun hborn => ?_⟩⟩
  · rw [h.step_destroy hi]
    by_cases hborn : a.born = p.epoch <;> cases p.glfw.initialized <;> simp [hborn]
  · have h' := h.step (x := .destroy i) ⟨a, hi⟩ hs
    rw [h.step_destroy hi] at hs
    split at hs
    · cases hs
    · cases hs
      refine ⟨rfl, rfl, fun j b closed hj => h'.step_iterate_stale hj ?_⟩
      have hb := (List.mem_or_eq_of_mem_set (List.mem_of_getElem? hj)).resolve_right (by simp)
      exact Nat.ne_of_lt (Nat.lt_succ_of_le (h.app b hb).1)
  · obtain ⟨v, hmem, hw, e⟩ := h.step_iterate hi hborn
    refine ⟨v, hmem, hw, fun closed => ⟨fun hs => ?_, fun hs hc => ?_, fun c hs hc => ?_⟩⟩
    · rw [e, PlatformApp.turned, if_pos hs]
      rfl
    · rw [e, PlatformApp.turned, if_neg (by simp [hs]), hc]
      rfl
    · rw [e, PlatformApp.turned, if_neg (by simp [hs]), hc]
      rfl

/-- Two apps: the first clears the window of the second; with the second destroyed it can neither go on
nor, once a third is up, be destroyed. -/
theorem apps_share_one_library_three :
    let size : Vec2 (SInt IntType.int32) := ⟨Arith.lit 1280, Arith.lit 960⟩
    let acts : List Act := [.construct size .willing, .construct size .willing, .iterate 0 [],
      .destroy 1, .construct size .willing]
    ∃ p, machine.run machine.init acts = some p ∧ p.glfw.calls = [.clear 1, .swap 0] ∧
      step p (.destroy 0) = none ∧ ∀ closed, step p (.iterate 0 closed) = none := by
  intro size acts
  have hrun : machine.run machine.init acts = some _ := rfl
  obtain ⟨-, -, h⟩ := apps_share_one_library _ (Machine.reachable_of_run .init hrun)
  obtain ⟨hdestroy, -, hiterate, -⟩ := h 0 _ rfl
  refine ⟨_, hrun, rfl, ?_, hiterate (by decide)⟩
  refine Option.eq_none_iff_forall_ne_some.2 fun p' hs => ?_
  rcases hdestroy.1 ⟨p', hs⟩ with e | e
  · exact absurd e (by decide)
  · exact absurd e (by decide)

/-! ## One app at a time -/

def live (p : Process) : List Live := p.apps.filterMap id

/-- No app is constructed while another lives, and the platform gives the context it is asked for. -/
def SoloAllowed (p : Process) (x : Act) : Prop :=
  Allowed p x ∧ match x with
    | .construct _ env => p.live = [] ∧ env.attach = .taken
    | _ => True

def solo : Machine Process Act := ⟨machine.init, SoloAllowed, step⟩

instance (p : Process) : ∀ x, Decidable (solo.allowed p x)
  | .construct size env =>
    inferInstanceAs (Decidable (PlatformApp.Sized size ∧ p.live = [] ∧ env.attach = .taken))
  | .destroy i => @instDecidableAnd _ _ (p.hasApp i) instDecidableTrue
  | .iterate i _ => @instDecidableAnd _ _ (p.hasApp i) instDecidableTrue

/-- The one window has the context. -/
structure SoloInv (p : Process) : Prop extends Inv p where
  one : p.live = [] ∨ ∃ a, p.live = [a] ∧ a.born = p.epoch
  attached : p.glfw.current = p.glfw.ids.head?

theorem perm_live_set {l : List (Option Live)} {i : Nat} {a : Live} (hi : l[i]? = some (some a)) :
    (l.filterMap id).Perm (a :: (l.set i none).filterMap id) := by
  induction l generalizing i with
  | nil => cases hi
  | cons s l ih =>
    cases i with
    | zero =>
      obtain rfl : s = some a := by simpa using hi
      simp
    | succ i =>
      have hperm := ih (by simpa using hi)
      cases s with
      | none => simpa using hperm
      | some b => simpa using (hperm.cons b).trans (.swap a b _)

/-- The live app is the one there is. -/
theorem SoloInv.live_eq (h : SoloInv p) {i : Nat} {a : Live} (hi : p.apps[i]? = some (some a)) :
    p.live = [a] ∧ a.born = p.epoch ∧ (p.apps.set i none).filterMap id = [] := by
  have hperm : p.live.Perm (a :: (p.apps.set i none).filterMap id) := perm_live_set hi
  rcases h.one with e | ⟨b, e, hborn⟩
  · rw [e] at hperm
    exact absurd hperm.length_eq (by simp)
  · rw [e, List.singleton_perm, List.cons.injEq] at hperm
    obtain ⟨rfl, hrest⟩ := hperm
    exact ⟨e, hborn, hrest.symm⟩

theorem present_eq_live (p : Process) :
    p.present = p.live.filterMap fun a => if a.born = p.epoch then a.app.window else none := by
  rw [live, List.filterMap_filterMap]
  rfl

/-- No app, no window. -/
theorem Inv.windows_eq_nil (h : Inv p) (hlive : p.live = []) : p.glfw.windows = [] := by
  have howned := h.owned
  rw [present_eq_live, hlive, List.filterMap_nil, List.reverse_eq_nil_iff] at howned
  exact List.map_eq_nil_iff.1 howned

/-- The window of the one app. -/
theorem SoloInv.window_of_live (h : SoloInv p) {i : Nat} {a : Live}
    (hi : p.apps[i]? = some (some a)) :
    ∃ v, a.app.window = some v.id ∧ p.glfw.windows = [v] ∧ p.glfw.current = some v.id ∧
      ∀ closed, step p (.iterate i closed) =
        (PlatformApp.turned v closed p.glfw).map fun (_, g) => { p with glfw := g } := by
  obtain ⟨hlive, hborn, -⟩ := h.live_eq hi
  obtain ⟨v, hmem, hw, e⟩ := h.step_iterate hi hborn
  have howned := h.owned
  rw [present_eq_live, hlive, List.reverse_eq_iff] at howned
  have hids : p.glfw.windows.map Window.id = [v.id] := by
    rw [← Glfw.ids, howned]
    simp [hborn, hw]
  obtain ⟨u, hu, -⟩ := List.map_eq_singleton_iff.1 hids
  rw [hu, List.mem_singleton] at hmem
  exact ⟨v, hw, by rw [hu, hmem], by rw [h.attached, Glfw.ids, hids]; rfl, e⟩

theorem solo_safe : Machine.Safe solo SoloInv where
  init := ⟨inv_init, .inl rfl, rfl⟩
  step p x h ha := by
    obtain ⟨ha, hsolo⟩ := ha
    cases x with
    | construct size env =>
      obtain ⟨hlive, ht⟩ := hsolo
      obtain ⟨p', hs, hyes, hno⟩ := h.construct_outcome size env ha
      have h' := h.step ha hs
      have hids : p.glfw.ids = [] := by rw [Glfw.ids, h.windows_eq_nil hlive, List.map_nil]
      have hepoch : p'.epoch = p.epoch := by
        rw [step_construct ha] at hs
        split at hs
        · cases hs; rfl
        · split at hs <;> cases hs <;> rfl
      by_cases hc : (p.glfw.initialized || env.init) && PlatformApp.makesWindow size env
      · obtain ⟨w, -, hw, happs, hcur⟩ := hyes hc
        refine ⟨p', hs, h', .inr ⟨⟨⟨some w⟩, p.epoch⟩, ?_, hepoch.symm⟩, ?_⟩
        · rw [live, happs, List.filterMap_append, show p.apps.filterMap id = [] from hlive]
          rfl
        · rw [hcur ht, hw]
          rfl
      · obtain ⟨hw, happs⟩ := hno hc
        have hw' : p'.glfw.windows = [] := List.map_eq_nil_iff.1 (hw.trans hids)
        refine ⟨p', hs, h', .inl (by rw [live, happs]; exact hlive), ?_⟩
        rw [h'.current_eq_none hw', hw, hids]
        rfl
    | destroy i =>
      obtain ⟨a, hi⟩ := ha
      obtain ⟨-, hborn, hrest⟩ := h.live_eq hi
      have hs : step p (.destroy i) = some _ :=
        (h.step_destroy hi).trans (if_neg fun hc => hc.2 hborn)
      exact ⟨_, hs, h.toInv.step (x := .destroy i) ⟨a, hi⟩ hs, .inl hrest, rfl⟩
    | iterate i closed =>
      obtain ⟨a, hi⟩ := ha
      obtain ⟨hlive, hborn, -⟩ := h.live_eq hi
      obtain ⟨v, -, -, hc, e⟩ := h.window_of_live hi
      obtain ⟨⟨b, g⟩, ht⟩ : ∃ r, PlatformApp.turned v closed p.glfw = some r := by
        unfold PlatformApp.turned
        rw [hc]
        split <;> exact ⟨_, rfl⟩
      obtain ⟨hcur, hids⟩ := PlatformApp.turned_keeps ht
      have hs : step p (.iterate i closed) = some _ := (e closed).trans (congrArg _ ht)
      refine ⟨_, hs, h.turned ht, .inr ⟨a, hlive, hborn⟩, ?_⟩
      show g.current = g.ids.head?
      rw [hcur, hids]
      exact h.attached

/-- **One app at a time.** Where an app is constructed only after the one before was destroyed, whatever
constructions failed in between, and the platform gives each new window its context, no step is
undefined. There is a window just while there is an app; it is that app's and has the context. A turn of
the loop ends it if the window was asked to close, and else clears and swaps that window. -/
theorem one_app_at_a_time (p : Process) (hp : solo.Reachable p) :
    (∀ x, SoloAllowed p x → ∃ p', step p x = some p' ∧ solo.Reachable p') ∧
    (p.live = [] → p.glfw.windows = []) ∧
    ∀ i a, p.apps[i]? = some (some a) → ∃ v, a.app.window = some v.id ∧ p.glfw.windows = [v] ∧
      p.glfw.current = some v.id ∧ ∀ closed,
        (v.shouldClose = true → step p (.iterate i closed) = some p) ∧
        (v.shouldClose = false → ∃ p', step p (.iterate i closed) = some p' ∧
          p'.glfw.calls = p.glfw.calls ++ [.clear v.id, .swap v.id] ∧
          p'.glfw.windows = [⟨v.id, decide (v.id ∈ closed)⟩] ∧ p'.apps = p.apps) := by
  have h : SoloInv p := solo_safe.reachable hp
  refine ⟨fun x => solo_safe.defined hp, h.windows_eq_nil, fun i a hi => ?_⟩
  obtain ⟨v, hw, hv, hc, e⟩ := h.window_of_live hi
  refine ⟨v, hw, hv, hc, fun closed => ⟨fun hs => ?_, fun hs => ?_⟩⟩
  · rw [e, PlatformApp.turned, if_pos hs]
    rfl
  · have ht : PlatformApp.turned v closed p.glfw =
        some (true, PlatformApp.frame v.id v.id closed p.glfw) := by
      rw [PlatformApp.turned, if_neg (by simp [hs]), hc]
      rfl
    refine ⟨_, (e closed).trans (congrArg _ ht), rfl, ?_, rfl⟩
    simp [PlatformApp.frame, asked, hv, hs]

/-- A window that cannot be made, an app, and another after it. -/
theorem one_app_at_a_time_again :
    let size : Vec2 (SInt IntType.int32) := ⟨Arith.lit 1280, Arith.lit 960⟩
    let acts : List Act := [.construct size ⟨true, false, .lost, [], .taken⟩,
      .construct size .willing, .iterate 0 [0], .iterate 0 [], .destroy 0, .construct size .willing,
      .iterate 1 []]
    ∃ p, solo.run solo.init acts = some p ∧ p.glfw.ids = [1] ∧ p.glfw.current = some 1 ∧
      p.glfw.calls = [.clear 0, .swap 0, .clear 1, .swap 1] := by
  intro size acts
  have hrun : solo.run solo.init acts = some _ := rfl
  obtain ⟨-, -, h⟩ := one_app_at_a_time _ (Machine.reachable_of_run .init hrun)
  obtain ⟨v, hw, hv, hc, -⟩ := h 1 _ rfl
  have hid : 1 = v.id := Option.some.inj hw
  refine ⟨_, hrun, ?_, hc.trans (congrArg some hid.symm), rfl⟩
  rw [Glfw.ids, hv, List.map_singleton, ← hid]

end Process

end BoomEd
