import BoomEd.CmdScope
import BoomEd.PlatformApp
/-!
# The program (`app/app.cpp`, `platform/main.cpp`)

`app::app` starts the platform, then makes two commands in a pool of its own and drops them again. `main`
constructs one app and runs its loop. There is no handler anywhere, so whether an exception unwinds the
scopes on its way out of `main` is left to the implementation: it is an argument here, `unwinds`.
`program_ends` says how the program can end and what it leaves.

| here | there |
| --- | --- |
| `App.body`         | the body of `app::app` (app.cpp:8-14) |
| `App.construct`    | app.cpp:6-14 |
| `PlatformApp.run`  | the loop, app.cpp:46-56 of the platform |
| `main`             | main.cpp:7-11 |
-/

namespace BoomEd

open Cxx Glfw

/-! ## The loop -/

namespace PlatformApp

/-- Window `w` is asked to close at the start or in one of the polls. -/
def closes (w : Nat) (close : Bool) (polls : List (List Nat)) : Bool :=
  close || polls.any fun closed => decide (w ∈ closed)

/-- The turns of the loop until then. -/
def frames (w : Nat) : Bool → List (List Nat) → Nat
  | true, _ => 0
  | false, [] => 0
  | false, closed :: polls => frames w (decide (w ∈ closed)) polls + 1

@[simp] theorem frames_true (w : Nat) (polls : List (List Nat)) : frames w true polls = 0 := by
  cases polls <;> rfl

def drawings (w k : Nat) : List Draw := (List.replicate k [Draw.clear w, Draw.swap w]).flatten

/-- The library with one window, and a context or none. -/
structure Alone (w : Nat) (close : Bool) (c : Option Nat) (g : Glfw) : Prop where
  initialized : g.initialized
  windows : g.windows = [⟨w, close⟩]
  current : g.current = c

variable {w : Nat} {close : Bool} {c : Option Nat} {g : Glfw}

theorem Alone.shouldClose (h : Alone w close c g) :
    glfwWindowShouldClose (some w) g = some (close, g) := by
  simp [glfwWindowShouldClose, h.initialized, h.windows]

theorem Alone.exec_iterate (h : Alone w close c g) (closed : List Nat) :
    Prog.exec (iterate ⟨some w⟩ closed) g =
      (turned ⟨w, close⟩ closed g).map fun (b, g') => (.ok b, g') :=
  PlatformApp.exec_iterate h.initialized rfl (by simp [h.windows])

theorem Alone.frame (h : Alone w false c g) (k : Nat) (closed : List Nat) :
    Alone w (decide (w ∈ closed)) c (frame w k closed g) where
  initialized := h.initialized
  windows := by simp [PlatformApp.frame, asked, h.windows]
  current := h.current

theorem exec_run_closed (h : Alone w true c g) (polls : List (List Nat)) :
    Prog.exec (run ⟨some w⟩ polls) g = some (.ok true, g) := by
  cases polls with
  | nil => simp [run, h.shouldClose]
  | cons closed polls => simp [run, Prog.exec_bind, h.exec_iterate, turned]

/-- With its context the window is cleared and swapped once a turn, until the condition of the loop finds
that it was asked to close. -/
theorem exec_run (polls : List (List Nat)) : ∀ close g, Alone w close (some w) g →
    ∃ g', Prog.exec (run ⟨some w⟩ polls) g = some (.ok (closes w close polls), g') ∧
      Alone w (closes w close polls) (some w) g' ∧
      g'.calls = g.calls ++ drawings w (frames w close polls) := by
  induction polls with
  | nil =>
    intro close g h
    refine ⟨g, ?_, ?_, ?_⟩
    · simp [run, h.shouldClose, closes]
    · simpa [closes] using h
    · cases close <;> simp [frames, drawings]
  | cons closed polls ih =>
    intro close g h
    cases close with
    | true => exact ⟨g, exec_run_closed h _, h, by simp [frames, drawings]⟩
    | false =>
      have hiter : Prog.exec (iterate ⟨some w⟩ closed) g = some (.ok true, frame w w closed g) := by
        rw [h.exec_iterate, turned, h.current]
        rfl
      obtain ⟨g', hexec, halone, hcalls⟩ := ih _ _ (h.frame w closed)
      refine ⟨g', ?_, halone, ?_⟩
      · show Prog.exec (iterate ⟨some w⟩ closed >>= _) g = _
        rw [Prog.exec_bind_ok hiter]
        exact hexec
      · rw [hcalls]
        simp [frames, drawings, frame, List.replicate_succ]

/-- Without a context the first turn is undefined. -/
theorem exec_run_detached (h : Alone w false none g) (polls : List (List Nat)) :
    Prog.exec (run ⟨some w⟩ polls) g = if polls = [] then some (.ok false, g) else none := by
  cases polls with
  | nil => simp [run, h.shouldClose]
  | cons closed polls => simp [run, Prog.exec_bind, h.exec_iterate, turned, h.current]

end PlatformApp

/-! ## The program -/

/-- The library and the commands. -/
structure Sys where
  glfw : Glfw
  cmds : State Command

/-- What the program calls out to: the platform, the two allocations and constructors. -/
structure AppEnv where
  platform : InitEnv
  addVertex : World Command → Env
  sentinel : World Command → Env

def onGlfw {α : Type} (x : Prog Thrown Glfw α) : Prog Thrown Sys α :=
  Prog.zoom Sys.glfw (fun g s => { s with glfw := g }) x

def onCmds {α : Type} (x : Prog Exn (State Command) α) : Prog Thrown Sys α := ExceptT.mk fun s =>
  (Prog.exec x s.cmds).map fun (r, t) => (r.mapError Thrown.cmd, { s with cmds := t })

namespace App

/-- app.cpp:10-13, with the pool of this app in `f`. -/
def body (unwinds : Bool) (f : CmdFactory) (env : AppEnv) : Prog Exn (State Command) Unit :=
  Prog.scope unwinds (makeLocal f .addVertex env.addVertex) (fun _ => dropLocal) fun _ =>
    Prog.scope unwinds (makeLocal f .sentinel env.sentinel) (fun _ => dropLocal) fun _ => pure ()

/-- app.cpp:6: what leaves the body destroys the base, where there is unwinding. -/
def construct (unwinds : Bool) (f : CmdFactory) (size : Vec2 (SInt IntType.int32)) (env : AppEnv) :
    Prog Thrown Sys PlatformApp := do
  let base ← onGlfw (PlatformApp.construct size env.platform)
  tryCatch (onCmds (body unwinds f env)) fun e => do
    if unwinds then
      onGlfw base.destroy
    throw e
  return base

end App

/-- `vec2<std::int32_t>{1280, 960}` (main.cpp:9). -/
def mainSize : Vec2 (SInt IntType.int32) := ⟨Arith.lit 1280, Arith.lit 960⟩

/-- main.cpp:7, as far as the polls in the list; without an outcome while the loop is still running. -/
def main (unwinds : Bool) (f : CmdFactory) (env : AppEnv) (polls : List (List Nat)) :
    Prog Thrown Sys Unit :=
  Prog.scope unwinds (App.construct unwinds f mainSize env) (fun a => onGlfw a.destroy) fun a => do
    if ← onGlfw (a.run polls) then pure () else Prog.undefined

/-! ## The body -/

section Ends

variable {unwinds : Bool} {f : CmdFactory} {env : AppEnv} {polls : List (List Nat)} {s : Sys}

/-- Before `main`: the library is down and there are no commands. -/
def start : Sys := ⟨Glfw.empty, ⟨World.empty, []⟩⟩

/-- The two calls of `make` in the body are promised fresh blocks. -/
structure AppEnv.Honest (env : AppEnv) : Prop where
  addVertex : BoomEd.Honest Command.addVertex env.addVertex
  sentinel : BoomEd.Honest Command.sentinel env.sentinel

/-- No command is left. -/
def NoCommands (t : State Command) : Prop :=
  t.world.blocks = [] ∧ t.world.inner = [] ∧ t.slots = []

/-- The first command is left, in its variable. -/
def FirstLeft (f : CmdFactory) (t : State Command) : Prop :=
  ∃ b, t.world.blocks = [b] ∧ b.obj = some .addVertex ∧ t.slots = [f.handle .addVertex b.addr]

theorem noCommands_of_slots {t : State Command} (h : Ledger f t) (hslots : t.slots = []) :
    NoCommands t := by
  obtain ⟨hblocks, hinner⟩ := h.nothing_out (by rw [State.live, hslots]; rfl)
  exact ⟨hblocks, hinner, hslots⟩

/-- The body returns or throws. It leaves a command only where it throws without unwinding, and then the
first, if that was made. -/
theorem exec_body (unwinds : Bool) (f : CmdFactory) (h : env.Honest) :
    ∃ r t, Prog.exec (App.body unwinds f env) start.cmds = some (r, t) ∧
      (unwinds = true ∨ r = .ok () → NoCommands t) ∧
      (unwinds = false → ∀ e, r = .error e →
        if (env.addVertex World.empty).thrown.isSome then NoCommands t else FirstLeft f t) := by
  have h₀ : Ledger f start.cmds := ledger_empty f
  cases ht : (env.addVertex World.empty).thrown with
  | some e =>
    obtain ⟨t, -, hexec, h₁, hslots, -⟩ := exec_makeLocal_throws h₀ h.addVertex ht
    have hnone := noCommands_of_slots h₁ hslots
    exact ⟨.error e, t, Prog.exec_scope_throws hexec, fun _ => hnone, fun _ _ _ => hnone⟩
  | none =>
    obtain ⟨p, t₁, hmake, h₁, hslots₁, hblocks₁, -⟩ := exec_makeLocal_returns h₀ h.addVertex ht
    have hslots : t₁.slots = [f.handle .addVertex p] := hslots₁
    cases ht' : (env.sentinel t₁.world).thrown with
    | some e =>
      obtain ⟨t₂, -, hexec, h₂, hslots₂, hblocks₂, -⟩ := exec_makeLocal_throws h₁ h.sentinel ht'
      have hslots' : t₂.slots = [f.handle .addVertex p] := hslots₂.trans hslots
      obtain ⟨t₃, hdrop, h₃, hslots₃⟩ := exec_dropLocal h₂ (by simp [hslots'])
      have hnone : NoCommands t₃ := noCommands_of_slots h₃ (by rw [hslots₃, hslots']; rfl)
      refine ⟨.error e, _, Prog.exec_scope_error hmake (Prog.exec_scope_throws hexec) hdrop,
        fun hu => ?_, fun hu _ _ => ?_⟩
      · obtain rfl : unwinds = true := hu.resolve_right (by simp)
        exact hnone
      · subst hu
        exact ⟨_, hblocks₂.trans hblocks₁, rfl, hslots'⟩
    | none =>
      obtain ⟨q, t₂, hmake', h₂, hslots₂, -⟩ := exec_makeLocal_returns h₁ h.sentinel ht'
      obtain ⟨t₃, hdrop, h₃, hslots₃⟩ := exec_dropLocal h₂ (by simp [hslots₂])
      have hslots' : t₃.slots = [f.handle .addVertex p] := by
        rw [hslots₃, hslots₂, List.dropLast_concat, hslots]
      obtain ⟨t₄, hdrop', h₄, hslots₄⟩ := exec_dropLocal h₃ (by simp [hslots'])
      have hnone : NoCommands t₄ := noCommands_of_slots h₄ (by rw [hslots₄, hslots']; rfl)
      exact ⟨.ok (), t₄, Prog.exec_scope_ok hmake (Prog.exec_scope_ok hmake' rfl hdrop) hdrop',
        fun _ => hnone, fun _ _ he => by cases he⟩

/-! ## The app -/

theorem exec_onGlfw {α : Type} {x : Prog Thrown Glfw α} {r : Except Thrown α} {g : Glfw}
    (h : Prog.exec x s.glfw = some (r, g)) :
    Prog.exec (onGlfw x) s = some (r, { s with glfw := g }) := Prog.exec_zoom h

theorem exec_onCmds {α : Type} {x : Prog Exn (State Command) α} {r : Except Exn α}
    {t : State Command} (h : Prog.exec x s.cmds = some (r, t)) :
    Prog.exec (onCmds x) s = some (r.mapError Thrown.cmd, { s with cmds := t }) := by
  show (Prog.exec x s.cmds).map _ = _
  rw [h]
  rfl

/-- The context there is once the first app has asked for that of its window. -/
def InitEnv.context (env : InitEnv) : Option Nat := env.attach.pick 0 (env.restore.pick 0 none)

/-- The library with the window of the app. -/
def running (env : InitEnv) : Glfw := PlatformApp.opened env (PlatformApp.started Glfw.empty)

theorem alone_running (env : InitEnv) :
    PlatformApp.Alone 0 (decide (0 ∈ env.closed)) env.context (running env) where
  initialized := rfl
  windows := by simp [running, PlatformApp.opened, PlatformApp.started, asked, Glfw.empty, zeroed]
  current := rfl

theorem exec_destroy_alone {w : Nat} {close : Bool} {c : Option Nat} {g : Glfw}
    (h : PlatformApp.Alone w close c g) :
    Prog.exec (PlatformApp.destroy ⟨some w⟩) g = some (.ok (), g.zeroed) := by
  simp [PlatformApp.exec_destroy, h.initialized, ids, h.windows]

/-- The base of the app in `main`. -/
theorem exec_base (env : InitEnv) :
    Prog.exec (onGlfw (PlatformApp.construct mainSize env)) start =
      if !env.init then some (.error (.runtimeError "Could not initialize GLFW"), start)
      else if !env.create then
        some (.error (.runtimeError "Could not create GLFW window"),
          { start with glfw := PlatformApp.started Glfw.empty })
      else some (.ok ⟨some 0⟩, { start with glfw := running env }) := by
  have hbase : Prog.exec (PlatformApp.construct mainSize env) start.glfw = _ :=
    PlatformApp.exec_construct (by decide)
  have hmakes : PlatformApp.makesWindow mainSize env = env.create := by
    cases h : env.create <;> simp only [PlatformApp.makesWindow, h] <;> decide
  have hrefused : PlatformApp.refused mainSize env (PlatformApp.started Glfw.empty) =
      PlatformApp.started Glfw.empty := by
    rw [PlatformApp.refused, if_neg (by decide)]
    cases env.restore <;> rfl
  have hstarted : PlatformApp.started start.glfw = PlatformApp.started Glfw.empty := rfl
  rw [hmakes, hstarted, hrefused] at hbase
  cases hi : env.init with
  | false =>
    rw [hi] at hbase
    exact exec_onGlfw (s := start) hbase
  | true =>
    cases hc : env.create with
    | false =>
      rw [hi, hc] at hbase
      exact exec_onGlfw (s := start) hbase
    | true =>
      rw [hi, hc] at hbase
      exact exec_onGlfw (s := start) hbase

/-- If the base throws, so does `main`. -/
theorem exec_main_of_base (unwinds : Bool) (f : CmdFactory) (polls : List (List Nat)) {e : Thrown}
    {s' : Sys} (hbase : Prog.exec (onGlfw (PlatformApp.construct mainSize env.platform)) start =
      some (.error e, s')) : Prog.exec (main unwinds f env polls) start = some (.error e, s') :=
  Prog.exec_scope_throws (Prog.exec_bind_error hbase)

section Body

variable {t : State Command} (hbase : Prog.exec (onGlfw (PlatformApp.construct mainSize
  env.platform)) start = some (.ok ⟨some 0⟩, { start with glfw := running env.platform }))

include hbase

/-- The app when its body throws, -/
theorem exec_app_throws {e : Exn}
    (hbody : Prog.exec (App.body unwinds f env) start.cmds = some (.error e, t)) :
    Prog.exec (App.construct unwinds f mainSize env) start = some (.error (.cmd e),
      ⟨if unwinds then (running env.platform).zeroed else running env.platform, t⟩) := by
  have hbody' := exec_onCmds (s := { start with glfw := running env.platform }) hbody
  have hunwind := exec_onGlfw (s := ⟨running env.platform, t⟩)
    (exec_destroy_alone (alone_running env.platform))
  cases unwinds <;>
    simp [App.construct, Prog.exec_bind, Prog.exec_tryCatch, hbase, hbody', hunwind,
      Except.mapError, Except.map]

/-- and when it returns. -/
theorem exec_app_returns
    (hbody : Prog.exec (App.body unwinds f env) start.cmds = some (.ok (), t)) :
    Prog.exec (App.construct unwinds f mainSize env) start =
      some (.ok ⟨some 0⟩, ⟨running env.platform, t⟩) := by
  have hbody' := exec_onCmds (s := { start with glfw := running env.platform }) hbody
  simp [App.construct, Prog.exec_bind, Prog.exec_tryCatch, hbase, hbody', Except.mapError,
    Except.map]

end Body

/-! ## The end -/

theorem context_eq (env : InitEnv) : env.context = none ∨ env.context = some 0 := by
  cases h : env.context with
  | none => exact .inl rfl
  | some c =>
    rcases Process.pick_eq_some h with rfl | h
    · exact .inr rfl
    · rcases Process.pick_eq_some h with rfl | h
      · exact .inr rfl
      · cases h

/-- The window was not asked to close while it was made, and there is no context for the first turn of
the loop or no poll closes the window. -/
def GoesOn (env : InitEnv) (polls : List (List Nat)) : Prop :=
  0 ∉ env.closed ∧ (env.context = none ∨ ∀ closed ∈ polls, 0 ∉ closed)

section Loop

variable {t : State Command} {g : Glfw}

/-- The loop of the app in `main`, whether it has ended or not. -/
theorem exec_loop (env : InitEnv) (polls : List (List Nat)) (hc : env.context = some 0) : ∃ g,
    Prog.exec (PlatformApp.run ⟨some 0⟩ polls) (running env) =
      some (.ok (PlatformApp.closes 0 (decide (0 ∈ env.closed)) polls), g) ∧
    g.calls = PlatformApp.drawings 0 (PlatformApp.frames 0 (decide (0 ∈ env.closed)) polls) := by
  have halone := alone_running env
  rw [hc] at halone
  obtain ⟨g, hrun, -, hcalls⟩ := PlatformApp.exec_run polls _ _ halone
  exact ⟨g, hrun, hcalls⟩

/-- `main` when its loop ends, -/
theorem exec_main_ends (happ : Prog.exec (App.construct unwinds f mainSize env) start =
      some (.ok ⟨some 0⟩, ⟨running env.platform, t⟩))
    (hrun : Prog.exec (PlatformApp.run ⟨some 0⟩ polls) (running env.platform) = some (.ok true, g))
    {close : Bool} {c : Option Nat} (hg : PlatformApp.Alone 0 close c g) :
    Prog.exec (main unwinds f env polls) start = some (.ok (), ⟨g.zeroed, t⟩) := by
  have hloop := exec_onGlfw (s := ⟨running env.platform, t⟩) hrun
  have hdrop := exec_onGlfw (s := ⟨g, t⟩) (exec_destroy_alone hg)
  refine Prog.exec_scope_ok happ ?_ hdrop
  rw [Prog.exec_bind_ok hloop, if_pos rfl, Prog.exec_pure]

/-- and when it goes on or is undefined. -/
theorem exec_main_none (happ : Prog.exec (App.construct unwinds f mainSize env) start =
      some (.ok ⟨some 0⟩, ⟨running env.platform, t⟩))
    (hrun : Prog.exec (PlatformApp.run ⟨some 0⟩ polls) (running env.platform) = none ∨
      ∃ g, Prog.exec (PlatformApp.run ⟨some 0⟩ polls) (running env.platform) = some (.ok false, g)) :
    Prog.exec (main unwinds f env polls) start = none := by
  have hbody : Prog.exec (do
      if ← onGlfw (PlatformApp.run ⟨some 0⟩ polls) then pure () else Prog.undefined)
      (⟨running env.platform, t⟩ : Sys) = none := by
    rcases hrun with hrun | ⟨g, hrun⟩
    · have hloop : Prog.exec (onGlfw (PlatformApp.run ⟨some 0⟩ polls))
          (⟨running env.platform, t⟩ : Sys) = none := by
        show (Prog.exec _ _).map _ = none
        rw [hrun]
        rfl
      rw [Prog.exec_bind, hloop]
      rfl
    · rw [Prog.exec_bind_ok (exec_onGlfw (s := ⟨running env.platform, t⟩) hrun)]
      rfl
  exact Prog.exec_scope_none happ hbody

/-- `main` once its app stands. -/
theorem exec_main_of_app (polls : List (List Nat))
    (happ : Prog.exec (App.construct unwinds f mainSize env) start =
      some (.ok ⟨some 0⟩, ⟨running env.platform, t⟩)) :
    (GoesOn env.platform polls → Prog.exec (main unwinds f env polls) start = none) ∧
    (¬ GoesOn env.platform polls → ∃ g : Glfw,
      Prog.exec (main unwinds f env polls) start = some (.ok (), ⟨g.zeroed, t⟩) ∧
      g.calls = PlatformApp.drawings 0
        (PlatformApp.frames 0 (decide (0 ∈ env.platform.closed)) polls)) := by
  have halone := alone_running env.platform
  by_cases hclosed : 0 ∈ env.platform.closed
  · rw [decide_eq_true hclosed] at halone ⊢
    have hrun := PlatformApp.exec_run_closed halone polls
    exact ⟨fun hgo => absurd hclosed hgo.1, fun _ =>
      ⟨_, exec_main_ends happ hrun halone, by rw [PlatformApp.frames_true]; rfl⟩⟩
  · rw [decide_eq_false hclosed] at halone ⊢
    rcases context_eq env.platform with hc | hc
    · rw [hc] at halone
      have hrun := PlatformApp.exec_run_detached halone polls
      refine ⟨fun _ => exec_main_none happ ?_, fun hgo => absurd ⟨hclosed, .inl hc⟩ hgo⟩
      by_cases hp : polls = []
      · exact .inr ⟨_, hrun.trans (if_pos hp)⟩
      · exact .inl (hrun.trans (if_neg hp))
    · rw [hc] at halone
      obtain ⟨g, hrun, hg, hcalls⟩ := PlatformApp.exec_run polls _ _ halone
      have hiff : PlatformApp.closes 0 false polls = true ↔ ¬ GoesOn env.platform polls := by
        simp [PlatformApp.closes, GoesOn, hclosed, hc]
      constructor
      · intro hgo
        refine exec_main_none happ (.inr ⟨g, ?_⟩)
        rw [hrun, Bool.eq_false_iff.2 (fun hy => hiff.1 hy hgo)]
      · intro hgo
        rw [hiff.2 hgo] at hrun
        exact ⟨g, exec_main_ends happ hrun hg, hcalls⟩

end Loop

/-- Nothing of the program is left: no window, no context, no command. -/
structure Quiet (s : Sys) : Prop where
  windows : s.glfw.windows = []
  current : s.glfw.current = none
  commands : NoCommands s.cmds

/-- **How the program ends.** Whatever the platform, the allocator, the two constructors and the user do.
The program has no outcome just when its app stands, its window was not asked to close while it was made,
and either it has no context, so that the first turn of the loop is undefined, or no poll so far closes
it. It throws just when GLFW does not start, the window is not made or the body of the app throws. The
loop has called one clear and one swap of its window for each poll up to the closing one; a program that
throws has called none. In every outcome no window, context or command is left, and the library is down
unless its window could not be made; only where an exception of the body is not unwound the window stays,
and the first command if that had been made. -/
theorem program_ends (unwinds : Bool) (f : CmdFactory) (env : AppEnv) (h : env.Honest)
    (polls : List (List Nat)) :
    (Prog.exec (main unwinds f env polls) start = none ↔
      env.platform.init = true ∧ env.platform.create = true ∧
      (∃ t, Prog.exec (App.body unwinds f env) start.cmds = some (.ok (), t)) ∧
      GoesOn env.platform polls) ∧
    (env.platform.context = some 0 → ∃ g,
      Prog.exec (PlatformApp.run ⟨some 0⟩ polls) (running env.platform) =
        some (.ok (PlatformApp.closes 0 (decide (0 ∈ env.platform.closed)) polls), g) ∧
      g.calls = PlatformApp.drawings 0
        (PlatformApp.frames 0 (decide (0 ∈ env.platform.closed)) polls)) ∧
    ∀ r s, Prog.exec (main unwinds f env polls) start = some (r, s) →
      ((r = .ok () ↔ env.platform.init = true ∧ env.platform.create = true ∧
          ∃ t, Prog.exec (App.body unwinds f env) start.cmds = some (.ok (), t)) ∧
        (r = .error (.runtimeError "Could not initialize GLFW") ↔ env.platform.init = false) ∧
        (r = .error (.runtimeError "Could not create GLFW window") ↔
          env.platform.init = true ∧ env.platform.create = false) ∧
        ∀ e, r = .error (.cmd e) ↔ env.platform.init = true ∧ env.platform.create = true ∧
          ∃ t, Prog.exec (App.body unwinds f env) start.cmds = some (.error e, t)) ∧
      (r = .ok () → s.glfw.calls = PlatformApp.drawings 0
        (PlatformApp.frames 0 (decide (0 ∈ env.platform.closed)) polls)) ∧
      (∀ e, r = .error e → s.glfw.calls = []) ∧
      ((Quiet s ∧ (s.glfw.initialized = true ↔
          r = .error (.runtimeError "Could not create GLFW window"))) ∨
        unwinds = false ∧ (∃ e, r = .error (.cmd e)) ∧ s.glfw = running env.platform ∧
          if (env.addVertex World.empty).thrown.isSome then NoCommands s.cmds
          else FirstLeft f s.cmds) := by
  obtain ⟨r, t, hbody, hnone, hleft⟩ := exec_body unwinds f h
  have hbase := exec_base env.platform
  have hloop := exec_loop env.platform polls
  cases hi : env.platform.init with
  | false =>
    rw [hi] at hbase
    have hmain := exec_main_of_base unwinds f polls hbase
    rw [hmain]
    refine ⟨by simp, hloop, ?_⟩
    rintro r s hs
    cases hs
    exact ⟨by simp, by simp, fun _ _ => rfl, .inl ⟨⟨rfl, rfl, rfl, rfl, rfl⟩, by decide⟩⟩
  | true =>
    cases hc : env.platform.create with
    | false =>
      rw [hi, hc] at hbase
      have hmain := exec_main_of_base unwinds f polls hbase
      rw [hmain]
      refine ⟨by simp, hloop, ?_⟩
      rintro r s hs
      cases hs
      exact ⟨by simp, by simp, fun _ _ => rfl, .inl ⟨⟨rfl, rfl, rfl, rfl, rfl⟩, by decide⟩⟩
    | true =>
      rw [hi, hc] at hbase
      cases r with
      | error e =>
        have hmain : Prog.exec (main unwinds f env polls) start = _ :=
          Prog.exec_scope_throws (exec_app_throws hbase hbody)
        rw [hmain]
        refine ⟨by simp [hbody], hloop, ?_⟩
        rintro r s hs
        cases hs
        refine ⟨by simp [hbody, eq_comm], by simp, fun _ _ => ?_, ?_⟩
        · cases unwinds <;> rfl
        · cases unwinds with
          | true => exact .inl ⟨⟨rfl, rfl, hnone (.inl rfl)⟩, by simp [zeroed]⟩
          | false => exact .inr ⟨rfl, ⟨e, rfl⟩, rfl, hleft rfl e rfl⟩
      | ok u =>
        obtain ⟨hgo, hend⟩ := exec_main_of_app polls (exec_app_returns hbase hbody)
        by_cases hgoes : GoesOn env.platform polls
        · rw [hgo hgoes]
          exact ⟨by simp [hbody, hgoes], hloop, by simp⟩
        · obtain ⟨g, hmain, hcalls⟩ := hend hgoes
          rw [hmain]
          refine ⟨by simp [hgoes], hloop, ?_⟩
          rintro r s hs
          cases hs
          exact ⟨by simp [hbody], fun _ => hcalls, by simp,
            .inl ⟨⟨rfl, rfl, hnone (.inr rfl)⟩, by simp [zeroed]⟩⟩

/-- The user closes the window in the last of two polls. -/
theorem program_ends_second :
    let made : World Command → Env := fun w => ⟨.ok (top w), .returns []⟩
    ∃ s, Prog.exec (main true ⟨⟨0⟩⟩ ⟨.willing, made, made⟩ [[], [0]]) start = some (.ok (), s) ∧
      Quiet s ∧ s.glfw.initialized = false ∧
      s.glfw.calls = [.clear 0, .swap 0, .clear 0, .swap 0] := by
  intro made
  obtain ⟨hnone, -, h⟩ := program_ends true ⟨⟨0⟩⟩ ⟨.willing, made, made⟩
    ⟨honest_top _ _, honest_top _ _⟩ [[], [0]]
  obtain ⟨⟨r, s⟩, hs⟩ := Option.ne_none_iff_exists'.1 fun hn =>
    absurd (hnone.1 hn).2.2.2.2 (by decide)
  obtain ⟨⟨hok, -⟩, hcalls, -, hend⟩ := h r s hs
  obtain rfl : r = .ok () := hok.2 ⟨rfl, rfl, _, rfl⟩
  rcases hend with ⟨hquiet, hup⟩ | ⟨hfalse, -⟩
  · exact ⟨s, hs, hquiet, by simpa using hup, hcalls rfl⟩
  · cases hfalse

end Ends

end BoomEd
