import BoomEd.Lib.Scope
import Mathlib.Data.List.Basic
/-!
# The window library, as far as the application uses it (`extern/glfw-3.4`)

The global `_glfw`, reduced to the window list, the context of the main thread and the record of the
drawing calls that the application makes. What the platform below does is an argument: it may fail to
start, to make a window, or to make a context current or current again, and windows are asked to close
while a window is made and while events are polled. `none` is undefined behaviour or a failed `assert`:
using a window that is no longer in the list, drawing without a context.

| here | there |
| --- | --- |
| `Glfw`                  | `_glfw` (internal.h), zeroed by `terminate` (init.c:94-140) |
| `glfwInit`              | init.c:386-430 |
| `glfwTerminate`         | init.c:432-438 |
| `glfwCreateWindow`      | window.c:180-253 |
| `glfwDestroyWindow`     | window.c:468-500 |
| `glfwWindowShouldClose` | window.c:502-509 |
| `glfwPollEvents`        | window.c:1139-1143 |
| `glfwMakeContextCurrent`| context.c:616-641 |
| `glfwSwapBuffers`       | context.c:648-663 |
| `glClear`               | OpenGL: into the window of the current context |

`calls` is about the calls, not about what gets on the screen: it leaves out that the library itself
clears and swaps a window it makes (context.c:568-577), and that a platform may ignore a swap (EGL does
when the window does not have the context or, on Wayland, is not visible, egl_context.c:273-287). Window
hints, the swap interval and the loaded function pointers change nothing here, and a context can always
be let go of.
-/

namespace BoomEd

/-- A `_GLFWwindow`. `id` stands for its address; an address is not used twice, for to use it after the
window is gone is undefined whatever lies there. -/
structure Window where
  id : Nat
  shouldClose : Bool
deriving DecidableEq

/-- A drawing call: `glClear` in the context of window `w`, or `glfwSwapBuffers` of `w`. -/
inductive Draw where
  | clear (w : Nat)
  | swap (w : Nat)
deriving DecidableEq

/-- What comes of asking for the context of a window: that context, the one before, or none
(wgl_context.c:303-312; GLX and EGL keep the one before). -/
inductive Switch where
  | taken
  | kept
  | lost
deriving DecidableEq

def Switch.pick (w : Nat) (old : Option Nat) : Switch → Option Nat
  | taken => some w
  | kept => old
  | lost => none

structure Glfw where
  initialized : Bool
  /-- From the newest, as `windowListHead` links them. -/
  windows : List Window
  current : Option Nat
  /-- The number of windows made so far. -/
  next : Nat
  calls : List Draw
deriving DecidableEq

namespace Glfw

def empty : Glfw := ⟨false, [], none, 0, []⟩

def ids (g : Glfw) : List Nat := g.windows.map Window.id

/-- `memset(&_glfw, 0, sizeof(_glfw))`. -/
def zeroed (g : Glfw) : Glfw := { g with initialized := false, windows := [], current := none }

/-- `ok`: the platform starts. -/
def glfwInit (ok : Bool) (g : Glfw) : Option (Bool × Glfw) :=
  if g.initialized then some (true, g)
  else if ok then some (true, { g.zeroed with initialized := true })
  else some (false, g.zeroed)

/-- `_glfwInputWindowCloseRequest` (window.c:158-166) for the windows in `closed`. -/
def asked (closed : List Nat) (g : Glfw) : Glfw :=
  { g with windows := g.windows.map fun v => { v with shouldClose := v.shouldClose || v.id ∈ closed } }

/-- `ok`: the platform makes the window. If not, it is unlinked again. On the way its context is current
for a while; `restore` is what comes of asking for the one before again (context.c:362-365, 579), where
`taken` leaves the new one. -/
def glfwCreateWindow (width height : Int) (ok : Bool) (restore : Switch) (closed : List Nat) (g : Glfw) :
    Option (Option Nat × Glfw) :=
  if width < 0 ∨ height < 0 then none
  else if !g.initialized then some (none, g)
  else if width = 0 ∨ height = 0 then some (none, g)
  else if ok then
    some (some g.next, asked closed { g with
      windows := ⟨g.next, false⟩ :: g.windows
      current := restore.pick g.next g.current
      next := g.next + 1 })
  else some (none, asked closed { g with current := if restore = .kept then g.current else none })

/-- A null pointer is allowed. The context of the window is detached first. -/
def glfwDestroyWindow (window : Option Nat) (g : Glfw) : Option (Unit × Glfw) :=
  if !g.initialized then some ((), g)
  else
    match window with
    | none => some ((), g)
    | some w =>
      if w ∈ g.ids then
        some ((), { g with
          windows := g.windows.filter fun v => v.id ≠ w
          current := if g.current = some w then none else g.current })
      else none

/-- Destroys what windows there are. -/
def glfwTerminate (g : Glfw) : Option (Unit × Glfw) :=
  if !g.initialized then some ((), g) else some ((), g.zeroed)

/-- Without an initialized library it reports an error and says no. -/
def glfwWindowShouldClose (window : Option Nat) (g : Glfw) : Option (Bool × Glfw) :=
  match window with
  | none => none
  | some w =>
    if !g.initialized then some (false, g)
    else
      match g.windows.find? fun v => v.id = w with
      | none => none
      | some v => some (v.shouldClose, g)

/-- The windows in `closed` are asked to close, now or at any time until the next call that looks. -/
def glfwPollEvents (closed : List Nat) (g : Glfw) : Option (Unit × Glfw) :=
  if !g.initialized then some ((), g) else some ((), asked closed g)

def glfwMakeContextCurrent (window : Option Nat) (attach : Switch) (g : Glfw) : Option (Unit × Glfw) :=
  if !g.initialized then some ((), g)
  else
    match window with
    | none => some ((), { g with current := none })
    | some w => if w ∈ g.ids then some ((), { g with current := attach.pick w g.current }) else none

def glfwSwapBuffers (window : Option Nat) (g : Glfw) : Option (Unit × Glfw) :=
  match window with
  | none => none
  | some w =>
    if !g.initialized then some ((), g)
    else if w ∈ g.ids then some ((), { g with calls := g.calls ++ [.swap w] })
    else none

def glClear (g : Glfw) : Option (Unit × Glfw) :=
  match g.current with
  | none => none
  | some w => some ((), { g with calls := g.calls ++ [.clear w] })

end Glfw

end BoomEd
