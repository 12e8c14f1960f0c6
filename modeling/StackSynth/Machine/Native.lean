import StackSynth.Machine.Stack
import StackSynth.Number.Sample

/-!
# What natives and tickers act on

A native is behaviour that a program can invoke by name: it takes values from the operand stack,
puts values back, and may read and change the world around the stack. That world is a `Rig`: two
output registers, the transport flag, and a state `σ` that belongs to the modules. A ticker advances
that world by one frame and never sees the stack.

The state `σ` stays a parameter: the machine, the scheduler and the compiler work for every choice
of modules.
-/

namespace StackSynth

/-- What programs and modules share besides the operand stack. -/
structure Rig (σ : Type) where
  /-- The left output register. -/
  left : Sample := .zero
  /-- The right output register. -/
  right : Sample := .zero
  /-- Whether the transport runs. -/
  playing : Bool := false
  /-- The state of the modules. -/
  modules : σ

/-- Both output registers at silence. -/
def Rig.silence {σ : Type} (p : Rig σ) : Rig σ := { p with left := .zero, right := .zero }

/-- Flips the transport and gives its new state. -/
def Rig.toggle {σ : Type} (p : Rig σ) : Bool × Rig σ :=
  (!p.playing, { p with playing := !p.playing })

/-- What a program runs on: the operand stack and the rig. -/
structure Bench (σ : Type) where
  /-- The operand stack. -/
  stack : Stack
  /-- Everything else. -/
  rig : Rig σ

/-- An action on a bench that may misuse the stack. -/
abbrev NativeM (σ : Type) := ExceptT StackError (StateM (Bench σ))

/-- A behaviour that programs invoke by name. -/
abbrev Native (σ : Type) := NativeM σ Unit

/-- A behaviour that runs once per frame, before the program. -/
abbrev Ticker (σ : Type) := Rig σ → Rig σ

namespace Native

variable {σ : Type} {α : Type}

/-- A stack operation as an action on the whole bench. -/
def onStack (op : StackM α) : NativeM σ α := fun ⟨stack, rig⟩ =>
  let (result, stack) := op stack
  (result, ⟨stack, rig⟩)

/-- Reads and changes the rig. -/
def onRig (f : Rig σ → α × Rig σ) : NativeM σ α := fun ⟨stack, rig⟩ =>
  let (result, rig) := f rig
  (.ok result, ⟨stack, rig⟩)

/-- Reads and changes the state of the modules. -/
def onModules (f : σ → α × σ) : NativeM σ α :=
  onRig fun ⟨left, right, playing, modules⟩ =>
    let (result, modules) := f modules
    (result, ⟨left, right, playing, modules⟩)

/-- Adds a value on top of the stack. -/
def push (x : Float) : NativeM σ Unit := onStack (StackM.push x)

/-- Removes the value on top of the stack. -/
def pop : NativeM σ Float := onStack StackM.pop

/-- Removes the two values on top of the stack, the earlier one first. -/
def pop2 : NativeM σ (Float × Float) := onStack StackM.pop2

/-- Pushes a number. -/
def constant (x : Float) : NativeM σ Unit := push x

/-- Replaces the value on top by a function of it. -/
def unary (f : Float → Float) : NativeM σ Unit := do
  let a ← pop
  push (f a)

/-- Replaces the two values on top by a function of them. -/
def binary (f : Float → Float → Float) : NativeM σ Unit := do
  let (a, b) ← pop2
  push (f a b)

end Native

end StackSynth
