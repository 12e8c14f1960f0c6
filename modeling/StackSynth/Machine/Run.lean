import StackSynth.Language.Instruction

/-!
# Running a program

Execution goes through the steps of a program from front to back and through the body of a called
word in its place. It stops at the first step that misuses the stack; the fault names that step, so
inside a word it names the innermost step and not the word, and the stack stays as the step left
it.
-/

namespace StackSynth

/-- A failed run: what happened, and the name of the step that did it. -/
inductive Fault where
  /-- The step found too few values. -/
  | underflow (word : String)
  /-- The step pushed beyond the ceiling. -/
  | overflow (word : String) (limit : Nat)
  deriving DecidableEq, Repr

namespace Fault

/-- A stack error as a fault of a step. -/
def ofStackError (word : String) : StackError → Fault
  | .underflow => .underflow word
  | .overflow limit => .overflow word limit

/-- The name of the step. -/
def word : Fault → String
  | .underflow word | .overflow word _ => word

/-- The text of a fault. -/
def message : Fault → String
  | .underflow word => s!"stack underflow in '{word}'"
  | .overflow word limit => s!"stack overflow in '{word}' (limit {limit})"

end Fault

/-- The name that a fault of a bare push is given. -/
def literalWord : String := "<literal>"

/-- An action on a bench that may fault. -/
abbrev RunM (σ : Type) := ExceptT Fault (StateM (Bench σ))

variable {σ : Type} {α : Type}

/-- An action whose misuse of the stack is a fault of the step `word`. -/
def blame (word : String) (act : NativeM σ α) : RunM σ α := fun bench =>
  match act bench with
  | (.ok a, bench) => (.ok a, bench)
  | (.error e, bench) => (.error (.ofStackError word e), bench)

mutual

/-- Runs one step. -/
def Instruction.run : Instruction σ → RunM σ Unit
  | .push value => blame literalWord (Native.push value)
  | .native name act => blame name act
  | .call _ _ body => Program.run body
  | .constant name value => blame name (Native.push value)

/-- Runs steps from front to back. -/
def Program.run : List (Instruction σ) → RunM σ Unit
  | [] => pure ()
  | i :: is => do
    i.run
    Program.run is

end

/-- A bench with at most one program. -/
structure Machine (σ : Type) where
  /-- What the program runs on. -/
  bench : Bench σ
  /-- The program, if one is installed. -/
  program : Option (Program σ) := none

namespace Machine

/-- A machine without a program on an empty stack. -/
def new (stackLimit : Nat) (modules : σ) : Machine σ :=
  { bench := { stack := Stack.withLimit stackLimit, rig := { modules } } }

/-- The operand stack. -/
def stack (m : Machine σ) : Stack := m.bench.stack

/-- The rig. -/
def rig (m : Machine σ) : Rig σ := m.bench.rig

/-- Installs a program; the one it replaces is given back. -/
def install (m : Machine σ) (p : Program σ) : Option (Program σ) × Machine σ :=
  (m.program, { m with program := some p })

/-- Takes the program away. -/
def uninstall (m : Machine σ) : Option (Program σ) × Machine σ :=
  (m.program, { m with program := none })

/-- Removes every value from the stack. -/
def clearStack (m : Machine σ) : Machine σ :=
  { m with bench.stack := m.bench.stack.clear }

/-- Runs the program once. Without a program nothing happens. -/
def run : Machine σ → Except Fault Unit × Machine σ
  | ⟨bench, none⟩ => (.ok (), ⟨bench, none⟩)
  | ⟨bench, some p⟩ =>
    let (result, bench) := Program.run p bench
    (result, ⟨bench, some p⟩)

end Machine

end StackSynth
