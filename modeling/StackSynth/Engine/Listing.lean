import StackSynth.Engine.Scheduler
import StackSynth.Number.Written
import StackSynth.Text.Quoted

/-!
# Listings of the machine

One-line listings of operations, programs, machines and schedulers, for whoever looks into a running
synthesizer. A word shows the number of its steps and not the steps.
-/

namespace StackSynth

variable {σ : Type}

/-- An operation as a listing shows it. -/
def Operation.inspected : Operation σ → String
  | .native _ => "Native(..)"
  | .word _ body => s!"Word({body.length})"
  | .constant value => s!"Literal({NumberStyle.inspected.write value})"

/-- A step as a listing shows it. -/
def Instruction.inspected : Instruction σ → String
  | .push value => s!"Push({NumberStyle.inspected.write value})"
  | .native name act => named name (.native act)
  | .call name label body => named name (.word label body)
  | .constant name value => named name (.constant value)
where
  /-- A step that was invoked by name. -/
  named (name : String) (op : Operation σ) : String :=
    "Invoke \x7b name: " ++ Quoted.quote name ++ ", op: " ++ op.inspected ++ " \x7d"

/-- Items between brackets, separated by commas. -/
private def bracketed (items : List String) : String := "[" ++ ", ".intercalate items ++ "]"

/-- A stack as a listing shows it. -/
def Stack.inspected (s : Stack) : String :=
  "Stack \x7b values: " ++ bracketed (s.toList.map NumberStyle.inspected.write)
    ++ ", limit: " ++ toString s.limit ++ " \x7d"

/-- A machine as a listing shows it. -/
def Machine.inspected (m : Machine σ) : String :=
  let program := match m.program with
    | none => "None"
    | some p =>
      "Some(Program \x7b instructions: " ++ bracketed (p.map Instruction.inspected) ++ " \x7d)"
  "Machine \x7b stack: " ++ m.stack.inspected ++ ", program: " ++ program ++ ", literal: "
    ++ Quoted.quote literalWord ++ " \x7d"

/-- A scheduler as a listing shows it. -/
def Scheduler.inspected (s : Scheduler σ) : String :=
  "Collection \x7b machine: " ++ s.machine.inspected ++ ", tickers: " ++ toString s.tickers.size
    ++ ", retired: " ++ toString s.retired.isSome ++ ", .. \x7d"

end StackSynth
