import StackSynth.Machine.Native

/-!
# Instructions and operations

A program is a list of instructions in which every name is already resolved. An operation is what a
name can stand for: a native, a word defined by a program, or a constant. A call carries the body it
runs, so redefining a word never changes a program that was compiled before.

## Labels

Bodies that look alike may come from different definitions. Every body therefore carries a label,
handed out by the dictionary when its definition closes, and two calls run the same definition
exactly when their labels agree. Execution never looks at a label.
-/

namespace StackSynth

/-- One resolved step. The name in a step is the one that a fault blames. -/
inductive Instruction (σ : Type) where
  /-- Push the value of a numeral or of a constant. -/
  | push (value : Float)
  /-- Run a native. -/
  | native (name : String) (act : Native σ)
  /-- Run the body of a word in place. -/
  | call (name : String) (label : Nat) (body : List (Instruction σ))
  /-- Push a value under the name of its constant. -/
  | constant (name : String) (value : Float)

/-- A resolved instruction sequence, run from front to back. -/
abbrev Program (σ : Type) := List (Instruction σ)

/-- What a name can stand for. -/
inductive Operation (σ : Type) where
  /-- Behaviour of a module or a built-in word. -/
  | native (act : Native σ)
  /-- A word that a program defined. -/
  | word (label : Nat) (body : Program σ)
  /-- A number, compiled to a push. -/
  | constant (value : Float)

/-- The three kinds of operations. -/
inductive OperationKind where
  | native
  | word
  | constant
  deriving DecidableEq, Repr

/-- The name of a kind in listings. -/
def OperationKind.text : OperationKind → String
  | .native => "native"
  | .word => "word"
  | .constant => "literal"

namespace Operation

variable {σ : Type}

/-- The kind of an operation. -/
def kind : Operation σ → OperationKind
  | .native _ => .native
  | .word _ _ => .word
  | .constant _ => .constant

/-- The step that a name compiles to when it stands for an operation. A constant leaves no trace of
its name. -/
def compiled (op : Operation σ) (name : String) : Instruction σ :=
  match op with
  | .native act => .native name act
  | .word label body => .call name label body
  | .constant value => .push value

end Operation

/-- The operation that a step invokes, if it was invoked by name. -/
def Instruction.operation? {σ : Type} : Instruction σ → Option (Operation σ)
  | .push _ => none
  | .native _ act => some (.native act)
  | .call _ label body => some (.word label body)
  | .constant _ value => some (.constant value)

end StackSynth
