import StackSynth.Language.CompileError
import StackSynth.Language.Depth
import StackSynth.Language.Dictionary
import StackSynth.Language.Token

/-!
# Compilation

A program is compiled in one pass over its tokens. Outside definitions a numeral compiles to a push
and a name to a step bound to what the name stands for at that point. A definition compiles its body
into steps of its own and leaves nothing where it stands; definitions may nest.

Definitions are staged: the tokens that follow see them, the dictionary does not. Only a program
that compiles to its end is committed, so one that fails has changed nothing.

## One token at a time

`Build.step` reads one token, and a compilation is a fold of it, followed by `Build.finish`. The
only look-ahead of the language, the name after the marker that opens a definition, is a state of
the build: `marker` holds the place of a marker whose name has not come yet.
-/

namespace StackSynth

/-- The deepest nesting of calls that a definition may reach. -/
def maxCallDepth : Nat := 256

/-- A definition that is open. -/
structure OpenDefinition (σ : Type) where
  /-- The token that names it. -/
  name : Token
  /-- The steps compiled so far. -/
  body : Array (Instruction σ)

/-- A program that compiled. -/
structure Compiled (σ : Type) where
  /-- The steps outside all definitions. -/
  program : Program σ
  /-- The words defined, in the order in which their definitions closed. -/
  definitions : List (String × Operation σ)

/-- A compilation in progress. -/
structure Build (σ : Type) where
  /-- What names stand for outside the program. -/
  dictionary : Dictionary σ
  /-- What names stand for by definitions that have closed. -/
  staged : Std.HashMap String (Operation σ) := ∅
  /-- The definitions that have closed, in order. -/
  definitions : Array (String × Operation σ) := #[]
  /-- The depths of all bodies seen. -/
  depths : DepthTable := ∅
  /-- The steps outside all definitions. -/
  program : Array (Instruction σ) := #[]
  /-- The definitions that are open, the innermost first. -/
  frames : List (OpenDefinition σ) := []
  /-- The place of a marker that waits for the name of its definition. -/
  marker : Option Location := none

namespace Build

variable {σ : Type}

/-- What a name stands for at this point. -/
def resolve (b : Build σ) (name : String) : Option (Operation σ) :=
  b.staged[name]? <|> b.dictionary.lookup name

/-- Adds a step to the innermost open definition, or to the program if none is open. -/
def emit (b : Build σ) (i : Instruction σ) : Build σ :=
  match b.frames with
  | [] => { b with program := b.program.push i }
  | frame :: outer => { b with frames := { frame with body := frame.body.push i } :: outer }

/-- Closes a definition: measures its body, labels it and stages it. -/
def close (b : Build σ) (frame : OpenDefinition σ) : Except CompileError (Build σ) :=
  let body := frame.body.toList
  let (inner, depths) := Instruction.measureAll b.depths body
  if maxCallDepth < inner + 1 then
    .error (.callDepthExceeded frame.name.text maxCallDepth frame.name.location)
  else
    let label := b.dictionary.fresh + b.definitions.size
    let word := Operation.word label body
    .ok { b with
      staged := b.staged.insert frame.name.text word
      definitions := b.definitions.push (frame.name.text, word)
      depths := depths.insert label (inner + 1) }

/-- Reads a token where a definition has its name. -/
def stepName (b : Build σ) (t : Token) : Except CompileError (Build σ) :=
  match t.kind with
  | .name => .ok { b with marker := none, frames := ⟨t, #[]⟩ :: b.frames }
  | .number _ | .definitionStart | .definitionEnd => .error (.invalidWordName t.text t.location)

/-- Reads one token. -/
def step (b : Build σ) (t : Token) : Except CompileError (Build σ) :=
  if b.marker.isSome then b.stepName t
  else match t.kind with
    | .number value => .ok (b.emit (.push value))
    | .name =>
      match b.resolve t.text with
      | some op => .ok (b.emit (op.compiled t.text))
      | none => .error (.unresolvedWord t.text t.location)
    | .definitionStart => .ok { b with marker := some t.location }
    | .definitionEnd =>
      match b.frames with
      | [] => .error (.unexpectedDefinitionEnd t.location)
      | frame :: outer => close { b with frames := outer } frame

/-- What a build has compiled when the tokens end. -/
def finish (b : Build σ) : Except CompileError (Compiled σ) :=
  match b.marker, b.frames with
  | some location, _ => .error (.missingWordName location)
  | none, frame :: _ => .error (.unterminatedDefinition frame.name.text frame.name.location)
  | none, [] => .ok ⟨b.program.toList, b.definitions.toList⟩

end Build

variable {σ : Type}

/-- Compiles tokens against a dictionary. -/
def compileTokens (d : Dictionary σ) (tokens : List Token) : Except CompileError (Compiled σ) := do
  let b ← tokens.foldlM Build.step { dictionary := d : Build σ }
  b.finish

/-- Compiles a text against a dictionary. -/
def compile (d : Dictionary σ) (source : String) : Except CompileError (Compiled σ) :=
  compileTokens d (tokenize source)

/-- The names that a program defines, in order. -/
def Compiled.names (c : Compiled σ) : List String := c.definitions.map Prod.fst

/-- The dictionary with the definitions of a program, the last one under a name winning. -/
def Dictionary.commit (d : Dictionary σ) (c : Compiled σ) : Dictionary σ :=
  { d.defineAll c.definitions with fresh := d.fresh + c.definitions.length }

end StackSynth
