/-!
# Forms of command lines

A command line is read word by word into a record of arguments. An option is written `--name value`
or `--name=value`, and one with a letter also `-n value`, `-nvalue` or `-n=value`; a flag has no
value. A value that stands alone does not start with a dash, unless it is a single dash. Behind a
word `--` everything is positional.

An option may be given once, unless its form says otherwise. A value that does not fit ends the
reading, and so does the request for help as soon as it is read.
-/

namespace StackSynth

/-- Why a command line asks for nothing to be done. -/
inductive Stop where
  /-- It is ill formed. -/
  | usage
  /-- It asks for help. -/
  | help
  /-- It asks for the version. -/
  | version
  deriving DecidableEq, Repr

/-- What an option does to the arguments `γ`. -/
inductive OptionEffect (γ : Type) where
  /-- It has no value. -/
  | flag (set : γ → γ)
  /-- It has a value, which may not fit. -/
  | value (set : String → γ → Option γ)

/-- An option. -/
structure OptionForm (γ : Type) where
  /-- Its name. -/
  name : String
  /-- Its letter, if it has one. -/
  letter : Option Char := none
  /-- Whether it may be given more than once. -/
  repeatable : Bool := false
  effect : OptionEffect γ

/-- What a command line may hold. -/
structure Form (γ : Type) where
  options : List (OptionForm γ)
  /-- What positional words do, in order; every one of them has to be there. -/
  places : List (String → γ → Option γ)

/-- A command line of which a part has been read. -/
structure Reading (γ : Type) where
  arguments : γ
  /-- The options that were given. -/
  given : List String := []
  /-- What the positional words to come do. -/
  places : List (String → γ → Option γ)
  /-- Whether everything is positional from here on. -/
  escaped : Bool := false

/-- What a word is. -/
inductive WordKind where
  | escape
  /-- An option by its name, perhaps with a value. -/
  | long (name : String) (attached : Option String)
  /-- An option by its letter, perhaps with a value. -/
  | short (letter : Char) (attached : Option String)
  | positional
  deriving DecidableEq, Repr

/-- What a word is where options may stand. -/
def WordKind.ofWord (word : String) : WordKind :=
  match word.toList with
  | ['-', '-'] => .escape
  | '-' :: '-' :: cs =>
    let name := cs.takeWhile (· ≠ '=')
    .long (String.ofList name) (match cs.drop name.length with
      | [] => none
      | _ :: value => some (String.ofList value))
  | '-' :: letter :: cs =>
    .short letter (match cs with
      | [] => none
      | '=' :: value => some (String.ofList value)
      | value => some (String.ofList value))
  | _ => .positional

namespace Form

variable {γ : Type}

/-- Takes a positional word. -/
def takePlace (r : Reading γ) (word : String) : Except Stop (Reading γ) :=
  match r.places with
  | [] => .error .usage
  | set :: places =>
    match set word r.arguments with
    | some arguments => .ok { r with arguments, places }
    | none => .error .usage

/-- Takes the value of an option. -/
def takeValue (r : Reading γ) (set : String → γ → Option γ) (value : String) :
    Except Stop (Reading γ) :=
  match set value r.arguments with
  | some arguments => .ok { r with arguments }
  | none => .error .usage

/-- The option that a word names, if it may be given now, and the reading that remembers it. -/
def giveOption (f : Form γ) (r : Reading γ) (is : OptionForm γ → Bool) :
    Except Stop (OptionForm γ × Reading γ) :=
  match f.options.find? is with
  | none => .error .usage
  | some option =>
    if !option.repeatable && r.given.contains option.name then .error .usage
    else .ok (option, { r with given := option.name :: r.given })

/-- The option that a word stands for and the value attached to it; nothing for a word that stands
for no option. -/
def option? (f : Form γ) (r : Reading γ) (kind : WordKind) :
    Option (Except Stop (OptionForm γ × Reading γ) × Option String) :=
  match kind with
  | .long "help" none => some (.error .help, none)
  | .short 'h' _ => some (.error .help, none)
  | .long name attached => some (f.giveOption r fun o => o.name = name, attached)
  | .short letter attached => some (f.giveOption r fun o => o.letter = some letter, attached)
  | .escape | .positional => none

/-- Reads words from front to back. -/
def readWords (f : Form γ) (r : Reading γ) : List String → Except Stop (Reading γ)
  | [] => .ok r
  | word :: rest =>
    let kind := if r.escaped then .positional else WordKind.ofWord word
    match f.option? r kind with
    | none =>
      if kind = .escape then readWords f { r with escaped := true } rest
      else
        match takePlace r word with
        | .ok r => readWords f r rest
        | .error stop => .error stop
    | some (.error stop, _) => .error stop
    | some (.ok (option, r), attached) =>
      match option.effect, attached with
      | .flag set, none => readWords f { r with arguments := set r.arguments } rest
      | .flag _, some _ => .error .usage
      | .value set, some value =>
        match takeValue r set value with
        | .ok r => readWords f r rest
        | .error stop => .error stop
      | .value set, none =>
        match rest with
        | [] => .error .usage
        | value :: rest =>
          if WordKind.ofWord value ≠ .positional then .error .usage
          else
            match takeValue r set value with
            | .ok r => readWords f r rest
            | .error stop => .error stop

/-- Reads a command line into arguments, which start as `initial`. -/
def read (f : Form γ) (initial : γ) (words : List String) : Except Stop γ :=
  match f.readWords { arguments := initial, places := f.places } words with
  | .error stop => .error stop
  | .ok r => if r.places.isEmpty then .ok r.arguments else .error .usage

end Form

end StackSynth
