import StackSynth.CommandLine.Form
import StackSynth.Number.Scientific

/-!
# The arguments of the commands

| Command | Positional | Options |
|---|---|---|
| `play` | program file | `--buffer-size`, `--output-device`, `--watch` |
| `render` | program file | `--output`, `-o`, `--seconds`, `-s`, `--play`, `--block-size` |
| `check` | program file | |
| `words` | | `--program`, `--json` |
| `devices` | | |

All commands but `devices` also take `--config`, `--sample-rate` and, any number of times,
`--samples`. Paths are not empty.
-/

namespace StackSynth

/-- Arguments of every command that makes an engine. -/
structure EngineArguments where
  /-- The settings file, if it is not the one of the user. -/
  config : Option String := none
  /-- Frames per second, if not those of the settings. -/
  sampleRate : Option Nat := none
  /-- Sources of recordings, besides those of the settings. -/
  samples : List String := []
  deriving DecidableEq, Repr

/-- Arguments of `play`. -/
structure PlayArguments where
  program : String := ""
  bufferSize : Option Nat := none
  outputDevice : Option String := none
  /-- Whether the program file is watched. -/
  watch : Bool := false
  engine : EngineArguments := {}
  deriving DecidableEq, Repr

/-- Arguments of `render`. -/
structure RenderArguments where
  program : String := ""
  output : String := ""
  seconds : Float := 10
  /-- Whether the transport runs. -/
  play : Bool := false
  blockSize : Nat := 512
  engine : EngineArguments := {}

/-- Arguments of `check`. -/
structure CheckArguments where
  program : String := ""
  engine : EngineArguments := {}
  deriving DecidableEq, Repr

/-- Arguments of `words`. -/
structure WordsArguments where
  program : Option String := none
  /-- Whether the words are written as JSON. -/
  json : Bool := false
  engine : EngineArguments := {}
  deriving DecidableEq, Repr

/-- What a command line asks for. -/
inductive Order where
  | play (a : PlayArguments)
  | render (a : RenderArguments)
  | check (a : CheckArguments)
  | words (a : WordsArguments)
  | devices

namespace Order

/-! ## Values -/

/-- A path, which is not empty. -/
private def path {γ : Type} (set : String → γ → γ) (word : String) (a : γ) : Option γ :=
  if word = "" then none else some (set word a)

/-- A natural number of 32 bits. Zero may have a minus sign. -/
private def number32 {γ : Type} (set : Nat → γ → γ) (word : String) (a : γ) : Option γ :=
  (readInteger? word.toList).bind fun n =>
    if 0 ≤ n && n < twoTo 32 then some (set n.toNat a) else none

/-- A natural number of 64 bits. -/
private def number64 {γ : Type} (set : Nat → γ → γ) (word : String) (a : γ) : Option γ :=
  (Numeral.readNatural? word).bind fun n => if n < twoTo 64 then some (set n a) else none

/-! ## Forms -/

/-- The options of every command that makes an engine. -/
private def engineOptions {γ : Type} (change : (EngineArguments → EngineArguments) → γ → γ) :
    List (OptionForm γ) :=
  [{ name := "config"
     effect := .value (path fun file => change fun e => { e with config := some file }) },
   { name := "sample-rate"
     effect := .value (number32 fun n => change fun e => { e with sampleRate := some n }) },
   { name := "samples"
     repeatable := true
     effect := .value (path fun source => change fun e =>
       { e with samples := e.samples ++ [source] }) }]

/-- The form of `play`. -/
def playForm : Form PlayArguments where
  options :=
    [{ name := "buffer-size",
       effect := .value (number32 fun n a => { a with bufferSize := some n }) },
     { name := "output-device"
       effect := .value fun device a => some { a with outputDevice := some device } },
     { name := "watch", effect := .flag fun a => { a with watch := true } }]
      ++ engineOptions fun f a => { a with engine := f a.engine }
  places := [path fun file a => { a with program := file }]

/-- The form of `render`. -/
def renderForm : Form RenderArguments where
  options :=
    [{ name := "output", letter := some 'o',
       effect := .value (path fun file a => { a with output := file }) },
     { name := "seconds"
       letter := some 's'
       effect := .value fun word a => (readFloat? word).map fun x => { a with seconds := x } },
     { name := "play", effect := .flag fun a => { a with play := true } },
     { name := "block-size", effect := .value (number64 fun n a => { a with blockSize := n }) }]
      ++ engineOptions fun f a => { a with engine := f a.engine }
  places := [path fun file a => { a with program := file }]

/-- The form of `check`. -/
def checkForm : Form CheckArguments where
  options := engineOptions fun f a => { a with engine := f a.engine }
  places := [path fun file a => { a with program := file }]

/-- The form of `words`. -/
def wordsForm : Form WordsArguments where
  options :=
    [{ name := "program", effect := .value (path fun file a => { a with program := some file }) },
     { name := "json", effect := .flag fun a => { a with json := true } }]
      ++ engineOptions fun f a => { a with engine := f a.engine }
  places := []

/-- The form of `devices`. -/
def devicesForm : Form Unit := { options := [], places := [] }

/-! ## Commands -/

/-- The names of the commands. -/
def names : List String := ["play", "render", "check", "words", "devices"]

/-- Reads the arguments of a command. -/
def ofCommand (name : String) (words : List String) : Except Stop Order := do
  match name with
  | "play" => return .play (← playForm.read {} words)
  | "render" =>
    let a ← renderForm.read {} words
    if a.output = "" then throw .usage
    return .render a
  | "check" => return .check (← checkForm.read {} words)
  | "words" => return .words (← wordsForm.read {} words)
  | "devices" =>
    let () ← devicesForm.read () words
    return .devices
  | "help" => throw (if words.all names.contains && words.length ≤ 1 then .help else .usage)
  | _ => throw .usage

/-- Reads a command line. In front of the command only the version and help can be asked for. -/
def parse : List String → Except Stop Order
  | [] => .error .usage
  | word :: rest =>
    match WordKind.ofWord word with
    | .long "help" none | .short 'h' _ => .error .help
    | .long "version" none | .short 'V' _ => .error .version
    | .positional => ofCommand word rest
    | _ => .error .usage

end Order

end StackSynth
