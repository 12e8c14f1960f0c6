import StackSynth.Settings.Basic
import StackSynth.Toml.Reader
import StackSynth.Toml.Writer

/-!
# Settings as a document

A document of settings has up to three tables, and what is not written keeps its default. Nothing
else may be written. A table may also be given as the array of its values in order; values that are
missing at its end keep their defaults.
-/

namespace StackSynth.Settings

open Toml (Value)

/-! ## From a document -/

/-- The entries of a section with fields `names`. -/
def entries? (names : List String) : Value → Option Toml.Table
  | .table entries => if entries.all fun (key, _) => names.contains key then some entries else none
  | .array items => some (names.zip items)
  | _ => none

/-- Reads an entry that may be missing. -/
def field {α : Type} (entries : Toml.Table) (name : String) (read : Value → Option α)
    (default : α) : Option α :=
  match entries.lookup name with
  | none => some default
  | some v => read v

/-- A natural number up to `most`. -/
def natural? (most : Nat) : Value → Option Nat
  | .integer n => if 0 ≤ n && n ≤ most then some n.toNat else none
  | _ => none

/-- A natural number of 32 bits. -/
def word? : Value → Option Nat := natural? (twoTo 32 - 1)

/-- A count. -/
def count? : Value → Option Nat := natural? (twoTo 63 - 1)

/-- A number. -/
def number? : Value → Option Float
  | .float x => some x
  | .integer n => some (Double.ofInt n)
  | _ => none

/-- A text. -/
def text? : Value → Option String
  | .text s => some s
  | _ => none

/-- A list of texts. -/
def texts? : Value → Option (List String)
  | .array items => items.mapM text?
  | _ => none

/-- Reads what is chosen about the audio device. -/
def audio? (v : Value) : Option AudioSettings := do
  let entries ← entries? ["sample_rate", "buffer_size", "output_device"] v
  let d : AudioSettings := {}
  return {
    sampleRate := ← field entries "sample_rate" word? d.sampleRate
    bufferSize := ← field entries "buffer_size" word? d.bufferSize
    outputDevice := ← field entries "output_device" (fun v => (text? v).map some) d.outputDevice }

/-- Reads what is chosen about the interpreter. -/
def engine? (v : Value) : Option EngineSettings := do
  let entries ← entries? ["stack_limit", "fault_queue"] v
  let d : EngineSettings := {}
  return {
    stackLimit := ← field entries "stack_limit" count? d.stackLimit
    faultQueue := ← field entries "fault_queue" count? d.faultQueue }

/-- Reads what is chosen about the bank. -/
def modules? (v : Value) : Option BankSpec := do
  let entries ← entries? ["operators", "envelopes", "mixers", "delays", "sequencers", "tables",
    "steps", "max_delay_seconds", "samples"] v
  let d : BankSpec := {}
  return {
    operators := ← field entries "operators" count? d.operators
    envelopes := ← field entries "envelopes" count? d.envelopes
    mixers := ← field entries "mixers" count? d.mixers
    delays := ← field entries "delays" count? d.delays
    sequencers := ← field entries "sequencers" count? d.sequencers
    tables := ← field entries "tables" count? d.tables
    steps := ← field entries "steps" count? d.steps
    maxDelaySeconds := ← field entries "max_delay_seconds" number? d.maxDelaySeconds
    samples := ← field entries "samples" texts? d.samples }

/-- The settings that a document holds. -/
def ofTable? (document : Toml.Table) : Option Settings := do
  let entries ← entries? ["audio", "engine", "modules"] (.table document)
  return {
    audio := ← field entries "audio" audio? {}
    engine := ← field entries "engine" engine? {}
    modules := ← field entries "modules" modules? {} }

/-! ## To a document -/

/-- The entry of a natural number. -/
def natural (name : String) (n : Nat) : String × Value := (name, .integer n)

/-- The table of what is chosen about the audio device. -/
def audioTable (a : AudioSettings) : Toml.Table :=
  [natural "sample_rate" a.sampleRate, natural "buffer_size" a.bufferSize]
    ++ (a.outputDevice.map fun name => ("output_device", Value.text name)).toList

/-- The table of what is chosen about the interpreter. -/
def engineTable (e : EngineSettings) : Toml.Table :=
  [natural "stack_limit" e.stackLimit, natural "fault_queue" e.faultQueue]

/-- The table of what is chosen about the bank. -/
def modulesTable (m : BankSpec) : Toml.Table :=
  [natural "operators" m.operators, natural "envelopes" m.envelopes,
   natural "mixers" m.mixers, natural "delays" m.delays,
   natural "sequencers" m.sequencers, natural "tables" m.tables, natural "steps" m.steps,
   ("max_delay_seconds", .float m.maxDelaySeconds), ("samples", .array (m.samples.map .text))]

/-- The tables of the document that holds settings. -/
def toTables (s : Settings) : List (String × Toml.Table) :=
  [("audio", audioTable s.audio), ("engine", engineTable s.engine),
   ("modules", modulesTable s.modules)]

/-! ## Texts -/

/-- Settings with the home directory in place of a tilde in front of a sample path. -/
def expandHome (home : String) (s : Settings) : Settings :=
  { s with modules.samples := s.modules.samples.map (Path.expandHome home) }

/-- Reads and checks settings. -/
def read (home text : String) : Except SettingsError Settings := do
  let some s := (Toml.read? text).bind ofTable? | throw .malformed
  s.check
  return s.expandHome home

/-- Writes settings. -/
def write (s : Settings) : Except SettingsError String :=
  match Toml.writeTables s.toTables with
  | some text => .ok text
  | none => .error .unwritten

end StackSynth.Settings
