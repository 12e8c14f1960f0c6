import StackSynth.Number.Written
import StackSynth.Storage.Folder
import StackSynth.Synth.Bank

/-!
# Settings

What a user can choose about the audio device, the interpreter and the bank of modules. Everything
has a default. Settings are checked before they are used; the check names the first setting that is
out of its range, in the order in which settings are written.
-/

namespace StackSynth

/-- What is chosen about the audio device. -/
structure AudioSettings where
  /-- Frames per second. -/
  sampleRate : Nat := 48000
  /-- Frames of a period. -/
  bufferSize : Nat := 256
  /-- A name or an index; the default device if there is none. -/
  outputDevice : Option String := none
  deriving DecidableEq, Repr

/-- What is chosen about the interpreter. -/
structure EngineSettings where
  /-- The depth ceiling of the operand stack. -/
  stackLimit : Nat := 1024
  /-- Faults that wait for a reader. -/
  faultQueue : Nat := 64
  deriving DecidableEq, Repr

/-- Everything that is chosen. -/
structure Settings where
  audio : AudioSettings := {}
  engine : EngineSettings := {}
  modules : BankSpec := {}

/-- Why settings are not read or written. -/
inductive SettingsError where
  | unreadable (path : String) (error : ReadError)
  | unwritable (path : String) (error : OsError)
  | noDirectory (path : String) (error : OsError)
  /-- A text is no document, or holds something that is no setting. -/
  | malformed
  /-- A number is too large for a document. -/
  | unwritten
  /-- A setting is out of its range. -/
  | invalid (field reason : String)
  deriving DecidableEq, Repr

/-- The text of an error. -/
def SettingsError.message : SettingsError → String
  | .unreadable path e => s!"failed to read file '{path}': {e.message}"
  | .unwritable path e => s!"failed to write file '{path}': {e.message}"
  | .noDirectory path e => s!"failed to create directory '{path}': {e.message}"
  | .malformed => "failed to parse TOML: TOML parse error"
  | .unwritten => "failed to serialize TOML: out-of-range value"
  | .invalid field reason => s!"invalid setting '{field}': {reason}"

namespace Settings

/-- The most modules of a kind. -/
def maxModules : Nat := 256

/-- The largest depth ceiling that can be chosen. -/
def maxStackLimit : Nat := 1048576

/-- A rule: the setting it is about, whether it is kept, and what is wrong if not. -/
structure Rule where
  field : String
  kept : Bool
  reason : String

/-- A number has to be in a range. -/
def within (field : String) (n least most : Nat) : Rule :=
  ⟨field, least ≤ n && n ≤ most, s!"{n} is outside {least}..={most}"⟩

/-- There are only so many modules of a kind. -/
def fewModules (field : String) (n : Nat) : Rule :=
  ⟨field, n ≤ maxModules, s!"{n} exceeds the limit of {maxModules}"⟩

/-- The rules, in the order in which they are checked. -/
def rules (s : Settings) : List Rule :=
  [within "audio.sample_rate" s.audio.sampleRate 8000 192000,
   within "audio.buffer_size" s.audio.bufferSize 16 8192,
   within "engine.stack_limit" s.engine.stackLimit 1 maxStackLimit,
   ⟨"engine.fault_queue", 1 ≤ s.engine.faultQueue, "must be at least 1"⟩,
   fewModules "modules.operators" s.modules.operators,
   fewModules "modules.envelopes" s.modules.envelopes,
   fewModules "modules.mixers" s.modules.mixers,
   fewModules "modules.delays" s.modules.delays,
   fewModules "modules.sequencers" s.modules.sequencers,
   fewModules "modules.tables" s.modules.tables,
   within "modules.steps" s.modules.steps 1 1024,
   ⟨"modules.max_delay_seconds", 0 < s.modules.maxDelaySeconds && s.modules.maxDelaySeconds ≤ 60,
     NumberStyle.plain.write s.modules.maxDelaySeconds ++ " is outside (0, 60]"⟩]

/-- Accepts settings that keep every rule, and otherwise names the first rule that is broken. -/
def check (s : Settings) : Except SettingsError Unit :=
  match s.rules.find? fun rule => !rule.kept with
  | none => .ok ()
  | some rule => .error (.invalid rule.field rule.reason)

end Settings

end StackSynth
