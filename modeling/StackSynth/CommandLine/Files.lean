import StackSynth.CommandLine.Setup

/-!
# The files of an order

Which files an order reads and writes is known before it is carried out, except for the recordings
that its settings name.
-/

namespace StackSynth

/-- The settings file. -/
def EngineArguments.settingsFile (a : EngineArguments) (home : String) : String :=
  a.config.getD (Settings.defaultFile home)

/-- The sources of recordings, as far as the settings can be read. -/
def EngineArguments.sources (a : EngineArguments) (w : Workplace) : List String :=
  match a.settings w with
  | .ok s => s.modules.samples
  | .error _ => []

namespace Order

/-- The arguments for an engine, if the order makes one. -/
def engine? : Order → Option EngineArguments
  | play a => some a.engine
  | render a => some a.engine
  | check a => some a.engine
  | words a => some a.engine
  | devices => none

/-- The program file, if the order reads one. -/
def program? : Order → Option String
  | play a => some a.program
  | render a => some a.program
  | check a => some a.program
  | words a => a.program
  | devices => none

/-- The file that the order writes, if there is one. -/
def output? : Order → Option String
  | render a => some a.output
  | play _ | check _ | words _ | devices => none

end Order

end StackSynth
