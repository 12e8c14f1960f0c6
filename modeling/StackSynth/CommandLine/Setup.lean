import StackSynth.CommandLine.Arguments
import StackSynth.Session.Causes
import StackSynth.Session.Reload
import StackSynth.Settings.Engine
import StackSynth.Settings.Files

/-!
# From arguments to an engine

Settings come from the file that is asked for, or else from the file of the user, and are checked
once as they stand there and once more with the arguments applied. The engine is made from the
settings, with the bank installed.
-/

namespace StackSynth

/-- Where commands run. -/
structure Workplace where
  /-- The files. -/
  folder : Folder := {}
  /-- The home directory. -/
  home : String := "/"
  /-- The audio devices. -/
  machine : AudioMachine := {}
  /-- The stamp of files that are written now. -/
  now : Nat := 0

/-- The settings that a command runs with. -/
def EngineArguments.settings (a : EngineArguments) (w : Workplace) :
    Except SettingsError Settings := do
  let s ← match a.config with
    | some path => Settings.load w.home w.folder path
    | none => Settings.loadOrDefault w.home w.folder (Settings.defaultFile w.home)
  let s := { s with
    audio.sampleRate := a.sampleRate.getD s.audio.sampleRate
    modules.samples := s.modules.samples ++ a.samples }
  s.check
  return s

/-- What came of a command. -/
structure Outcome where
  /-- The exit status. -/
  status : Nat
  /-- What was printed. -/
  printed : String := ""
  /-- What was reported of a failure. -/
  reported : String := ""
  /-- The files afterwards. -/
  folder : Folder

/-- What came of a command that failed. -/
def Failure.outcome (f : Failure) (folder : Folder) : Outcome :=
  { status := 1, reported := f.report, folder }

/-- An action of a command. -/
abbrev Attempt := Except Failure

/-- The engine for a command. -/
def EngineArguments.engine (a : EngineArguments) (w : Workplace) : Attempt (Engine Bank) := do
  let s ← (a.settings w).mapError SettingsError.failure
  let (_, e) ← (s.makeEngine w.folder).mapError RecordingError.failure
  return e

/-- Builds a program file as a step of a command. -/
def Engine.attemptReload {σ : Type} (e : Engine σ) (folder : Folder) (path : String) :
    Attempt (BuildReport × Engine σ) :=
  (e.reload folder path).mapError ReloadError.failure

end StackSynth
