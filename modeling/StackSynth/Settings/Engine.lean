import StackSynth.Device.Stream
import StackSynth.Settings.Basic
import StackSynth.Synth.Install

/-!
# What settings describe

Settings say what an engine, its bank of modules and the stream that plays it are made from.
-/

namespace StackSynth.Settings

/-- What an engine is made from. -/
def engineSpec (s : Settings) : EngineSpec where
  sampleRate := s.audio.sampleRate
  stackLimit := s.engine.stackLimit
  faultQueue := s.engine.faultQueue

/-- What is asked of a stream. -/
def streamSpec (s : Settings) : StreamSpec where
  sampleRate := s.audio.sampleRate
  bufferSize := s.audio.bufferSize
  outputDevice := s.audio.outputDevice

/-- The engine that settings describe, and the names of its recordings. -/
def makeEngine (s : Settings) (folder : Folder) :
    Except RecordingError (List String × Engine Bank) :=
  Bank.engine folder s.engineSpec s.modules

end StackSynth.Settings
