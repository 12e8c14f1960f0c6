import StackSynth.Device.Stream
import StackSynth.Engine.Basic
import StackSynth.Session.Failure
import StackSynth.Session.Log
import StackSynth.Synth.Bank

/-!
# What is logged

While a session is opened, plays and ends, the events below happen. Each has one entry in the log.
Texts that somebody chose are quoted in the fields of an entry, except for names of devices and
paths.
-/

namespace StackSynth

/-- What happens in a session. -/
inductive Event where
  /-- A bank of modules is in its place, with `samples` recordings. -/
  | installed (spec : BankSpec) (samples : Nat)
  /-- The program that the session starts with is built. -/
  | built (report : BuildReport)
  /-- The session starts without a program. -/
  | notBuilt (failure : Failure)
  /-- Several devices fit what was asked for. -/
  | ambiguous (search : String) (candidates : List String) (chosen : String)
  /-- A device began to play. -/
  | started (stream : AudioStream)
  /-- The session is heard on a device. -/
  | heard (stream : AudioStream)
  /-- A device ran out of samples. -/
  | underrun
  /-- A device ceased to play. -/
  | stopped
  /-- The program faulted. -/
  | faulted (fault : Fault)
  /-- The program file is being watched. -/
  | watching (path : String)
  /-- The program file changed and is built. -/
  | rebuilt (report : BuildReport)
  /-- The program file changed and the program before it stays. -/
  | notRebuilt (failure : Failure)

namespace Event

/-- What a build report says in the fields of an entry. -/
private def counts (r : BuildReport) : List (String × String) :=
  [("instructions", toString r.instructions), ("definitions", toString r.definitions.length)]

/-- What a stream is in the fields of an entry. -/
private def streamFields (s : AudioStream) : List (String × String) :=
  [("device", s.device.title), ("channels", toString s.channels),
   ("sample_rate", toString s.spec.sampleRate)]

/-- The entry of an event. -/
def entry : Event → LogEntry
  | installed spec samples => {
      level := .info, target := "forthwave_synth", message := "module bank installed"
      fields := [("operators", toString spec.operators), ("envelopes", toString spec.envelopes),
        ("delays", toString spec.delays), ("sequencers", toString spec.sequencers),
        ("tables", toString spec.tables), ("samples", toString samples)] }
  | built report => {
      level := .info, target := "forthwave::commands::play", message := "program installed"
      fields := counts report }
  | notBuilt failure => {
      level := .error, target := "forthwave::commands::play"
      message := failure.oneLine ++ "\nstarting with an empty program" }
  | ambiguous search candidates chosen => {
      level := .warn, target := "forthwave_io::stream"
      message := "device name is ambiguous, using first match"
      fields := [("search", Quoted.quote search), ("candidates", Quoted.quoteList candidates),
        ("chosen", chosen)] }
  | started stream => {
      level := .info, target := "forthwave_io::stream", message := "output stream started"
      fields := streamFields stream ++ [("buffer_size", toString stream.spec.bufferSize)] }
  | heard stream => {
      level := .info, target := "forthwave::commands::play", message := "audio stream started"
      fields := streamFields stream }
  | underrun => {
      level := .error, target := "forthwave_io::stream", message := "output stream error"
      fields := [("error", "Buffer underrun/overrun occurred.")] }
  | stopped => {
      level := .info, target := "forthwave_io::stream", message := "output stream stopped" }
  | faulted fault => {
      level := .error, target := "forthwave::commands::common"
      message := fault.message ++ "; program stopped, output is silent until the next build"
      fields := [("word", Quoted.quote fault.word)] }
  | watching path => {
      level := .info, target := "forthwave::watch", message := "watching for changes"
      fields := [("path", path)] }
  | rebuilt report => {
      level := .info, target := "forthwave::watch", message := "program reloaded"
      fields := counts report }
  | notRebuilt failure => {
      level := .error, target := "forthwave::watch"
      message := "reload failed, previous program keeps running: " ++ failure.oneLine }

end Event

end StackSynth
