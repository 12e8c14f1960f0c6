import StackSynth.Device.Stream
import StackSynth.Session.Failure
import StackSynth.Settings.Basic
import StackSynth.Synth.Recording
import StackSynth.WaveFile.Writer

/-!
# What stands behind an error

An error that some other error has led to names that one in its own text, and as the cause of the
failure once more.
-/

namespace StackSynth

/-- An error about settings as the failure of a command. -/
def SettingsError.failure (e : SettingsError) : Failure where
  message := e.message
  cause := match e with
    | .unreadable _ error => some error.message
    | .unwritable _ error | .noDirectory _ error => some error.message
    | .malformed | .unwritten | .invalid _ _ => none

/-- An error about recordings as the failure of a command. -/
def RecordingError.failure (e : RecordingError) : Failure where
  message := e.message
  cause := match e with
    | .wave _ error => some error.message
    | .source _ error => some error.message
    | .nameless _ | .duplicate _ _ _ => none

/-- A wave file that was not written as the failure of a command. -/
def WaveFile.WriteError.failure (e : WaveFile.WriteError) : Failure where
  message := e.message
  cause := match e with
    | .wave error => some error.message
    | .lengthMismatch _ _ => none

/-- A stream without sound as the failure of a command. -/
def StreamError.failure (e : StreamError) : Failure := { message := e.message }

end StackSynth
