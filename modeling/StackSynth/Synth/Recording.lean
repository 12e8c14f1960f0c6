import StackSynth.Storage.Folder
import StackSynth.Synth.Sampler
import StackSynth.WaveFile.Reader

/-!
# Recordings from wave files

A recording is loaded from a wave file by taking the mean of the channels of every frame. It is
played by a word that is named after the file, without directories and extension.

A source of recordings is a file, or a directory that stands for the wave files it holds, in the
order of their names.
-/

namespace StackSynth

/-- Why recordings are not loaded. -/
inductive RecordingError where
  /-- A file does not hold a recording. -/
  | wave (path : String) (error : WaveError)
  /-- The operating system refuses a source. -/
  | source (path : String) (error : OsError)
  /-- A path names no word. -/
  | nameless (path : String)
  /-- Two files name one word. -/
  | duplicate (name first second : String)
  deriving DecidableEq, Repr

/-- The text of an error. -/
def RecordingError.message : RecordingError → String
  | .wave path e => s!"failed to load sample {path}: {e.message}"
  | .source path e => s!"failed to read {path}: {e.message}"
  | .nameless path => s!"cannot derive a word name from {path}"
  | .duplicate name first second => s!"samples {first} and {second} both define '{name}'"

namespace Recording

/-- The mean of the channels of one frame. The sum starts from a negative zero, which is the number
that changes no other. -/
def mean (frame : List Float) : Float := frame.foldl (· + ·) (-0.0) / .ofNat frame.length

/-- The frames of interleaved samples, each mixed into one channel. -/
def mixFrames (channels : Nat) (samples : Array Float) : Array Float :=
  (Array.range (samples.size / channels)).map fun i =>
    mean (samples.extract (i * channels) ((i + 1) * channels)).toList

/-- The recording in the bytes of a wave file. -/
def decode (bytes : List UInt8) : Except WaveError (Recording Float) := do
  let ⟨format, samples⟩ ← WaveFile.decode bytes
  return ⟨mixFrames format.channels samples, format.sampleRate⟩

/-- Loads a recording. -/
def load (folder : Folder) (path : String) : Except RecordingError (Recording Float) :=
  match folder.read path with
  | .error e => .error (.wave path (.os e))
  | .ok content => (decode content.toList).mapError (.wave path)

/-- The word that plays the recording in a file. -/
def wordName? (path : String) : Option String := Path.stem? path

/-- Whether a name ends like that of a wave file. -/
private def namesWave (name : String) : Bool :=
  (Path.extension? name).any fun extension => extension.toLower = "wav"

/-- The files that a source stands for. -/
def filesOf (folder : Folder) (source : String) : Except RecordingError (List String) :=
  match folder.get source with
  | .error e => .error (.source source e)
  | .ok (.file _ _) => .ok [source]
  | .ok .directory =>
    .ok ((folder.list source).filterMap fun name =>
      let path := Path.join source name
      if namesWave name && folder.isFile path then some path else none)

/-- The files that sources stand for, in order. -/
def files (folder : Folder) (sources : List String) : Except RecordingError (List String) := do
  return (← sources.mapM (filesOf folder)).flatten

end Recording

end StackSynth
