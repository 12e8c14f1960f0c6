import StackSynth.Device.Choice
import StackSynth.Device.Interleaver
import StackSynth.Text.Quoted

/-!
# Output streams

A stream is opened on a device and then started; from then on the device asks for one period of
samples after another, until the stream is stopped. A stream that is started again is stopped first,
even if it then does not start.

Whether a stream starts is decided in a fixed order: the period length comes first, if the device
has a default configuration at all, and the number of channels last.
-/

namespace StackSynth

/-- What is asked of a stream. -/
structure StreamSpec where
  /-- Frames per second. -/
  sampleRate : Nat := 48000
  /-- Frames of a period. -/
  bufferSize : Nat := 256
  /-- How the device is chosen; the default device if nothing is asked. -/
  outputDevice : Option String := none
  deriving DecidableEq, Repr

/-- Why a device does not start to play. -/
inductive Refusal where
  | bufferSize
  | trouble (kind : Trouble)
  | noFloat
  | rate
  | channels
  deriving DecidableEq, Repr

/-- The text of an error that a device reports. -/
private def backendText (cause : String) : String :=
  "A backend-specific error has occurred: " ++ cause

/-- The text of a call to a device that failed. -/
private def callText (call error : String) : String :=
  backendText s!"ALSA function '{call}' failed with error '{error}'"

/-- The text of a refusal. -/
def Refusal.message : Refusal → String
  | .bufferSize => "The requested stream configuration is not supported by the device."
  | .trouble .missing | .trouble .gone | .trouble .busy =>
    "The requested device is no longer available. For example, it has been unplugged."
  | .trouble .invalid =>
    "The requested device does not support this capability (invalid argument)"
  | .trouble .io => callText "snd_pcm_open" "I/O error (5)"
  | .noFloat =>
    backendText "Sample format 'f32' is not supported by hardware in any endianness"
  | .rate => callText "snd_pcm_hw_params_set_rate" "Invalid argument (22)"
  | .channels => callText "snd_pcm_hw_params_set_channels" "Invalid argument (22)"

/-- Why there is no sound. -/
inductive StreamError where
  | notFound (error : ChoiceError)
  | refused (refusal : Refusal)
  deriving DecidableEq, Repr

/-- The text of an error. -/
def StreamError.message : StreamError → String
  | .notFound e => "Device not found: " ++ e.message
  | .refused r => "Audio stream error: " ++ r.message

/-- Why a device does not play with given rate, period length and number of channels. -/
def Device.refusal? (d : Device) (rate bufferSize channels : Nat) : Option Refusal :=
  if d.defaultFormat?.isSome && !d.buffer.holds bufferSize then some .bufferSize
  else match d.trouble with
    | some kind => some (.trouble kind)
    | none =>
      if !d.float then some .noFloat
      else if !d.rate.holds rate then some .rate
      else if !d.channels.holds channels then some .channels
      else none

/-- A stream on a device. -/
structure AudioStream where
  device : Device
  spec : StreamSpec
  /-- The buffers of a stream that plays. -/
  buffers : Option Interleaver := none

namespace AudioStream

/-- Opens the device that is asked for. -/
def openOn (m : AudioMachine) (spec : StreamSpec) : Except ChoiceError (Choice × AudioStream) := do
  let choice ← match spec.outputDevice with
    | none => pure { device := m.defaultDevice }
    | some search => m.choose search
  return (choice, { device := choice.device, spec })

/-- The channels of the device. -/
def channels (s : AudioStream) : Nat := s.device.format.channels

/-- Whether the stream plays. -/
def isRunning (s : AudioStream) : Bool := s.buffers.isSome

/-- Stops the stream. -/
def stop (s : AudioStream) : AudioStream := { s with buffers := none }

/-- Starts the stream from the beginning. -/
def start (s : AudioStream) : Except Refusal Unit × AudioStream :=
  match s.device.refusal? s.spec.sampleRate s.spec.bufferSize s.channels with
  | some refusal => (.error refusal, s.stop)
  | none => (.ok (), { s with buffers := some (.withCapacity s.spec.bufferSize) })

/-- One period: the samples that the device gets. A stream that does not play asks for nothing. -/
def period {σ : Type} (render : Renderer σ) (state : σ) :
    AudioStream → Option (Array Sample) × σ × AudioStream
  | ⟨device, spec, none⟩ => (none, state, ⟨device, spec, none⟩)
  | ⟨device, spec, some buffers⟩ =>
    let channels := device.format.channels
    let (out, state, buffers) := buffers.fill render (spec.bufferSize * channels) channels state
    (some out, state, ⟨device, spec, some buffers⟩)

/-- A stream as a line of a listing. -/
def inspected (s : AudioStream) : String :=
  let device := match s.spec.outputDevice with
    | none => "None"
    | some name => "Some(" ++ Quoted.quote name ++ ")"
  "AudioStream \x7b config: StreamConfig \x7b sample_rate: " ++ toString s.spec.sampleRate
    ++ ", buffer_size: " ++ toString s.spec.bufferSize ++ ", output_device: " ++ device
    ++ " \x7d, channels: " ++ toString s.channels ++ ", running: " ++ toString s.isRunning
    ++ ", .. \x7d"

end AudioStream

end StackSynth
