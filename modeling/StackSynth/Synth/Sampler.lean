import StackSynth.Number.Quantity

/-!
# Samplers

A sampler plays recorded frames once after each trigger, at the speed they were recorded with. The
position moves by the ratio of the two rates; between two frames the value is interpolated, and
behind the last frame the recording goes on as zero. Playback stops when the position has left the
recording.
-/

namespace StackSynth

/-- A recording with one channel. -/
structure Recording (α : Type) where
  /-- The frames. -/
  frames : Array α
  /-- Frames per second. -/
  sampleRate : Nat

/-- The playback of a recording. -/
structure Sampler (α : Type) where
  /-- What is played. -/
  recording : Recording α
  /-- Where playback stands, in frames of the recording; nothing when it is stopped. -/
  position : Option α
  /-- Frames of the recording per output frame. -/
  step : α

namespace Sampler

variable {α : Type} [Quantity α]

open Quantity

/-- A stopped sampler. -/
def new (recording : Recording α) (outputRate : α) : Sampler α :=
  ⟨recording, none, ofNat recording.sampleRate / outputRate⟩

instance : Inhabited (Sampler α) := ⟨new ⟨#[], 0⟩ one⟩

/-- Starts from the first frame. -/
def trigger (s : Sampler α) : Sampler α := { s with position := some zero }

/-- Whether playback runs. -/
def isPlaying (s : Sampler α) : Bool := s.position.isSome

/-- The value at the position. -/
def value (s : Sampler α) : α :=
  match s.position with
  | none => zero
  | some position =>
    let place := toNat position
    let fraction := position - ofNat place
    let a := s.recording.frames[place]?.getD zero
    let b := s.recording.frames[place + 1]?.getD zero
    a + (b - a) * fraction

/-- Advances by one output frame. -/
def tick (s : Sampler α) : Sampler α :=
  match s.position with
  | none => s
  | some position =>
    let next := position + s.step
    if lt next (ofNat s.recording.frames.size) then { s with position := some next }
    else { s with position := none }

end Sampler

end StackSynth
