import StackSynth.Number.Quantity

/-!
# The step clock

The clock divides time into steps, four to a beat, while the transport runs. Starting the transport
starts step zero; every frame after that moves the position within the step by one frame, and when
it reaches the length of a step the next one begins and takes over the remainder. Each frame knows
whether a step began on it.

While the transport stands the step stays as it is, and nothing begins.
-/

namespace StackSynth

/-- A step clock. -/
structure Clock (α : Type) where
  /-- Frames per second. -/
  sampleRate : α
  /-- Frames per step. -/
  samplesPerStep : α
  /-- Frames since the step began. -/
  position : α
  /-- Steps since the transport started. -/
  step : Nat
  /-- Whether a step began on this frame. -/
  triggered : Bool
  /-- Whether the transport ran on the last frame. -/
  wasPlaying : Bool

namespace Clock

variable {α : Type} [Quantity α]

open Quantity

/-- Sets the tempo in beats per minute. A tempo that is not a positive number is ignored. -/
def setTempo (c : Clock α) (bpm : α) : Clock α :=
  if lt zero bpm && isFinite bpm then
    { c with samplesPerStep := c.sampleRate * ofNat 60 / (bpm * ofNat 4) }
  else c

/-- A clock that stands, at 120 beats per minute. -/
def new (sampleRate : α) : Clock α :=
  setTempo ⟨sampleRate, one, zero, 0, false, false⟩ (ofNat 120)

instance : Inhabited (Clock α) := ⟨new one⟩

/-- Advances by one frame. -/
def tick (c : Clock α) (playing : Bool) : Clock α :=
  if playing then
    if c.wasPlaying then
      let position := c.position + one
      if le c.samplesPerStep position then
        { c with
          position := position - c.samplesPerStep
          step := c.step + 1
          triggered := true }
      else { c with position, triggered := false }
    else { c with position := zero, step := 0, triggered := true, wasPlaying := true }
  else { c with triggered := false, wasPlaying := false }

end Clock

end StackSynth
