import StackSynth.Number.Double

/-!
# Delay lines

A delay line keeps the inputs of past frames in a ring. What is written during a frame is summed;
the frame's tick commits the sum and starts a new one. `head` is the place that the next tick
commits to, so the newest committed input stands just before it.

A tap between two frames is read by linear interpolation. Taps are limited to the history the line
keeps: at least one frame, and at most one less than the ring holds.
-/

namespace StackSynth

/-- A ring of past inputs. -/
structure DelayLine where
  /-- The ring. -/
  buffer : Array Float
  /-- The place of the next commit. -/
  head : Nat
  /-- The sum of this frame's input. -/
  input : Float
  /-- Frames per second. -/
  sampleRate : Float
  two_le_size : 2 ≤ buffer.size

namespace DelayLine

instance : Inhabited DelayLine := ⟨⟨#[0, 0], 0, 0, 0, by decide⟩⟩

/-- An empty line with a history of at least `maxSeconds`. Negative times count as zero. -/
def new (sampleRate maxSeconds : Float) : DelayLine where
  buffer := Array.replicate
    (Double.toNat (Double.ceil (sampleRate * Double.greatest maxSeconds 0)) + 2) 0
  head := 0
  input := 0
  sampleRate := sampleRate
  two_le_size := by simp

/-- The longest tap, in frames. -/
def maxDelay (d : DelayLine) : Float := .ofNat (d.buffer.size - 1)

/-- Adds to the input of this frame. -/
def write (d : DelayLine) (x : Float) : DelayLine := { d with input := d.input + x }

/-- The place in the ring that was committed to `back` ticks ago. -/
def place (d : DelayLine) (back : Nat) : Nat := (d.head + d.buffer.size - back) % d.buffer.size

/-- The input that was committed `back` ticks ago. -/
def tap (d : DelayLine) (back : Nat) : Float :=
  have : d.place back < d.buffer.size := Nat.mod_lt _ (by have := d.two_le_size; omega)
  d.buffer[d.place back]

/-- The input `delay` frames ago. -/
def read (d : DelayLine) (delay : Float) : Float :=
  let delay := Double.clamp 1 d.maxDelay delay
  let whole := Double.floor delay
  let fraction := delay - whole
  let back := Double.toNat whole
  let newer := d.tap back
  let older := d.tap (back + 1)
  if fraction == 0 then newer else newer + (older - newer) * fraction

/-- The input `seconds` ago. -/
def readSeconds (d : DelayLine) (seconds : Float) : Float := d.read (seconds * d.sampleRate)

/-- Commits the input of this frame. -/
def tick : DelayLine → DelayLine
  | ⟨buffer, head, input, sampleRate, h⟩ =>
    ⟨buffer.setIfInBounds head input, (head + 1) % buffer.size, 0, sampleRate, by simpa using h⟩

end DelayLine

end StackSynth
