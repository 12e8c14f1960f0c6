import StackSynth.Number.Double

/-!
# Wave shapes

Functions of a normalised phase, each with period one, beside a limiter and the conversion from note
numbers to frequencies.
-/

namespace StackSynth.Wave

/-- The part of a phase behind its floor. -/
def fraction (phase : Float) : Float := phase - Double.floor phase

/-- A sine. -/
def sine (phase : Float) : Float := Float.sin (6.28318530717958647692528676655900577 * phase)

/-- A triangle that starts at zero and rises. -/
def triangle (phase : Float) : Float := 1 - 4 * (fraction (phase + 0.25) - 0.5).abs

/-- A ramp from minus one to one. -/
def saw (phase : Float) : Float := 2 * fraction phase - 1

/-- One in the first half of a period and minus one in the second. -/
def square (phase : Float) : Float := if fraction phase < 0.5 then 1 else -1

/-- The nearest number between minus one and one. -/
def clip (x : Float) : Float := Double.clamp (-1) 1 x

/-- The frequency of a note number in equal temperament, note 69 being 440 periods per second. -/
def noteFrequency (note : Float) : Float := 440 * Float.exp2 ((note - 69) / 12)

end StackSynth.Wave
