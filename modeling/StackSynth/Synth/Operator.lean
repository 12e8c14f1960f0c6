import StackSynth.Number.Double

/-!
# Operators

An operator is a phase that runs through the half-open unit interval, once per period of its
frequency. A negative frequency runs it backwards. It remembers whether the phase has wrapped since
somebody last asked.
-/

namespace StackSynth

/-- A phase accumulator. -/
structure Operator where
  /-- The phase. -/
  phase : Float
  /-- What a frame adds to the phase. -/
  increment : Float
  /-- Whether the phase has wrapped since the flag was taken. -/
  looped : Bool
  /-- Frames per second. -/
  sampleRate : Float
  deriving Inhabited

namespace Operator

/-- An operator at phase zero that stands still. -/
def new (sampleRate : Float) : Operator := ⟨0, 0, false, sampleRate⟩

/-- Sets the frequency in periods per second. -/
def setFrequency (o : Operator) (hz : Float) : Operator := { o with increment := hz / o.sampleRate }

/-- Puts the phase back to zero. -/
def sync (o : Operator) : Operator := { o with phase := 0 }

/-- Takes the flag that tells whether the phase has wrapped. -/
def takeLooped (o : Operator) : Bool × Operator := (o.looped, { o with looped := false })

/-- Advances by one frame. A phase outside the unit interval is brought back by whole periods; the
remainder may round up to one, which counts as zero. -/
def tick (o : Operator) : Operator :=
  let next := o.phase + o.increment
  if 0 ≤ next && next < 1 then { o with phase := next }
  else
    let wrapped := Double.euclid next 1
    { o with phase := if 1 ≤ wrapped then 0 else wrapped, looped := true }

end Operator

end StackSynth
