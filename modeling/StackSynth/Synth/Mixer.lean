/-!
# Mixers

A mixer sums what is sent to it until somebody takes the total.
-/

namespace StackSynth

/-- A running total. -/
structure Mixer where
  /-- The total. -/
  total : Float
  deriving Inhabited

namespace Mixer

/-- A mixer that nothing was sent to. -/
def new : Mixer := ⟨0⟩

/-- Adds to the total. -/
def add (m : Mixer) (x : Float) : Mixer := ⟨m.total + x⟩

/-- Takes the total. -/
def take (m : Mixer) : Float × Mixer := (m.total, new)

end Mixer

end StackSynth
