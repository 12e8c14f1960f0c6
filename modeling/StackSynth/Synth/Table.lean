import StackSynth.Synth.Pattern

/-!
# Interpolating tables

A table is a ring of values that is read at any position: between two entries by linear
interpolation, and after the last entry towards the first. Places are written like those of a
pattern.
-/

namespace StackSynth

/-- A ring of values that is read between its entries. -/
structure Table where
  /-- The entries. -/
  pattern : Pattern Float
  deriving Inhabited

namespace Table

/-- A table of `length` zeros, and at least one. -/
def new (length : Nat) : Table := ⟨.new length 0⟩

/-- Writes the entry that a number names. -/
def set (t : Table) (index value : Float) : Table := ⟨t.pattern.set index value⟩

/-- The value at a position, which is wrapped into the table first. What is no place reads zero. -/
def read (t : Table) (position : Float) : Float :=
  if !position.isFinite then 0
  else
    let size := t.pattern.entries.size
    let wrapped := Double.euclid position (.ofNat size)
    let base := Double.floor wrapped
    let fraction := wrapped - base
    let place := min (Double.toNat base) (size - 1)
    let a := t.pattern.get place
    let b := t.pattern.get (place + 1)
    a + (b - a) * fraction

end Table

end StackSynth
