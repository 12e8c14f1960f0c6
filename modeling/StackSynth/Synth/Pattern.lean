import StackSynth.Number.Double

/-!
# Step patterns

A pattern is a ring of entries that a step count runs through again and again. Programs write to it
by a number, whose integer part is taken modulo the length, so negative places count from the end.
-/

namespace StackSynth

/-- A ring of entries. -/
structure Pattern (α : Type) where
  /-- The entries. -/
  entries : Array α
  size_pos : 0 < entries.size

/-- The place in a ring of `size` entries that a number names. -/
def ringPlace (size : Nat) (index : Float) : Nat :=
  (Double.toInt64 (Double.floor index) % size).toNat

namespace Pattern

variable {α : Type}

/-- A pattern of `length` entries, and at least one. -/
def new (length : Nat) (entry : α) : Pattern α :=
  ⟨Array.replicate (max length 1) entry, by rw [Array.size_replicate]; omega⟩

instance [Inhabited α] : Inhabited (Pattern α) := ⟨new 1 default⟩

/-- Writes the entry that a number names. -/
def set : Pattern α → Float → α → Pattern α
  | ⟨entries, h⟩, index, x =>
    ⟨entries.setIfInBounds (ringPlace entries.size index) x, by simpa using h⟩

/-- The entry of a step. -/
def get (p : Pattern α) (step : Nat) : α :=
  have : step % p.entries.size < p.entries.size := Nat.mod_lt _ p.size_pos
  p.entries[step % p.entries.size]

end Pattern

end StackSynth
