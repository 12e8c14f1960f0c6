import StackSynth.Number.Double

/-!
# Arithmetic that a module may be run with

Clocks, envelopes and samplers measure time and level by adding, scaling and comparing numbers. They
are written once for every type that offers these operations. A running synthesizer uses 64-bit
numbers, where each operation rounds; with exact numbers the same definitions say what the modules
do apart from rounding.
-/

namespace StackSynth

/-- A type of numbers that a module can be run with. -/
class Quantity (α : Type) extends Add α, Sub α, Mul α, Div α where
  /-- The natural numbers. -/
  ofNat : Nat → α
  /-- Comparison. -/
  lt : α → α → Bool
  /-- Equality as numbers. -/
  eq : α → α → Bool
  /-- Whether this is a number other than an infinity. -/
  isFinite : α → Bool
  /-- The integer part of a number that is not negative. -/
  toNat : α → Nat

namespace Quantity

instance : Quantity Float where
  ofNat := Float.ofNat
  lt a b := a < b
  eq a b := a == b
  isFinite := Float.isFinite
  toNat := Double.toNat

variable {α : Type} [Quantity α]

/-- Zero. -/
def zero : α := ofNat 0

/-- One. -/
def one : α := ofNat 1

/-- The decimal with the digits of `n`, the last `places` of them after the point. -/
def decimal (n places : Nat) : α := ofNat n / ofNat (tenTo places)

/-- Whether the first number is at most the second. -/
def le (a b : α) : Bool := lt a b || eq a b

end Quantity

end StackSynth
