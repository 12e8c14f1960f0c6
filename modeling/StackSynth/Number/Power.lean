/-!
# Powers of two and of ten

Binary formats and widths are made of powers of two, decimals of powers of ten.
-/

namespace StackSynth

/-- The power of two with a given exponent. -/
def twoTo (exponent : Nat) : Nat := Nat.pow 2 exponent

/-- The power of ten with a given exponent. -/
def tenTo (exponent : Nat) : Nat := Nat.pow 10 exponent

end StackSynth
