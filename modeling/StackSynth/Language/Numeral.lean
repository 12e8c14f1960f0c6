/-!
# Decimal numerals

The numbers of the language are written `[+-]? digits ('.' digits?)?` or `[+-]? '.' digits`, with at
least one ASCII digit where `digits` is written. Nothing else is a numeral: no exponent, no other
base, no name for infinity.

A numeral is read in two steps. `Numeral.parse?` takes its parts from the text, and `Numeral.value`
gives the number nearest to it.

Counts and indices, which are no part of programs, are written without a point.
-/

namespace StackSynth

/-- The parts of a decimal numeral. -/
structure Numeral where
  /-- Whether a minus sign is written. -/
  negative : Bool
  /-- The digits before the point. -/
  whole : List Char
  /-- The digits after the point. -/
  fraction : List Char
  deriving DecidableEq, Repr

namespace Numeral

/-- Whether a character is an ASCII digit. -/
def isDigit (c : Char) : Bool := '0' ≤ c && c ≤ '9'

/-- The natural number that digits write. -/
def ofDigits (digits : List Char) : Nat :=
  digits.foldl (fun n c => 10 * n + (c.toNat - 48)) 0

/-- The digits around the first point of a text without a sign. -/
def parseUnsigned? (negative : Bool) (cs : List Char) : Option Numeral :=
  let whole := cs.takeWhile (· ≠ '.')
  let fraction := (cs.dropWhile (· ≠ '.')).drop 1
  if whole.all isDigit && fraction.all isDigit && !(whole.isEmpty && fraction.isEmpty) then
    some ⟨negative, whole, fraction⟩
  else none

/-- The parts of a text that is a numeral. -/
def parse? (text : String) : Option Numeral :=
  match text.toList with
  | '+' :: cs => parseUnsigned? false cs
  | '-' :: cs => parseUnsigned? true cs
  | cs => parseUnsigned? false cs

/-- The number nearest to a numeral; infinite if the numeral is too large. -/
def value (n : Numeral) : Float :=
  let magnitude := Float.ofScientific (ofDigits (n.whole ++ n.fraction)) true n.fraction.length
  if n.negative then -magnitude else magnitude

/-- The number that a text writes, if the text is a numeral. -/
def read? (text : String) : Option Float := (parse? text).map value

/-- The natural number that a text writes with one or more digits, perhaps behind a plus sign. -/
def readNatural? (text : String) : Option Nat :=
  let digits := match text.toList with
    | '+' :: cs => cs
    | cs => cs
  if !digits.isEmpty && digits.all isDigit then some (ofDigits digits) else none

end Numeral

end StackSynth
