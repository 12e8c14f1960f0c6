import StackSynth.Language.Numeral
import StackSynth.Number.Double

/-!
# Numbers in scientific notation

Settings files and command lines write numbers with a decimal exponent. The exponent may be written
with any number of digits; what lies far outside the range of 64-bit numbers is not computed
exactly.
-/

namespace StackSynth

/-- The number nearest to a row of digits, read as a natural number, times a power of ten. -/
def scientific (negative : Bool) (digits : List Char) (exponent : Int) : Float :=
  let digits := digits.dropWhile (· = '0')
  let leading : Int := exponent + digits.length
  let magnitude : Float :=
    if digits.isEmpty || leading < -400 then 0
    else if 400 < leading then 1.0 / 0.0
    else if 0 ≤ exponent then Double.ofRatio (Numeral.ofDigits digits * tenTo exponent.toNat) 1
    else Double.ofRatio (Numeral.ofDigits digits) (tenTo (-exponent).toNat)
  if negative then -magnitude else magnitude

/-- A text without the sign in front of it, and whether that was a minus sign. -/
def takeSign : List Char → Bool × List Char
  | '-' :: cs => (true, cs)
  | '+' :: cs => (false, cs)
  | cs => (false, cs)

/-- The integer that a text writes with digits, perhaps behind a sign. -/
def readInteger? (text : List Char) : Option Int :=
  let (negative, digits) := takeSign text
  if !digits.isEmpty && digits.all Numeral.isDigit then
    let n : Int := Numeral.ofDigits digits
    some (if negative then -n else n)
  else none

/-- The number that a text writes with a point, an exponent, both or neither, or names. Names are
`inf`, `infinity` and `nan`, in upper or lower case. -/
def readFloat? (text : String) : Option Float :=
  let (negative, cs) := takeSign text.toList
  let name := cs.map Char.toLower
  if name = "inf".toList || name = "infinity".toList then
    some (if negative then -(1.0 / 0.0) else 1.0 / 0.0)
  else if name = "nan".toList then some (0.0 / 0.0)
  else
    let front := cs.takeWhile fun c => c ≠ 'e' && c ≠ 'E'
    let whole := front.takeWhile (· ≠ '.')
    let fraction := (front.dropWhile (· ≠ '.')).drop 1
    let exponent? := match cs.drop front.length with
      | [] => some 0
      | _ :: exponent => readInteger? exponent
    match exponent? with
    | some exponent =>
      if (whole ++ fraction).all Numeral.isDigit && !(whole ++ fraction).isEmpty then
        some (scientific negative (whole ++ fraction) (exponent - fraction.length))
      else none
    | none => none

end StackSynth
