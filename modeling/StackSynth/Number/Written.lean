import StackSynth.Number.Shortest

/-!
# Numbers as text

Three spellings of a 64-bit number are written, all from the shortest decimal that reads back, plus
a fourth with a fixed number of decimal places.

| Style | `1` | `1e-7` | `1e23` | Used for |
|---|---|---|---|---|
| `plain` | `1` | `0.0000001` | 24 digits | the operand stack on the console |
| `inspected` | `1.0` | `1e-7` | `1e23` | listings of a machine and its program |
| `setting` | `1.0` | `0.0000001` | 24 digits and `.0` | settings files |
-/

namespace StackSynth

/-- How a number is spelled. -/
structure NumberStyle where
  /-- Whether a whole number keeps a `.0`. -/
  pointZero : Bool
  /-- Whether magnitudes below `10 ^ -4` and from `10 ^ 16` up get an exponent. -/
  exponents : Bool

namespace NumberStyle

/-- Positional digits, and nothing after a whole number. -/
def plain : NumberStyle := ⟨false, false⟩

/-- A point in every number, and an exponent for the very small and the very large. -/
def inspected : NumberStyle := ⟨true, true⟩

/-- Positional digits with a point in every number. -/
def setting : NumberStyle := ⟨true, false⟩

end NumberStyle

/-- A run of zeros. -/
def zeros (n : Nat) : String := "".pushn '0' n

/-- The digits of a decimal in their places. -/
def positional (pointZero : Bool) (d : Decimal) : String :=
  let text := toString d.digits
  if 0 ≤ d.exponent then
    text ++ zeros d.exponent.toNat ++ (if pointZero then ".0" else "")
  else
    let places := (-d.exponent).toNat
    let digits := zeros (places + 1 - text.length) ++ text
    let cut := digits.length - places
    String.ofList (digits.toList.take cut) ++ "." ++ String.ofList (digits.toList.drop cut)

/-- One digit, the rest after a point, and the exponent of the first. -/
def exponential (d : Decimal) : String :=
  let text := toString d.digits
  let rest := String.ofList (text.toList.drop 1)
  let exponent := d.exponent + (text.length - 1 : Nat)
  String.ofList (text.toList.take 1) ++ (if rest.isEmpty then "" else "." ++ rest)
    ++ "e" ++ toString exponent

/-- The text of a number in a style. The sign of a zero is written. -/
def NumberStyle.write (style : NumberStyle) (x : Float) : String :=
  if x.isNaN then "NaN"
  else
    let sign := if Double.isNegative x then "-" else ""
    if !x.isFinite then sign ++ "inf"
    else if x == 0 then sign ++ (if style.pointZero then "0.0" else "0")
    else
      let d := Decimal.ofDouble x
      let leading := d.exponent + ((toString d.digits).length - 1 : Nat)
      if style.exponents && (leading < -4 || 16 ≤ leading) then
        sign ++ exponential d
      else sign ++ positional style.pointZero d

/-- The exact value of a number to a fixed number of decimal places, a tie going to the even last
digit. -/
def writeFixed (places : Nat) (x : Float) : String :=
  if x.isNaN then "NaN"
  else
    let sign := if Double.isNegative x then "-" else ""
    if !x.isFinite then sign ++ "inf"
    else
      let (m, q) := Double.parts x
      let scaled := m * tenTo places
      let units :=
        if 0 ≤ q then scaled * twoTo q.toNat else BinaryFormat.roundShift scaled (-q).toNat
      let text := toString units
      let digits := zeros (places + 1 - text.length) ++ text
      let cut := digits.length - places
      sign ++ String.ofList (digits.toList.take cut)
        ++ (if places = 0 then "" else "." ++ String.ofList (digits.toList.drop cut))

end StackSynth
