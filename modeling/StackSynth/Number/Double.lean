import StackSynth.Number.Format

/-!
# Exact operations on 64-bit numbers

Addition, multiplication and comparison of `Float` are the hardware's. The operations here are the
ones a synthesizer needs beside them: rounding to whole numbers, remainders, limits and conversions
to integers. Each is computed from the exact value `± significand · 2 ^ exponent`, so none of them
rounds unless its doc comment says so.

## Conversions saturate

An integer conversion drops the fraction, stops at the ends of the integer range and reads a
not-a-number as `0`. Infinities therefore become the ends of the range.
-/

namespace StackSynth.Double

/-- One past the largest 64-bit pattern without a sign. -/
def signBit : Nat := twoTo 63

/-- Whether the sign bit is set, for zeros and infinities too. -/
def isNegative (x : Float) : Bool := !x.isNaN && x.toBits.toNat ≥ signBit

/-- Significand and exponent of a finite magnitude. -/
def parts (x : Float) : Nat × Int := BinaryFormat.double.decode (x.toBits.toNat % signBit)

/-- The number nearest to `± m · 2 ^ q`, a tie going to the even significand. -/
def ofParts (negative : Bool) (m : Nat) (q : Int) : Float :=
  let bits := BinaryFormat.double.encode m q
  Float.ofBits (if negative then bits + signBit else bits).toUInt64

/-- The number nearest to a ratio, a tie going to the even significand. -/
def ofRatio (num den : Nat) : Float :=
  Float.ofBits (BinaryFormat.double.encodeRatio num den).toUInt64

/-- The number nearest to an integer. -/
def ofInt (n : Int) : Float := ofParts (n < 0) n.natAbs 0

/-! ## Whole numbers -/

/-- The magnitude of a finite number without its fraction, and whether a fraction was dropped. -/
private def wholePart (x : Float) : Nat × Bool :=
  let (m, q) := parts x
  if 0 ≤ q then (m * twoTo q.toNat, false)
  else
    let unit := twoTo (-q).toNat
    (m / unit, m % unit ≠ 0)

/-- The integer part of a finite number; `0` for all others. -/
def truncate (x : Float) : Int :=
  if x.isFinite then
    let whole := (wholePart x).1
    if isNegative x then -whole else whole
  else 0

/-- Whether `x` is finite and has no fraction. -/
def isWhole (x : Float) : Bool := x.isFinite && !(wholePart x).2

/-- The greatest whole number that is not above `x`. Infinities, not-a-numbers and whole numbers
are unchanged, so the floor of `-0` is `-0`. -/
def floor (x : Float) : Float :=
  if !x.isFinite || isWhole x then x
  else
    let whole := (wholePart x).1
    if isNegative x then ofParts true (whole + 1) 0 else ofParts false whole 0

/-- The least whole number that is not below `x`. -/
def ceil (x : Float) : Float := -floor (-x)

/-- The nearest whole number, a half going away from zero. -/
def round (x : Float) : Float :=
  if !x.isFinite then x
  else
    let (m, q) := parts x
    if 0 ≤ q then x
    else
      let unit := twoTo (-q).toNat
      let whole := m / unit
      ofParts (isNegative x) (if unit ≤ 2 * (m % unit) then whole + 1 else whole) 0

/-- Conversion to an integer between `lo` and `hi`. -/
def toIntWithin (lo hi : Int) (x : Float) : Int :=
  if x.isNaN then 0
  else if x.isFinite then max lo (min hi (truncate x))
  else if isNegative x then lo
  else hi

/-- Conversion to a natural number below `2 ^ 64`. -/
def toNat (x : Float) : Nat := (toIntWithin 0 (twoTo 64 - 1) x).toNat

/-- Conversion to an integer that fits 64 bits with a sign. -/
def toInt64 (x : Float) : Int := toIntWithin (-(twoTo 63 : Int)) (twoTo 63 - 1) x

/-! ## Remainders -/

/-- The exact remainder of a division that truncates; it carries the sign of the dividend. There is
none for an infinite dividend or a zero divisor, and an infinite divisor leaves the dividend. -/
def remainder (x y : Float) : Float :=
  if x.isNaN || y.isNaN || !x.isFinite || y == 0 then 0.0 / 0.0
  else if !y.isFinite then x
  else
    let (m, q) := parts x
    let (n, r) := parts y
    let unit := min q r
    let rest := (m * twoTo (q - unit).toNat) % (n * twoTo (r - unit).toNat)
    ofParts (isNegative x) rest unit

/-- The remainder that is never negative: a negative one is raised by the magnitude of the divisor,
and that sum may round up to the divisor itself. -/
def euclid (x y : Float) : Float :=
  let r := remainder x y
  if r < 0 then r + y.abs else r

/-! ## Limits

A not-a-number loses against any number, and of two equal operands the first is kept. -/

/-- The smaller operand. -/
def least (a b : Float) : Float := if a.isNaN then b else if b < a then b else a

/-- The greater operand. -/
def greatest (a b : Float) : Float := if a.isNaN then b else if a < b then b else a

/-- The nearest number between `lo` and `hi`; a not-a-number stays one. -/
def clamp (lo hi x : Float) : Float := if x < lo then lo else if hi < x then hi else x

/-- One for a true condition and zero for a false one. -/
def ofBool (b : Bool) : Float := if b then 1 else 0

end StackSynth.Double
