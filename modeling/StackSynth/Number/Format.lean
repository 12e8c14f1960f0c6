import StackSynth.Number.Power

/-!
# Binary floating-point formats

A finite number of a binary format is `significand · 2 ^ exponent`, and its bit pattern without the
sign is a natural number that grows with the magnitude. Both directions live here once, for every
width: `decode` reads a pattern, `encode` rounds an exact `m · 2 ^ q` to the nearest pattern.

## Why one integer does both fields

Write `p` for the precision and let the exponent field count steps above the least exponent. Then
the pattern of a number with significand `s` is `field * 2 ^ (p - 1) + s` less one leading bit when
that bit is there, so a carry out of the significand moves into the exponent field by itself and
`encode` needs no case for it.
-/

namespace StackSynth

/-- A binary format: how many bits a significand has, the exponent of the smallest step, and the
pattern that stands for infinity. -/
structure BinaryFormat where
  /-- Bits of a significand, the leading one included. -/
  precision : Nat
  /-- Exponent of the least step, shared by all subnormal numbers. -/
  least : Int
  /-- Pattern of positive infinity; larger patterns are not numbers. -/
  infinity : Nat

namespace BinaryFormat

/-- The 64-bit format. -/
def double : BinaryFormat := ⟨53, -1074, 0x7ff0000000000000⟩

/-- The 32-bit format. -/
def single : BinaryFormat := ⟨24, -149, 0x7f800000⟩

/-- Significand and exponent of the pattern `bits` of a finite magnitude. -/
def decode (f : BinaryFormat) (bits : Nat) : Nat × Int :=
  let half := twoTo (f.precision - 1)
  let field := bits / half
  let low := bits % half
  if field = 0 then (low, f.least) else (low + half, f.least + (field - 1 : Nat))

/-- `m / 2 ^ shift`, rounded to the nearest integer; a tie goes to the even one. -/
def roundShift (m shift : Nat) : Nat :=
  let unit := twoTo shift
  let whole := m / unit
  let rest := 2 * (m % unit)
  if unit < rest ∨ (unit = rest ∧ whole % 2 = 1) then whole + 1 else whole

/-- Pattern of the magnitude nearest to `m · 2 ^ q`, a tie going to the even pattern. Whatever is
too large becomes infinity. -/
def encode (f : BinaryFormat) (m : Nat) (q : Int) : Nat :=
  if m = 0 then 0 else
    let width : Int := m.log2 + 1
    let exponent := max (q + width - f.precision) f.least
    let steps := (exponent - f.least).toNat * twoTo (f.precision - 1)
    let significand :=
      if exponent ≤ q then m * twoTo (q - exponent).toNat else roundShift m (exponent - q).toNat
    min (steps + significand) f.infinity

/-- The whole part of `num / den · 2 ^ shift`, and one more bit behind it that says whether anything
was cut off. -/
def cut (num den shift : Nat) : Nat :=
  let scaled := num * twoTo shift
  2 * (scaled / den) + if scaled % den = 0 then 0 else 1

/-- Pattern of the magnitude nearest to `num / den`, a tie going to the even pattern. The ratio is
cut behind more bits than a significand has, and of what is cut off rounding has to know only
whether there is anything. -/
def encodeRatio (f : BinaryFormat) (num den : Nat) : Nat :=
  let shift := den.log2 + f.precision + 8
  f.encode (cut num den shift) (-(shift + 1 : Nat))

end BinaryFormat

end StackSynth
