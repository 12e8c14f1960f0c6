import StackSynth.Number.Double

/-!
# The shortest decimal that reads back

A decimal `digits · 10 ^ exponent` reads back as a given finite number when it lies between the
midpoints to the two neighbouring numbers, an endpoint included when the significand is even. The
shortest such decimal is found by asking, for one digit, two digits and so on, whether the decimal
grid of that size has a point inside. Only the two grid points around the value need a look: if any
point of the grid is inside, one of these is.

Seventeen digits always suffice.
-/

namespace StackSynth

/-- A decimal `digits · 10 ^ exponent`. -/
structure Decimal where
  /-- The digits, as one natural number. -/
  digits : Nat
  /-- The power of ten that scales them. -/
  exponent : Int
  deriving DecidableEq, Repr

namespace Decimal

/-- A positive rational with the common denominator left out of sight: `num / den`. -/
structure Ratio where
  num : Nat
  den : Nat

def Ratio.ofBinary (m : Nat) (q : Int) : Ratio :=
  if 0 ≤ q then ⟨m * twoTo q.toNat, 1⟩ else ⟨m, twoTo (-q).toNat⟩

def Ratio.lt (a b : Ratio) : Bool := a.num * b.den < b.num * a.den

def Ratio.ofDecimal (d : Decimal) : Ratio :=
  if 0 ≤ d.exponent then ⟨d.digits * tenTo d.exponent.toNat, 1⟩
  else ⟨d.digits, tenTo (-d.exponent).toNat⟩

/-- The interval of reals that read back as one number, each end included or not. -/
structure Interval where
  lo : Ratio
  hi : Ratio
  closed : Bool

def Interval.has (i : Interval) (r : Ratio) : Bool :=
  if i.closed then !r.lt i.lo && !i.hi.lt r else i.lo.lt r && r.lt i.hi

/-- The reals nearest to `m · 2 ^ q`. Below a power of two the numbers lie twice as close. -/
def Interval.around (m : Nat) (q : Int) : Interval where
  lo :=
    if m = twoTo 52 ∧ -1074 < q then .ofBinary (4 * m - 1) (q - 2)
    else .ofBinary (4 * m - 2) (q - 2)
  hi := .ofBinary (4 * m + 2) (q - 2)
  closed := m % 2 = 0

/-- Number of decimal digits. -/
def width (n : Nat) : Nat := (Nat.toDigits 10 n).length

/-- The exponent of the leading decimal digit of a positive ratio. -/
def leading (r : Ratio) : Int :=
  let guess : Int := (width r.num : Int) - width r.den
  if r.lt (.ofDecimal ⟨1, guess⟩) then guess - 1 else guess

/-- The decimal on the grid of size `10 ^ exponent` that reads back and is nearest to `value`, the
larger one on a tie. -/
def onGrid (value : Ratio) (inside : Interval) (exponent : Int) : Option Decimal :=
  let (num, den) :=
    if 0 ≤ exponent then (value.num, value.den * tenTo exponent.toNat)
    else (value.num * tenTo (-exponent).toNat, value.den)
  let below : Decimal := ⟨num / den, exponent⟩
  let above : Decimal := ⟨num / den + 1, exponent⟩
  let nearer := if 2 * (num % den) < den then [below, above] else [above, below]
  nearer.find? fun d => inside.has (.ofDecimal d)

/-- A decimal without trailing zeros among its digits. -/
def strip : Nat → Decimal → Decimal
  | 0, d => d
  | n + 1, d => if d.digits % 10 = 0 then strip n ⟨d.digits / 10, d.exponent + 1⟩ else d

/-- The decimal with the fewest digits that reads back as the positive number `m · 2 ^ q`; of
several, the one nearest to it. -/
def shortest (m : Nat) (q : Int) : Decimal :=
  let value := Ratio.ofBinary m q
  let inside := Interval.around m q
  let top := leading value
  let found := (List.range 17).findSome? fun (n : Nat) => onGrid value inside (top - n)
  strip 18 (found.getD ⟨m, 0⟩)

/-- The shortest decimal of the magnitude of a finite number other than zero. -/
def ofDouble (x : Float) : Decimal :=
  let (m, q) := Double.parts x
  shortest m q

end Decimal

end StackSynth
