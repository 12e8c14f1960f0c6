import StackSynth.Number.Double

/-!
# Audio samples

A `Sample` is a 32-bit floating-point number, kept as its bit pattern: a sample that is copied into
a buffer, a device period or a file is the same 32 bits again, whatever they stand for.

Arithmetic goes through 64 bits. The sum and the product of two samples, rounded to 64 bits and
then to 32, are the ones rounded to 32 bits at once, because 53 bits are more than twice 24 plus
one.
-/

namespace StackSynth

/-- A 32-bit floating-point audio sample. -/
structure Sample where
  /-- The pattern: sign, eight exponent bits, 23 bits of fraction. -/
  bits : UInt32
  deriving DecidableEq, Inhabited, Repr

namespace Sample

private def signBit : Nat := twoTo 31

/-- Silence. -/
def zero : Sample := ⟨0⟩

/-- The pattern that arithmetic without a result leaves: a quiet not-a-number with the sign set. -/
def noNumber : Sample := ⟨0xffc00000⟩

/-- The pattern without its sign. -/
def magnitude (s : Sample) : Nat := s.bits.toNat % signBit

/-- Whether the sign bit is set. -/
def isNegative (s : Sample) : Bool := s.bits.toNat ≥ signBit

/-- Whether the pattern is no number. -/
def isNaN (s : Sample) : Bool := BinaryFormat.single.infinity < s.magnitude

/-- The sample nearest to a 64-bit number, a tie going to the even pattern. -/
def ofDouble (x : Float) : Sample :=
  if x.isNaN then noNumber
  else
    let bits :=
      if x.isFinite then
        let (m, q) := Double.parts x
        BinaryFormat.single.encode m q
      else BinaryFormat.single.infinity
    ⟨(if Double.isNegative x then bits + signBit else bits).toUInt32⟩

/-- The value of a sample, which 64 bits hold exactly. -/
def toDouble (s : Sample) : Float :=
  if s.isNaN then 0.0 / 0.0
  else if s.magnitude = BinaryFormat.single.infinity then
    Double.ofParts s.isNegative 1 1024
  else
    let (m, q) := BinaryFormat.single.decode s.magnitude
    Double.ofParts s.isNegative m q

/-- The rounded sum. -/
def add (a b : Sample) : Sample := ofDouble (a.toDouble + b.toDouble)

/-- The rounded product. -/
def mul (a b : Sample) : Sample := ofDouble (a.toDouble * b.toDouble)

instance : Add Sample := ⟨add⟩
instance : Mul Sample := ⟨mul⟩

/-- One half. -/
def half : Sample := ⟨0x3f000000⟩

/-- The mean of two channels, as a device with one channel plays it. -/
def mix (left right : Sample) : Sample := (left + right) * half

/-- The greatest magnitude in a channel, at least zero; patterns that are no numbers do not
count. -/
def peak (channel : Array Sample) : Sample :=
  ⟨(channel.foldl (fun most (s : Sample) =>
    if s.isNaN then most else max most s.magnitude) 0).toUInt32⟩

end Sample

end StackSynth
