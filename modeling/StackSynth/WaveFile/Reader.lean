import StackSynth.Number.Sample
import StackSynth.WaveFile.Error

/-!
# Reading wave files

A wave file is a sequence of chunks behind a header. Chunks are taken in order up to the one that
holds the data, which has to follow the one that describes the format; unknown chunks are passed
over, and nothing pads a chunk of odd length. The length in the header does not count.

The format is checked before the encoding of the samples, and the encoding only when the first
sample is read: a file without samples has no unsupported ones.
-/

namespace StackSynth.WaveFile

/-- How samples are encoded. -/
inductive Encoding where
  | integer
  | float
  deriving DecidableEq, Repr

/-- What the format chunk describes. -/
structure Format where
  channels : Nat
  /-- Frames per second. -/
  sampleRate : Nat
  /-- Bits of a sample that count. -/
  bits : Nat
  /-- Bytes that a sample takes. -/
  bytes : Nat
  encoding : Encoding
  deriving DecidableEq, Repr

/-- A reader of bytes that may fail. -/
abbrev ByteReader := StateT (List UInt8) (Except WaveError)

def fail {α : Type} (e : WaveError) : ByteReader α := fun _ => .error e

def require (ok : Bool) (flaw : WaveFlaw) : ByteReader Unit :=
  if ok then pure () else fail (.illFormed flaw)

/-- The next `n` bytes. -/
def take (n : Nat) : ByteReader (List UInt8) := fun bytes =>
  let front := bytes.take n
  if front.length < n then .error .truncated else .ok (front, bytes.drop n)

/-- The natural number that bytes write, the least significant byte first. -/
def ofLittleEndian (bytes : List UInt8) : Nat := bytes.foldr (fun b n => b.toNat + 256 * n) 0

/-- The next number of `n` bytes. -/
def number (n : Nat) : ByteReader Nat := do return ofLittleEndian (← take n)

/-- Passes over `n` bytes. -/
def skip (n : Nat) : ByteReader Unit := do let _ ← take n

/-- The bytes of an ASCII tag. -/
def tag (text : String) : List UInt8 := text.toList.map fun c => c.toNat.toUInt8

/-- The identifier of an integer encoding; that of a float encoding has a `3` in front. -/
def integerGuid : List UInt8 := [1, 0, 0, 0, 0, 0, 0x10, 0, 0x80, 0, 0, 0xaa, 0, 0x38, 0x9b, 0x71]

/-- The identifier of a float encoding. -/
def floatGuid : List UInt8 := 3 :: integerGuid.drop 1

/-! ## The format chunk -/

/-- Integer samples, described in one of three lengths. -/
def integerFormat (length : Nat) (format : Format) : ByteReader Format := do
  require (length = 16 || length = 18 || length = 40) .formatLength
  skip (min (length - 16) 2)
  require (length = 16 || format.bits = 8 || format.bits = 16 || format.bits = 24) .bitsNotPcm
  skip (length - 18)
  return format

/-- Float samples. -/
def floatFormat (length : Nat) (format : Format) : ByteReader Format := do
  require (length = 16 || length = 18) .formatLength
  if length = 18 then
    require ((← number 2) = 0) .extensionLength
  require (format.bits = 32) .bitsNotFloat
  return { format with encoding := .float }

/-- Samples whose encoding an identifier names. -/
def extensibleFormat (length : Nat) (format : Format) : ByteReader Format := do
  require (40 ≤ length) .formatLength
  require ((← number 2) = 22) .longExtensionLength
  let valid ← number 2
  skip 4
  let guid ← take 16
  let format := if 0 < valid then { format with bits := valid } else format
  if guid = integerGuid then return format
  else if guid = floatGuid then return { format with encoding := .float }
  else fail .unsupported

/-- Reads a format chunk of a given length. -/
def readFormat (length : Nat) : ByteReader Format := do
  require (16 ≤ length) .formatTooShort
  let kind ← number 2
  let channels ← number 2
  let sampleRate ← number 4
  let byteRate ← number 4
  let blockAlign ← number 2
  let bits ← number 2
  require (channels ≠ 0) .noChannels
  let bytes := blockAlign / channels
  require (bytes * 8 < twoTo 16 && bits ≤ bytes * 8) .bitsExceedSample
  require (blockAlign * sampleRate < twoTo 32 && byteRate = blockAlign * sampleRate)
    .inconsistentRates
  require (bits % 8 = 0) .bitsNotWholeBytes
  require (bits ≠ 0) .noBits
  let format : Format := ⟨channels, sampleRate, bits, bytes, .integer⟩
  match kind with
  | 1 => integerFormat length format
  | 3 => floatFormat length format
  | 0xfffe => extensibleFormat length format
  | _ => fail .unsupported

/-! ## The chunks -/

/-- Reads chunks up to the header of the data, and gives the format and the length of the data.
Every chunk header takes eight bytes, so there are at most `fuel` of them in `fuel` bytes. -/
def readChunks (fuel : Nat) (format : Option Format) : ByteReader (Format × Nat) :=
  match fuel with
  | 0 => fail .truncated
  | fuel + 1 => do
    let kind ← take 4
    let length ← number 4
    if kind = tag "data" then
      match format with
      | some format => return (format, length)
      | none => fail (.illFormed .missingFormat)
    else if kind = tag "fmt " then
      readChunks fuel (some (← readFormat length))
    else if kind = tag "fact" then
      skip 4
      readChunks fuel format
    else
      skip length
      readChunks fuel format

/-! ## The samples -/

/-- The integer that `bits` bits write in two's complement. -/
def ofTwosComplement (bits n : Nat) : Int :=
  if n % twoTo bits < twoTo (bits - 1) then (n % twoTo bits : Nat)
  else (n % twoTo bits : Nat) - (twoTo bits : Nat)

/-- The value of one sample. Integers are scaled so that the full range goes from minus one to
one. -/
def readSample (format : Format) : ByteReader Float := do
  match format.encoding, format.bytes, format.bits with
  | .float, 4, 32 => return (Sample.mk (← number 4).toUInt32).toDouble
  | .integer, 1, 8 => return scaled 8 ((← number 1 : Nat) - 128)
  | .integer, 2, 16 => return scaled 16 (ofTwosComplement 16 (← number 2))
  | .integer, 3, 24 => return scaled 24 (ofTwosComplement 24 (← number 3))
  | .integer, 4, 24 => return scaled 24 (ofTwosComplement 24 (← number 4))
  | .integer, 4, 32 => return scaled 32 (ofTwosComplement 32 (← number 4))
  | _, bytes, _ => if 4 < bytes then fail .tooWide else fail .unsupported
where
  /-- An integer as a part of the full range. -/
  scaled (bits : Nat) (n : Int) : Float := Double.ofInt n / Double.ofInt (twoTo (bits - 1))

/-- Reads `n` samples behind those in `out`. -/
def readSamples (format : Format) (out : Array Float) : Nat → ByteReader (Array Float)
  | 0 => return out
  | n + 1 => do readSamples format (out.push (← readSample format)) n

/-- Samples with their channels interleaved. -/
structure Interleaved where
  format : Format
  samples : Array Float

/-- Reads a whole file. -/
def readFile : ByteReader Interleaved := fun bytes => do
  let (format, length, bytes) ← header bytes
  let (samples, bytes) ← readSamples format #[] (length / format.bytes) bytes
  return (⟨format, samples⟩, bytes)
where
  /-- Reads everything in front of the samples. -/
  header (bytes : List UInt8) : Except WaveError (Format × Nat × List UInt8) := do
    let ((), bytes) ← (do
      require ((← take 4) = tag "RIFF") .noRiffTag
      skip 4
      require ((← take 4) = tag "WAVE") .noWaveTag : ByteReader Unit) bytes
    let ((format, length), bytes) ← readChunks (bytes.length + 1) none bytes
    let ((), bytes) ← (do
      require (length % format.bytes = 0) .dataNotWholeSamples
      require (length / format.bytes % format.channels = 0)
        .dataNotWholeFrames : ByteReader Unit) bytes
    return (format, length, bytes)

/-- The samples of the bytes of a wave file. -/
def decode (bytes : List UInt8) : Except WaveError Interleaved := (readFile bytes).map Prod.fst

end StackSynth.WaveFile
