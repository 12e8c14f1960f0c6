import StackSynth.Number.Sample
import StackSynth.WaveFile.Error
import StackSynth.WaveFile.Reader

/-!
# Writing stereo wave files

Two channels of equal length are written as one file. With 32 bits the samples are stored as they
are; with fewer they are scaled to integers, everything outside the range being moved to its end and
what is no number becoming zero.

Up to 16 bits have the short format chunk, more have the long one that names the encoding.
-/

namespace StackSynth.WaveFile

/-- The bytes of a number, the least significant first. -/
def littleEndian (count n : Nat) : List UInt8 :=
  match count with
  | 0 => []
  | count + 1 => (n % 256).toUInt8 :: littleEndian count (n / 256)

/-- The format of a stereo file. -/
structure StereoSpec where
  /-- Frames per second. -/
  sampleRate : Nat := 48000
  /-- Bits of a sample: 32 for samples as they are, fewer for integers. -/
  bits : Nat := 32

/-- The integer that a sample becomes with `bits` bits. -/
def quantize (bits : Nat) (s : Sample) : Int :=
  let most := twoTo (max 2 (min bits 31) - 1)
  let scaled := (s * .ofDouble (.ofNat most)).toDouble
  Double.truncate (Double.clamp (-(.ofNat most)) (.ofNat (most - 1)) scaled)

/-- A sample in the encoding of `bits` bits. Eight-bit samples are stored from zero up. -/
def encodeSample (bits : Nat) (s : Sample) : List UInt8 :=
  if bits = 32 then littleEndian 4 s.bits.toNat
  else
    let n := quantize bits s
    if bits = 8 then littleEndian 1 (n + 128).toNat
    else littleEndian (bits / 8) (n % (twoTo bits : Nat)).toNat

/-- Everything in front of the samples, for `size` bytes of samples. -/
def header (spec : StereoSpec) (size : Nat) : List UInt8 :=
  let bytes := spec.bits / 8
  let long := 16 < spec.bits
  let format :=
    littleEndian 2 (if long then 0xfffe else 1) ++ littleEndian 2 2
      ++ littleEndian 4 spec.sampleRate ++ littleEndian 4 (2 * bytes * spec.sampleRate)
      ++ littleEndian 2 (2 * bytes) ++ littleEndian 2 spec.bits
      ++ (if long then
            littleEndian 2 22 ++ littleEndian 2 spec.bits ++ littleEndian 4 3
              ++ (if spec.bits = 32 then floatGuid else integerGuid)
          else [])
  tag "RIFF" ++ littleEndian 4 (20 + format.length + size) ++ tag "WAVE"
    ++ tag "fmt " ++ littleEndian 4 format.length ++ format
    ++ tag "data" ++ littleEndian 4 size

/-- The bytes of a stereo file. -/
def encode (spec : StereoSpec) (left right : Array Sample) : Array UInt8 :=
  let size := 2 * (spec.bits / 8) * left.size
  (left.zip right).foldl
    (fun out (l, r) => out ++ encodeSample spec.bits l ++ encodeSample spec.bits r)
    (header spec size).toArray

/-- Why a stereo file is not written. -/
inductive WriteError where
  /-- The channels are `left` and `right` frames long. -/
  | lengthMismatch (left right : Nat)
  | wave (error : WaveError)
  deriving DecidableEq, Repr

/-- The text of an error. -/
def WriteError.message : WriteError → String
  | .lengthMismatch left right =>
    s!"IO error: channel length mismatch: left {left} frames, right {right}"
  | .wave e => "WAV file error: " ++ e.message

/-- Whether samples are written with as many bits. -/
def isSupported (bits : Nat) : Bool := bits = 8 || bits = 16 || bits = 24 || bits = 32

/-- Writes a stereo file, and gives the files afterwards. Channels of different lengths touch no
file. The file is made before anything is put into it, and stays empty if its samples have a width
that is not supported. -/
def storeStereo (f : Folder) (path : String) (left right : Array Sample) (spec : StereoSpec)
    (stamp : Nat) : Except WriteError Unit × Folder :=
  if left.size ≠ right.size then (.error (.lengthMismatch left.size right.size), f)
  else
    let content := if isSupported spec.bits then encode spec left right else #[]
    match f.write path content stamp with
    | .error e => (.error (.wave (.os e)), f)
    | .ok written =>
      (if isSupported spec.bits then .ok () else .error (.wave .unsupported), written)

/-- The files after a stereo file was written. -/
def writeStereo (f : Folder) (path : String) (left right : Array Sample) (spec : StereoSpec)
    (stamp : Nat) : Except WriteError Folder :=
  let (result, written) := storeStereo f path left right spec stamp
  result.map fun () => written

end StackSynth.WaveFile
