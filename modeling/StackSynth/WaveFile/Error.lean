import StackSynth.Storage.Folder

/-!
# Why a wave file is refused

The errors of reading and writing wave files. An ill-formed file says what is wrong with it; a file
that is well formed may still hold samples in an encoding that is not supported.
-/

namespace StackSynth

/-- What is wrong with an ill-formed wave file. -/
inductive WaveFlaw where
  | noRiffTag
  | noWaveTag
  | missingFormat
  | formatTooShort
  | noChannels
  | bitsExceedSample
  | inconsistentRates
  | bitsNotWholeBytes
  | noBits
  | formatLength
  | bitsNotPcm
  | extensionLength
  | bitsNotFloat
  | longExtensionLength
  | dataNotWholeSamples
  | dataNotWholeFrames
  deriving DecidableEq, Repr

/-- The text of a flaw. -/
def WaveFlaw.message : WaveFlaw → String
  | .noRiffTag => "no RIFF tag found"
  | .noWaveTag => "no WAVE tag found"
  | .missingFormat => "missing fmt chunk"
  | .formatTooShort => "invalid fmt chunk size"
  | .noChannels => "file contains zero channels"
  | .bitsExceedSample => "sample bits exceeds size of sample"
  | .inconsistentRates => "inconsistent fmt chunk"
  | .bitsNotWholeBytes => "bits per sample is not a multiple of 8"
  | .noBits => "bits per sample is 0"
  | .formatLength => "unexpected fmt chunk size"
  | .bitsNotPcm => "bits per sample is not 8 or 16"
  | .extensionLength => "unexpected WAVEFORMATEX size"
  | .bitsNotFloat => "bits per sample is not 32"
  | .longExtensionLength => "unexpected WAVEFORMATEXTENSIBLE size"
  | .dataNotWholeSamples => "data chunk length is not a multiple of sample size"
  | .dataNotWholeFrames => "invalid data chunk length"

/-- Why a wave file cannot be read or written. -/
inductive WaveError where
  /-- The operating system refuses. -/
  | os (error : OsError)
  /-- The file ends too early. -/
  | truncated
  /-- The file is ill formed. -/
  | illFormed (flaw : WaveFlaw)
  /-- Samples are wider than four bytes. -/
  | tooWide
  /-- The encoding of the samples is not supported. -/
  | unsupported
  deriving DecidableEq, Repr

/-- The text of an error. -/
def WaveError.message : WaveError → String
  | .os e => e.message
  | .truncated => "Failed to read enough bytes."
  | .illFormed flaw => "Ill-formed WAVE file: " ++ flaw.message
  | .tooWide => "The sample has more bits than the destination type."
  | .unsupported => "The wave format of the file is not supported."

end StackSynth
