import StackSynth.CommandLine.Setup
import StackSynth.Number.Written

/-!
# Rendering into a file

A program is rendered block after block and written as a stereo file of 32-bit samples. A fault ends
the command; then no file is written.
-/

namespace StackSynth

/-- The sizes of the blocks that `frames` frames are cut into. -/
def blockSizes (blockSize frames : Nat) : List Nat :=
  List.replicate (frames / blockSize) blockSize
    ++ if frames % blockSize = 0 then [] else [frames % blockSize]

/-- Renders blocks of given sizes behind what is there already, up to the first fault. -/
def Engine.renderBlocks {σ : Type} (e : Engine σ) (left right : Array Sample) :
    List Nat → Except Fault ((Array Sample × Array Sample) × Engine σ)
  | [] => .ok ((left, right), e)
  | size :: sizes =>
    match e.processFrames size with
    | ((l, r), none, e) => e.renderBlocks (left ++ l) (right ++ r) sizes
    | (_, some fault, _) => .error fault

/-- The line that tells what was written. -/
def renderedLine (path : String) (sampleRate : Nat) (left right : Array Sample) : String :=
  let seconds : Float := .ofNat left.size / .ofNat sampleRate
  "Wrote " ++ path ++ " (" ++ writeFixed 2 seconds
    ++ " s, peak L " ++ writeFixed 3 (Sample.peak left).toDouble
    ++ " R " ++ writeFixed 3 (Sample.peak right).toDouble ++ ")\n"

/-- What `render` prints, and the files afterwards. -/
def RenderArguments.run (a : RenderArguments) (w : Workplace) : Attempt (String × Folder) := do
  if !(a.seconds.isFinite && 0 ≤ a.seconds) then
    throw { message := "--seconds must be a non-negative number" }
  if a.blockSize = 0 then
    throw { message := "--block-size must be at least 1" }
  let e ← a.engine.engine w
  let (_, e) ← e.attemptReload w.folder a.program
  let e := e.setPlaying a.play
  let frames := Double.toNat (Double.round (a.seconds * .ofNat e.sampleRate))
  match e.renderBlocks #[] #[] (blockSizes a.blockSize frames) with
  | .error fault => throw { message := "runtime fault: " ++ fault.message }
  | .ok ((left, right), _) =>
    let folder ← (WaveFile.writeStereo w.folder a.output left right
      { sampleRate := e.sampleRate, bits := 32 } w.now).mapError WaveFile.WriteError.failure
    return (renderedLine a.output e.sampleRate left right, folder)

end StackSynth
