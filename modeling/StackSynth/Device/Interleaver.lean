import StackSynth.Engine.Scheduler

/-!
# From stereo to device channels

A device takes the samples of all its channels one after another, frame by frame. With one channel
it gets the mean of left and right; with two or more the first two channels are left and right, and
the others are silent. Samples behind the last whole frame are silent.

The stereo block is rendered into two buffers that grow to the longest block and are kept. A
renderer that leaves a frame alone therefore finds what stood there before.
-/

namespace StackSynth

/-- The buffers for stereo blocks, which are of one length. -/
structure Interleaver where
  left : Array Sample := #[]
  right : Array Sample := #[]
  size_eq : left.size = right.size := by rfl

/-- A renderer with a state: it is given two blocks of one length and gives back both. -/
abbrev Renderer (σ : Type) := σ → Array Sample → Array Sample → (Array Sample × Array Sample) × σ

namespace Interleaver

/-- Buffers for blocks of `frames` frames. -/
def withCapacity (frames : Nat) : Interleaver where
  left := Array.replicate frames .zero
  right := Array.replicate frames .zero

/-- The longest block that fits into the buffers. -/
def capacity (i : Interleaver) : Nat := i.left.size

/-- A buffer of a given length: the front of another one, with silence behind it. -/
def resize (frames : Nat) (buffer : Array Sample) : Array Sample :=
  buffer.extract 0 frames ++ Array.replicate (frames - buffer.size) .zero

@[simp] theorem size_resize (frames : Nat) (buffer : Array Sample) :
    (resize frames buffer).size = frames := by
  rw [resize, Array.size_append, Array.size_extract, Array.size_replicate]
  omega

/-- Both buffers with room for a block. Whether they have it is seen from the left one. -/
def reserve (i : Interleaver) (frames : Nat) : Interleaver :=
  if i.left.size < frames then
    { left := resize frames i.left, right := resize frames i.right, size_eq := by simp }
  else i

/-- A buffer with a block written over its front, as far as it reaches. -/
def putFront (block buffer : Array Sample) : Array Sample :=
  overwrite (block.extract 0 buffer.size) buffer

@[simp] theorem size_putFront (block buffer : Array Sample) :
    (putFront block buffer).size = buffer.size := by
  rw [putFront, overwrite, Array.size_append, Array.size_extract, Array.size_extract]
  omega

/-- The samples of one frame on a device. -/
def spread (channels : Nat) (left right : Sample) : List Sample :=
  match channels with
  | 0 | 1 => [Sample.mix left right]
  | n + 2 => left :: right :: List.replicate n .zero

/-- Writes samples into a buffer from a place on, as far as it reaches. -/
def writeAt (output : Array Sample) (place : Nat) : List Sample → Array Sample
  | [] => output
  | s :: rest => writeAt (output.setIfInBounds place s) (place + 1) rest

/-- Writes the first frames of a stereo block into the buffer of a device. -/
def weaveFrames (channels : Nat) (left right output : Array Sample) (frames : Nat) :
    Array Sample :=
  (List.range frames).foldl (fun out k =>
    writeAt out (k * channels)
      (spread channels (left[k]?.getD .zero) (right[k]?.getD .zero))) output

/-- Writes a stereo block into the buffer of a device, and silence behind the last whole frame. -/
def weave (channels : Nat) (left right output : Array Sample) : Array Sample :=
  let frames := output.size / channels
  writeAt (weaveFrames channels left right output frames) (frames * channels)
    (List.replicate (output.size - frames * channels) .zero)

/-- Has a block rendered into the buffer of a device. -/
def fillInto {σ : Type} (render : Renderer σ) (output : Array Sample) (channels : Nat) (state : σ)
    (i : Interleaver) : Array Sample × σ × Interleaver :=
  let channels := max channels 1
  let frames := output.size / channels
  let i := i.reserve frames
  let ((l, r), state) := render state (i.left.extract 0 frames) (i.right.extract 0 frames)
  (weave channels l r output, state,
    { left := putFront l i.left, right := putFront r i.right
      size_eq := by rw [size_putFront, size_putFront, i.size_eq] })

/-- Has a block rendered for `size` samples of a device. -/
def fill {σ : Type} (render : Renderer σ) (size channels : Nat) (state : σ) (i : Interleaver) :
    Array Sample × σ × Interleaver :=
  i.fillInto render (Array.replicate size .zero) channels state

end Interleaver

end StackSynth
