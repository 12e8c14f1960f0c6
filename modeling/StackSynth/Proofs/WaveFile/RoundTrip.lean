import StackSynth.Proofs.Number.Float
import StackSynth.Proofs.Storage.Writing
import StackSynth.Proofs.WaveFile.Stereo
import StackSynth.Synth.Recording

/-!
# Recordings of what was rendered

A stereo file with samples as they are is a recording again: as many frames as were written, each
the mean of its two channels as 64-bit numbers, at the rate of the file. The samples may be any
patterns, those that are no numbers included.

What the file has to hold beside the samples is its rate, and with it the bytes of a second, which
take as many bits. So a rate is kept only if eight times the rate can be written as well
(`WaveFile.keepsRate_iff`).
-/

namespace StackSynth

namespace WaveFile

/-- The header of a stereo file is read as it was written: a file without frames keeps its rate. -/
def KeepsRate (rate : Nat) : Prop :=
  decode (encode ⟨rate, 32⟩ #[] #[]).toList = .ok ⟨stereo rate, #[]⟩

/-- A rate is kept if the bytes of a second are writable. -/
theorem keepsRate_iff {rate : Nat} : KeepsRate rate ↔ 8 * rate < 2 ^ 32 := by
  rw [KeepsRate, decode_encode rfl (by simp)]
  constructor
  · intro h
    split at h
    next hrate =>
      have heq : rate % 256 ^ 4 = rate :=
        congrArg (fun i ↦ i.format.sampleRate) (Except.ok.inj h)
      rw [heq] at hrate
      exact hrate
    next => cases h
  · intro h
    rw [Nat.mod_eq_of_lt (by omega), if_pos (by omega)]
    simp [interleave]

end WaveFile

namespace Recording

open WaveFile

theorem mean_pair (x y : Float) : mean [x, y] = (x + y) / 2 := by
  rw [mean, List.foldl_cons, List.foldl_cons, List.foldl_nil, Double.negZero_add]
  rfl

/-- The two samples of a frame stand next to each other. -/
theorem extract_interleave {left right : Array Sample} {i : Nat} {l r : Sample}
    (h : (left.zip right)[i]? = some (l, r)) :
    ((interleave left right).drop (2 * i)).take 2 = [l, r] := by
  rw [interleave]
  rw [← Array.getElem?_toList] at h
  generalize (left.zip right).toList = frames at h
  induction frames generalizing i with
  | nil => cases h
  | cons frame frames ih =>
    cases i with
    | zero =>
      cases h
      rfl
    | succ i => exact ih h

/-- Two channels that stand next to each other are mixed frame by frame. -/
theorem mixFrames_interleave (value : Sample → Float) {left right : Array Sample}
    (h : left.size = right.size) :
    mixFrames 2 ((interleave left right).map value).toArray
      = Array.zipWith (fun l r ↦ (value l + value r) / 2) left right := by
  have hsize : (interleave left right).length / 2 = left.size := by
    rw [length_interleave h]
    omega
  rw [mixFrames]
  refine Array.ext (by simp [hsize, h]) fun i hi hi' ↦ ?_
  have hl : i < left.size := by simpa [hsize] using hi
  have hr : i < right.size := h ▸ hl
  have hframe : (left.zip right)[i]? = some (left[i], right[i]) := by
    rw [Array.getElem?_eq_getElem (by rw [Array.size_zip]; omega), Array.getElem_zip]
  have hpair := extract_interleave hframe
  have hmixed : (((interleave left right).map value).toArray.extract (i * 2)
      ((i + 1) * 2)).toList = [value left[i], value right[i]] := by
    rw [Array.toList_extract, List.extract_eq_take_drop, ← List.map_drop, ← List.map_take,
      Nat.mul_comm i 2, show (i + 1) * 2 - 2 * i = 2 by omega, hpair]
    rfl
  rw [Array.getElem_map, Array.getElem_range, hmixed, mean_pair, Array.getElem_zipWith]

/-- What a stereo file is loaded as. -/
theorem decode_stereo {rate : Nat} {left right : Array Sample} (hsize : left.size = right.size)
    (hdata : 8 * left.size < 2 ^ 32) (hrate : KeepsRate rate) :
    Recording.decode (encode ⟨rate, 32⟩ left right).toList =
      .ok ⟨Array.zipWith (fun l r ↦ (l.toDouble + r.toDouble) / 2) left right, rate⟩ := by
  have hbytes := keepsRate_iff.mp hrate
  rw [Recording.decode, decode_encode hsize hdata, Nat.mod_eq_of_lt (by omega),
    if_pos (by omega)]
  change Except.ok (⟨mixFrames 2 _, rate⟩ : Recording Float) = _
  rw [mixFrames_interleave Sample.toDouble hsize]

end Recording

namespace WaveFile

end WaveFile

end StackSynth
