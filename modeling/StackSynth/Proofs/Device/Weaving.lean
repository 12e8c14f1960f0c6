import StackSynth.Device.Interleaver

/-!
# What stands in the buffer of a device

A stereo block is woven into the buffer of a device frame by frame, each frame over the samples that
stood in its place, and silence is written behind the last whole frame. Between them the frames and
the silence cover every place of the buffer, so what stood there before is gone
(`Interleaver.weave_congr`), and what stands there now follows from the block alone
(`Interleaver.plays_weave`).
-/

namespace StackSynth.Interleaver

/-! ## Writing into a buffer -/

section WriteAt

variable {output : Array Sample} {place k : Nat} {samples : List Sample}

@[simp] theorem size_writeAt (output : Array Sample) (place : Nat) (samples : List Sample) :
    (writeAt output place samples).size = output.size := by
  induction samples generalizing output place with
  | nil => rfl
  | cons s rest ih => rw [writeAt, ih, Array.size_setIfInBounds]

theorem getElem?_writeAt_of_lt (h : k < place) :
    (writeAt output place samples)[k]? = output[k]? := by
  induction samples generalizing output place with
  | nil => rfl
  | cons s rest ih =>
    rw [writeAt, ih (by omega), Array.getElem?_setIfInBounds_ne (by omega)]

theorem getElem?_writeAt {j : Nat} (hj : j < samples.length) (hroom : place + j < output.size) :
    (writeAt output place samples)[place + j]? = samples[j]? := by
  induction samples generalizing output place j with
  | nil => exact absurd hj (Nat.not_lt_zero j)
  | cons s rest ih =>
    cases j with
    | zero =>
      -- what follows is written behind the first place
      rw [Nat.add_zero] at hroom ⊢
      rw [writeAt, getElem?_writeAt_of_lt (by omega),
        Array.getElem?_setIfInBounds_self_of_lt hroom, List.getElem?_cons_zero]
    | succ j =>
      have hj' : j < rest.length := Nat.lt_of_succ_lt_succ hj
      rw [writeAt, ← Nat.add_assoc, Nat.add_right_comm,
        ih hj' (by rw [Array.size_setIfInBounds]; omega), List.getElem?_cons_succ]

end WriteAt

/-! ## Weaving -/

theorem length_spread {channels : Nat} (h : 1 ≤ channels) (left right : Sample) :
    (spread channels left right).length = channels := by
  match channels, h with
  | 1, _ => rfl
  | n + 2, _ => simp [spread]

section Weave

variable {channels : Nat} {left right output : Array Sample}

@[simp] theorem size_weaveFrames (channels : Nat) (left right output : Array Sample) (n : Nat) :
    (weaveFrames channels left right output n).size = output.size := by
  induction n with
  | zero => rfl
  | succ n ih =>
    rw [weaveFrames, List.range_succ, List.foldl_append, List.foldl_cons, List.foldl_nil,
      size_writeAt, ← weaveFrames, ih]

/-- Where a frame was woven, no later one is. -/
theorem getElem?_weaveFrames {n k c : Nat} (hchannels : 1 ≤ channels) (hk : k < n)
    (hc : c < channels) (hroom : n * channels ≤ output.size) :
    (weaveFrames channels left right output n)[k * channels + c]?
      = (spread channels (left[k]?.getD .zero) (right[k]?.getD .zero))[c]? := by
  induction n with
  | zero => exact absurd hk (Nat.not_lt_zero k)
  | succ n ih =>
    rw [Nat.succ_mul] at hroom
    rw [weaveFrames, List.range_succ, List.foldl_append, List.foldl_cons, List.foldl_nil,
      ← weaveFrames]
    rcases Nat.lt_succ_iff_lt_or_eq.mp hk with hk | rfl
    · have hbefore : k * channels + channels ≤ n * channels := by
        rw [← Nat.succ_mul]
        exact Nat.mul_le_mul_right channels hk
      rw [getElem?_writeAt_of_lt (by omega), ih hk (by omega)]
    · rw [getElem?_writeAt (by rw [length_spread hchannels]; exact hc)
        (by rw [size_weaveFrames]; omega)]

@[simp] theorem size_weave (channels : Nat) (left right output : Array Sample) :
    (weave channels left right output).size = output.size := by
  rw [weave, size_writeAt, size_weaveFrames]

theorem getElem?_weave_of_lt {k c : Nat} (hk : k < output.size / channels) (hc : c < channels) :
    (weave channels left right output)[k * channels + c]?
      = (spread channels (left[k]?.getD .zero) (right[k]?.getD .zero))[c]? := by
  have hbefore : k * channels + channels ≤ output.size / channels * channels := by
    rw [← Nat.succ_mul]
    exact Nat.mul_le_mul_right channels hk
  rw [weave, getElem?_writeAt_of_lt (by omega),
    getElem?_weaveFrames (by omega) hk hc (Nat.div_mul_le_self _ _)]

theorem getElem?_weave_of_le {j : Nat} (hbehind : output.size / channels * channels ≤ j)
    (hj : j < output.size) : (weave channels left right output)[j]? = some .zero := by
  obtain ⟨m, rfl⟩ := Nat.exists_eq_add_of_le hbehind
  rw [weave, getElem?_writeAt (by rw [List.length_replicate]; omega)
    (by rw [size_weaveFrames]; exact hj), List.getElem?_replicate_of_lt (by omega)]

/-- What stood in the buffer does not matter. -/
theorem weave_congr {output' : Array Sample} (hchannels : 1 ≤ channels)
    (h : output'.size = output.size) :
    weave channels left right output' = weave channels left right output := by
  refine Array.ext_getElem? fun j ↦ ?_
  by_cases hframe : j < output.size / channels * channels
  · have hk : j / channels < output.size / channels :=
      (Nat.div_lt_iff_lt_mul hchannels).mpr hframe
    have hc : j % channels < channels := Nat.mod_lt j hchannels
    rw [← Nat.div_add_mod' j channels, getElem?_weave_of_lt hk hc,
      getElem?_weave_of_lt (by rwa [h]) hc]
  · by_cases hj : j < output.size
    · rw [getElem?_weave_of_le (Nat.le_of_not_lt hframe) hj,
        getElem?_weave_of_le (by rw [h]; exact Nat.le_of_not_lt hframe) (by rwa [h])]
    · rw [Array.getElem?_eq_none (by rw [size_weave]; omega),
        Array.getElem?_eq_none (by rw [size_weave]; omega)]

end Weave

/-! ## The samples of a block -/

/-- The buffer of a device with some channels plays a stereo block. -/
structure Plays (channels : Nat) (left right output : Array Sample) : Prop where
  /-- With one channel, and also with none, a sample is half the sum of both channels. -/
  mono : channels ≤ 1 → ∀ (k : Nat) l r, left[k]? = some l → right[k]? = some r →
    output[k]? = some ((l + r) * Sample.half)
  /-- With more channels, the first one is the left one. -/
  first : 2 ≤ channels → ∀ (k : Nat) l, left[k]? = some l → output[k * channels]? = some l
  /-- The second one is the right one. -/
  second : 2 ≤ channels → ∀ (k : Nat) r, right[k]? = some r → output[k * channels + 1]? = some r
  /-- The others are silent. -/
  others : ∀ k c, k < left.size → 2 ≤ c → c < channels → output[k * channels + c]? = some .zero
  /-- Behind the last whole frame everything is silent. -/
  rest : ∀ j, left.size * max channels 1 ≤ j → j < output.size → output[j]? = some .zero

/-- A buffer into which a block of its length is woven plays the block. -/
theorem plays_weave {channels : Nat} {left right output : Array Sample}
    (hleft : left.size = output.size / max channels 1)
    (hright : right.size = output.size / max channels 1) :
    Plays channels left right (weave (max channels 1) left right output) := by
  have hlt : ∀ {channel : Array Sample} {k : Nat} {s : Sample},
      channel.size = output.size / max channels 1 → channel[k]? = some s →
        k < output.size / max channels 1 := by
    intro channel k s hsize hs
    rw [← hsize]
    exact (Array.getElem?_eq_some_iff.mp hs).1
  have hmany : ∀ {k c : Nat}, 2 ≤ channels → k < output.size / max channels 1 → c < channels →
      (weave (max channels 1) left right output)[k * channels + c]?
        = (spread channels (left[k]?.getD .zero) (right[k]?.getD .zero))[c]? := by
    intro k c htwo hk hc
    rw [Nat.max_eq_left (Nat.le_of_succ_le htwo)] at hk ⊢
    exact getElem?_weave_of_lt hk hc
  refine ⟨fun hone k l r hl hr ↦ ?mono, fun htwo k l hl ↦ ?first, fun htwo k r hr ↦ ?second,
    fun k c hk hc hlast ↦ ?others, fun j hbehind hj ↦ ?rest⟩
  case mono =>
    have hk := hlt hleft hl
    rw [Nat.max_eq_right hone] at hk ⊢
    have hwoven : (weave 1 left right output)[k * 1 + 0]? = _ := getElem?_weave_of_lt hk Nat.one_pos
    rw [Nat.mul_one, Nat.add_zero, hl, hr] at hwoven
    exact hwoven
  case first =>
    obtain ⟨n, rfl⟩ := Nat.exists_eq_add_of_le' htwo
    have hwoven := hmany (c := 0) htwo (hlt hleft hl) (by omega)
    rwa [Nat.add_zero, hl] at hwoven
  case second =>
    obtain ⟨n, rfl⟩ := Nat.exists_eq_add_of_le' htwo
    have hwoven := hmany (c := 1) htwo (hlt hright hr) (by omega)
    rwa [hr] at hwoven
  case others =>
    obtain ⟨n, rfl⟩ := Nat.exists_eq_add_of_le' (Nat.le_trans hc (Nat.le_of_lt hlast))
    obtain ⟨m, rfl⟩ := Nat.exists_eq_add_of_le' hc
    rw [hmany (Nat.le_add_left 2 n) (by rwa [← hleft]) hlast]
    exact List.getElem?_replicate_of_lt (by omega)
  case rest =>
    rw [size_weave] at hj
    rw [hleft] at hbehind
    exact getElem?_weave_of_le hbehind hj

end StackSynth.Interleaver
