import StackSynth.Proofs.Number.Exact
import StackSynth.Synth.DelayLine

/-!
# The history in a delay line

A delay line stands for the sums of what was written in each sample, back to the first one
(`DelayLine.past`), although it keeps only as many of them as its ring has places and moves none.

The invariant is that every place of the ring holds what the history says (`DelayLine.Recalls`): the
place that was committed to `k` ticks ago, for every `k` up to the size of the ring, holds the sum
of the sample `k` ticks back. A tick overwrites the oldest place and thereby moves every other one
back by one tick (`Recalls.sample`).

Where a tap is read is arithmetic on numbers. The limits, the floor and the fraction of a tap are
all exact (`Double.HasValue`), as long as the size of the ring is. A ring that fits into an address
space of `2 ^ 56` bytes has at most `2 ^ 53` places, and up to there every count of places is.
-/

namespace StackSynth.DelayLine

open Double

/-! ## History -/

/-- One sample: what is written during it, and the tick that commits the sum. -/
def sample (d : DelayLine) (writes : List Float) : DelayLine := (writes.foldl write d).tick

/-- The line after samples and what has been written since the last tick. -/
def fed (sampleRate maxSeconds : Float) (samples : List (List Float)) (pending : List Float) :
    DelayLine :=
  pending.foldl write (samples.foldl sample (new sampleRate maxSeconds))

/-- The sum of what was written in the sample `k` ticks back, in the order of the writes, and zero
if there were fewer ticks. -/
def past (samples : List (List Float)) (k : Nat) : Float :=
  match samples.reverse[k - 1]? with
  | some writes => writes.foldl (· + ·) 0
  | none => 0

theorem past_concat_one (samples : List (List Float)) (writes : List Float) :
    past (samples ++ [writes]) 1 = writes.foldl (· + ·) 0 := by
  rw [past, List.reverse_append]
  rfl

theorem past_concat_succ (samples : List (List Float)) (writes : List Float) (k : Nat) :
    past (samples ++ [writes]) (k + 2) = past samples (k + 1) := by
  rw [past, past, List.reverse_append]
  rfl

/-! ## The ring -/

variable {d : DelayLine} {samples : List (List Float)} {pending : List Float} {k : Nat}

theorem buffer_tick : d.tick.buffer = d.buffer.setIfInBounds d.head d.input := rfl

theorem size_tick : d.tick.buffer.size = d.buffer.size := Array.size_setIfInBounds

theorem place_lt (d : DelayLine) (k : Nat) : d.place k < d.buffer.size :=
  Nat.mod_lt _ (Nat.lt_of_lt_of_le two_pos d.two_le_size)

theorem some_tap (d : DelayLine) (k : Nat) : some (d.tap k) = d.buffer[d.place k]? := by
  rw [Array.getElem?_eq_getElem (d.place_lt k)]
  rfl

section

variable (hhead : d.head < d.buffer.size)

include hhead

/-- Going back from the head ends at a place of the ring. -/
theorem place_eq (hk : k < d.buffer.size) : d.place (k + 1)
    = if k < d.head then d.head - (k + 1) else d.head + d.buffer.size - (k + 1) := by
  rw [place]
  split
  next h => rw [Nat.add_comm, Nat.add_sub_assoc h, Nat.add_mod_left, Nat.mod_eq_of_lt (by omega)]
  next h => exact Nat.mod_eq_of_lt (by omega)

theorem head_tick : d.tick.head = if d.head + 1 = d.buffer.size then 0 else d.head + 1 := by
  change (d.head + 1) % d.buffer.size = _
  split
  next heq => rw [heq, Nat.mod_self]
  next hne => exact Nat.mod_eq_of_lt (by omega)

theorem head_tick_lt : d.tick.head < d.tick.buffer.size := by
  rw [head_tick hhead, size_tick]
  split <;> omega

/-- The newest place is the one that the tick committed to. -/
theorem place_tick_one : d.tick.place 1 = d.head := by
  have hsize := d.two_le_size
  rw [place_eq (head_tick_lt hhead) (by rw [size_tick]; omega), head_tick hhead, size_tick]
  split <;> split <;> omega

/-- Every other place is one tick further back. -/
theorem place_tick_succ (hk : k + 1 < d.buffer.size) :
    d.tick.place (k + 2) = d.place (k + 1) := by
  rw [place_eq (head_tick_lt hhead) (by rwa [size_tick]), head_tick hhead, size_tick,
    place_eq hhead (by omega)]
  split <;> split <;> split <;> omega

/-- The head is as far back as the ring goes. -/
theorem place_ne_head (hk : k + 1 < d.buffer.size) : d.head ≠ d.place (k + 1) := by
  rw [place_eq hhead (by omega)]
  split <;> omega

end

/-- The ring holds the history, as far back as it goes, and beside it stands the sum of what is not
yet committed. -/
structure Recalls (samples : List (List Float)) (pending : List Float) (d : DelayLine) : Prop where
  head_lt : d.head < d.buffer.size
  tap : ∀ k < d.buffer.size, d.tap (k + 1) = past samples (k + 1)
  input : d.input = pending.foldl (· + ·) 0

namespace Recalls

theorem new (sampleRate maxSeconds : Float) : Recalls [] [] (new sampleRate maxSeconds) where
  head_lt := Nat.lt_of_lt_of_le two_pos (DelayLine.new sampleRate maxSeconds).two_le_size
  tap k _ := by
    have htap := (DelayLine.new sampleRate maxSeconds).some_tap (k + 1)
    rw [DelayLine.new, Array.getElem?_replicate] at htap
    split at htap
    next => exact Option.some_inj.mp htap
    next => cases htap
  input := rfl

theorem write (h : Recalls samples pending d) (x : Float) :
    Recalls samples (pending ++ [x]) (d.write x) where
  head_lt := h.head_lt
  tap := h.tap
  input := by
    rw [List.foldl_concat, ← h.input]
    rfl

theorem tick (h : Recalls samples pending d) : Recalls (samples ++ [pending]) [] d.tick where
  head_lt := head_tick_lt h.head_lt
  tap k hk := by
    rw [size_tick] at hk
    rw [← Option.some_inj, some_tap, buffer_tick]
    cases k with
    | zero =>
      rw [place_tick_one h.head_lt, Array.getElem?_setIfInBounds_self_of_lt h.head_lt, h.input,
        past_concat_one]
    | succ k =>
      -- The head is the oldest place, which nobody recalls any more.
      have hne := place_ne_head h.head_lt hk
      rw [place_tick_succ h.head_lt hk, Array.getElem?_setIfInBounds_ne hne, past_concat_succ,
        ← some_tap, h.tap k (by omega)]
  input := rfl

theorem foldl_write (h : Recalls samples pending d) (writes : List Float) :
    Recalls samples (pending ++ writes) (writes.foldl DelayLine.write d) := by
  induction writes generalizing pending d with
  | nil => rwa [List.append_nil]
  | cons x writes ih =>
    rw [List.append_cons]
    exact ih (h.write x)

/-- A line recalls everything that it has been fed. -/
theorem fed (sampleRate maxSeconds : Float) (samples : List (List Float)) (pending : List Float) :
    Recalls samples pending (fed sampleRate maxSeconds samples pending) := by
  have hsamples :
      Recalls samples [] (samples.foldl sample (DelayLine.new sampleRate maxSeconds)) := by
    induction samples using List.reverseRecOn with
    | nil => exact .new sampleRate maxSeconds
    | append_singleton samples writes ih =>
      rw [List.foldl_concat]
      exact (ih.foldl_write writes).tick
  exact hsamples.foldl_write pending

end Recalls

theorem size_foldl_write (d : DelayLine) (writes : List Float) :
    (writes.foldl write d).buffer.size = d.buffer.size := by
  induction writes generalizing d with
  | nil => rfl
  | cons x writes ih => exact ih (d.write x)

theorem size_fed (sampleRate maxSeconds : Float) (samples : List (List Float))
    (pending : List Float) : (fed sampleRate maxSeconds samples pending).buffer.size
      = (new sampleRate maxSeconds).buffer.size := by
  rw [fed, size_foldl_write]
  induction samples using List.reverseRecOn with
  | nil => rfl
  | append_singleton samples writes ih =>
    rw [List.foldl_concat, sample, size_tick, size_foldl_write, ih]

/-! ## Taps -/

/-- How many ticks back the newer of the two values stands that a tap is read from. -/
def back (d : DelayLine) (delay : Float) : Nat := toNat (floor (clamp 1 d.maxDelay delay))

/-- How far a tap is beyond the newer value. -/
def fraction (d : DelayLine) (delay : Float) : Float :=
  clamp 1 d.maxDelay delay - floor (clamp 1 d.maxDelay delay)

theorem read_eq (d : DelayLine) (delay : Float) : d.read delay =
    if d.fraction delay == 0 then d.tap (d.back delay)
    else d.tap (d.back delay)
      + (d.tap (d.back delay + 1) - d.tap (d.back delay)) * d.fraction delay := rfl

theorem read_congr {x y : Float} (h : clamp 1 d.maxDelay x = clamp 1 d.maxDelay y) :
    d.read x = d.read y := by
  rw [read_eq, read_eq, fraction, fraction, back, back, h]

theorem one_le_maxDelay (d : DelayLine) : (1 : ℚ) ≤ (d.buffer.size - 1 : Nat) := by
  have := d.two_le_size
  exact_mod_cast (by omega : 1 ≤ d.buffer.size - 1)

variable {x : Float} {a : ℚ} (hsize : d.buffer.size ≤ 2 ^ 53)

include hsize

theorem hasValue_maxDelay : HasValue d.maxDelay (d.buffer.size - 1 : Nat) :=
  hasValue_ofNat (by have := d.two_le_size; omega)

/-- A tap between the limits is read where it is. -/
theorem clamp_eq (hx : HasValue x a) (hge : 1 ≤ a) (hle : a ≤ (d.buffer.size - 1 : Nat)) :
    clamp 1 d.maxDelay x = x :=
  clamp_of_le hasValue_one (hasValue_maxDelay hsize) hx hge hle

/-- No tap goes back further than the ring. -/
theorem back_lt (delay : Float) : d.back delay < d.buffer.size := by
  have hlt := d.two_le_size
  rw [back]
  rcases clamp_cases hasValue_one (hasValue_maxDelay hsize) d.one_le_maxDelay delay with
    hnan | ⟨c, hc, hge, hle⟩
  -- What is not a number passes the limits, and converts to zero ticks.
  · generalize clamp 1 d.maxDelay delay = x at hnan
    have hfinite : x.isFinite = false := by
      change x.toModel.unpack.isFinite = false
      rw [hnan]
      rfl
    have hnan' : x.isNaN = true := by
      change x.toModel.unpack.isNaN = true
      rw [hnan]
      rfl
    have hfloor : floor x = x := by rw [floor_eq, hfinite, Bool.not_false, Bool.true_or, if_pos rfl]
    rw [hfloor, Double.toNat, toIntWithin, hnan', if_pos rfl]
    exact Nat.zero_lt_of_lt hlt
  · have hbound : c < (2 : ℚ) ^ 53 := by
      refine hle.trans_lt ?_
      exact_mod_cast (by omega : d.buffer.size - 1 < 2 ^ 53)
    have hfloor := Nat.floor_le_of_le hle
    rw [toNat_of_hasValue (hc.floor (zero_le_one.trans hge) hbound) (by omega)]
    omega

/-- A whole tap is read from one place. -/
theorem read_whole {k : Nat} (hx : HasValue x k) (hk : 1 ≤ k) (hlt : k < d.buffer.size) :
    d.read x = d.tap k := by
  have hclamp : clamp 1 d.maxDelay x = x :=
    clamp_eq hsize hx (by exact_mod_cast hk) (by exact_mod_cast (by omega : k ≤ d.buffer.size - 1))
  have hfloor : floor x = x := hx.floor_natCast
  have hback : d.back x = k := by
    rw [back, hclamp, hfloor, toNat_of_hasValue hx (by omega)]
  have hfraction : (d.fraction x == 0) = true := by
    have hzero : HasValue (x - x) (k - k) := hx.sub hx (.inl (sub_self _))
    rw [fraction, hclamp, hfloor]
    exact (hzero.beq_iff hasValue_zero).mpr (sub_self _)
  rw [read_eq, if_pos hfraction, hback]

/-- A tap between two whole ones is read from two places, and its fraction is exact. -/
theorem read_between {k : Nat} (hk : 1 ≤ k) (hlt : k + 1 < d.buffer.size) (hx : HasValue x a)
    (hgt : (k : ℚ) < a) (hle : a < (k + 1 : Nat)) :
    d.read x = d.tap k + (d.tap (k + 1) - d.tap k) * (x - .ofNat k) := by
  have hone : (1 : ℚ) ≤ k := by exact_mod_cast hk
  have hpos : 0 ≤ a := by linarith
  have hlast : ((k + 1 : Nat) : ℚ) ≤ (d.buffer.size - 1 : Nat) := by
    exact_mod_cast (by omega : k + 1 ≤ d.buffer.size - 1)
  have hbound : ((k + 1 : Nat) : ℚ) < 2 ^ 53 := by exact_mod_cast (by omega : k + 1 < 2 ^ 53)
  have hk' : HasValue (.ofNat k) k := hasValue_ofNat (by omega)
  have hfloor_a : ⌊a⌋₊ = k := (Nat.floor_eq_iff hpos).mpr ⟨hgt.le, by exact_mod_cast hle⟩
  have hclamp : clamp 1 d.maxDelay x = x := clamp_eq hsize hx (by linarith) (by linarith)
  have hfloor : floor x = .ofNat k := by
    have hvalue := hx.floor hpos (hle.trans hbound)
    rw [hfloor_a] at hvalue
    exact hvalue.inj hk' (by linarith)
  have hback : d.back x = k := by
    rw [back, hclamp, hfloor, toNat_of_hasValue hk' (by omega)]
  have hfraction : d.fraction x = x - .ofNat k := by rw [fraction, hclamp, hfloor]
  -- The fraction is exact, so it is not lost although it may be small.
  have hne : ¬ (x - .ofNat k == 0) = true := by
    have hrest := hx.representable.sub_floor hpos
    rw [hfloor_a] at hrest
    rw [(hx.sub hk' hrest).beq_iff hasValue_zero]
    linarith
  rw [read_eq, hfraction, if_neg hne, hback]

theorem read_of_lt_one (hlt : x < 1) : d.read x = d.read 1 :=
  read_congr ((clamp_of_lt hlt).trans
    (clamp_eq hsize hasValue_one le_rfl d.one_le_maxDelay).symm)

theorem read_of_maxDelay_lt (hlt : d.maxDelay < x) : d.read x = d.read d.maxDelay := by
  have hmost := hasValue_maxDelay hsize
  exact read_congr ((clamp_of_gt hasValue_one hmost d.one_le_maxDelay hlt).trans
    (clamp_eq hsize hmost d.one_le_maxDelay le_rfl).symm)

omit hsize

end StackSynth.DelayLine
