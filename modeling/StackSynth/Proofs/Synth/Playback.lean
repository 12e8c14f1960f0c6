import Mathlib.Algebra.Order.Floor.Semiring
import Mathlib.Data.List.Basic
import Mathlib.Data.List.Induction
import Mathlib.Data.Rat.Floor
import Mathlib.Tactic.Linarith
import Mathlib.Tactic.NormNum
import Mathlib.Tactic.Ring
import StackSynth.Proofs.Number.Field
import StackSynth.Synth.Sampler

/-!
# What a playback plays, and when it ends

Apart from rounding, the position of a playback is the multiple of one step (`tick_iterate`).
Nothing that happened before the trigger has a part in it, and a value lies on the straight line
between the two frames around the position (`Recording.Interpolates`).

The step is the ratio of two rates, and nobody checks the one that comes with the recording. If it
is above zero, the position leaves the recording, and playback ends. If it is zero, the position
stays where it is: a recording without frames still ends with the first tick, and every other one
plays its first frame until the next trigger and on from there (`exists_stopped_iff`).
-/

namespace StackSynth

open scoped Exact

variable {α : Type} [Field α]

namespace Recording

/-- The frame at a place. Behind the last one the recording goes on as zero. -/
def frame (r : Recording α) (i : Nat) : α := r.frames[i]?.getD 0

/-- A value lies on the straight line between the frames around a position. At a frame itself it
lies on both of the lines that meet there. -/
def Interpolates [LinearOrder α] (r : Recording α) (x v : α) : Prop :=
  ∀ i : Nat, (i : α) ≤ x → x ≤ i + 1 → v = (i + 1 - x) * r.frame i + (x - i) * r.frame (i + 1)

/-- The position in a recording that is reached `k` frames after a trigger. -/
def reached (r : Recording α) (outputRate : α) (k : Nat) : α := k * r.sampleRate / outputRate

theorem reached_eq (r : Recording α) (outputRate : α) (k : Nat) :
    r.reached outputRate k = k * (r.sampleRate / outputRate) := mul_div_assoc ..

theorem reached_nonneg [LinearOrder α] [IsStrictOrderedRing α] (r : Recording α) {outputRate : α}
    (hrate : 0 < outputRate) (k : Nat) : 0 ≤ r.reached outputRate k :=
  div_nonneg (mul_nonneg (Nat.cast_nonneg _) (Nat.cast_nonneg _)) hrate.le

end Recording

namespace Sampler

/-- What happens to a sampler: it is triggered, or a frame passes. -/
inductive Event where
  | trigger
  | tick

section

variable {α : Type} [Quantity α]

/-- The sampler after an event. -/
def apply (s : Sampler α) : Event → Sampler α
  | .trigger => s.trigger
  | .tick => s.tick

/-- The sampler after events. -/
def run (s : Sampler α) (events : List Event) : Sampler α := events.foldl apply s

theorem exists_tick_eq (s : Sampler α) : ∃ position, s.tick = { s with position } := by
  rw [tick]
  split
  · exact ⟨s.position, rfl⟩
  · dsimp only
    split <;> exact ⟨_, rfl⟩

/-- Events change the position and nothing else. -/
theorem exists_run_eq (s : Sampler α) (events : List Event) :
    ∃ position, s.run events = { s with position } := by
  induction events using List.reverseRecOn with
  | nil => exact ⟨s.position, rfl⟩
  | append_singleton events event ih =>
    obtain ⟨position, ih⟩ := ih
    have hconcat : s.run (events ++ [event]) = apply { s with position } event := by
      rw [run, List.foldl_concat, ← run, ih]
    rw [hconcat]
    cases event with
    | trigger => exact ⟨_, rfl⟩
    | tick => exact exists_tick_eq { s with position }

end

variable [LinearOrder α] [FloorSemiring α]

/-! ## Positions -/

variable {s : Sampler α}

theorem trigger_eq (s : Sampler α) : s.trigger = { s with position := some 0 } := by
  rw [trigger, Quantity.zero_eq]

theorem tick_stopped (h : s.position = none) : s.tick = s := by
  rw [tick, h]

theorem tick_playing {x : α} (h : s.position = some x) : s.tick
    = if x + s.step < s.recording.frames.size then { s with position := some (x + s.step) }
      else { s with position := none } := by
  simp only [tick, h, Quantity.lt_iff]
  rfl

theorem value_stopped (h : s.position = none) : s.value = 0 := by
  rw [value, h, Quantity.zero_eq]

theorem value_playing {x : α} (h : s.position = some x) : s.value
    = s.recording.frame ⌊x⌋₊
      + (s.recording.frame (⌊x⌋₊ + 1) - s.recording.frame ⌊x⌋₊) * (x - ⌊x⌋₊) := by
  simp only [value, h, Quantity.zero_eq]
  rfl

variable [IsStrictOrderedRing α]

/-- While it plays, a sampler gives what lies between the frames around its position. -/
theorem interpolates_value {x : α} (hx : 0 ≤ x) (h : s.position = some x) :
    s.recording.Interpolates x s.value := by
  intro i hge hle
  rw [value_playing h]
  rcases hle.lt_or_eq with hlt | rfl
  · rw [(Nat.floor_eq_iff hx).mpr ⟨hge, hlt⟩]
    ring
  · -- The position is a frame, which ends the line below it and begins the one above.
    rw [← Nat.cast_succ, Nat.floor_natCast]
    push_cast
    ring

/-- Each tick after a trigger takes one step, until a step leaves the recording. -/
theorem tick_iterate (hstep : 0 ≤ s.step) (k : Nat) : tick^[k] s.trigger
    = { s with position :=
        if k = 0 ∨ k * s.step < s.recording.frames.size then some (k * s.step) else none } := by
  induction k with
  | zero => rw [Function.iterate_zero_apply, trigger_eq, Nat.cast_zero, zero_mul, if_pos (.inl rfl)]
  | succ k ih =>
    have hnext : (k * s.step : α) + s.step = (k + 1 : Nat) * s.step := by
      rw [Nat.cast_succ, add_one_mul]
    rw [Function.iterate_succ_apply', ih]
    by_cases hinside : k = 0 ∨ k * s.step < s.recording.frames.size
    · rw [if_pos hinside, tick_playing rfl, hnext]
      split
      next hlt => rw [if_pos (.inr hlt)]
      next hge => rw [if_neg (by simpa using hge)]
    · rw [if_neg hinside, tick_stopped rfl, if_neg]
      rw [not_or, not_lt] at hinside ⊢
      refine ⟨k.succ_ne_zero, hinside.2.trans ?_⟩
      rw [← hnext]
      exact le_add_of_nonneg_right hstep

/-! ## The end -/

variable {r : Recording α} {outputRate : α}

/-- After any events and a trigger, a sampler is at the position that is reached since, if that is
in its recording. -/
theorem tick_iterate_run (r : Recording α) (hrate : 0 < outputRate) (events : List Event)
    (k : Nat) : tick^[k] ((new r outputRate).run events).trigger
      = ⟨r, if k = 0 ∨ r.reached outputRate k < r.frames.size then some (r.reached outputRate k)
          else none, r.sampleRate / outputRate⟩ := by
  obtain ⟨position, hrun⟩ := exists_run_eq (new r outputRate) events
  have hstep : 0 ≤ ((new r outputRate).run events).step := by
    rw [hrun]
    exact div_nonneg (Nat.cast_nonneg r.sampleRate) hrate.le
  rw [tick_iterate hstep, hrun, Recording.reached_eq]
  rfl

/-- A position outside of the recording is reached if playback moves, or if there is none inside. -/
theorem exists_reached_iff (r : Recording α) (hrate : 0 < outputRate) :
    (∃ k, 1 ≤ k ∧ r.frames.size ≤ r.reached outputRate k) ↔
      0 < r.sampleRate ∨ r.frames.size = 0 := by
  constructor
  · rintro ⟨k, -, hreached⟩
    refine or_iff_not_imp_left.mpr fun hstill ↦ ?_
    rw [Recording.reached, Nat.eq_zero_of_not_pos hstill, Nat.cast_zero, mul_zero, zero_div]
      at hreached
    exact_mod_cast hreached.antisymm (Nat.cast_nonneg _)
  · rintro (hmoves | hempty)
    · have hmoves' : (0 : α) < r.sampleRate := Nat.cast_pos.mpr hmoves
      refine ⟨max 1 ⌈r.frames.size * outputRate / r.sampleRate⌉₊, le_max_left _ _, ?_⟩
      rw [Recording.reached, le_div_iff₀ hrate, ← div_le_iff₀ hmoves', Nat.cast_max]
      exact le_max_of_le_right (Nat.le_ceil _)
    · refine ⟨1, le_rfl, ?_⟩
      rw [hempty, Nat.cast_zero]
      exact r.reached_nonneg hrate 1

/-- Playback ends if it moves, or if there is nothing to play. -/
theorem exists_stopped_iff (r : Recording α) (hrate : 0 < outputRate) (events : List Event) :
    (∃ k, (tick^[k] ((new r outputRate).run events).trigger).isPlaying = false) ↔
      0 < r.sampleRate ∨ r.frames.size = 0 := by
  rw [← exists_reached_iff r hrate]
  refine exists_congr fun k ↦ ?_
  rw [tick_iterate_run r hrate, isPlaying, Nat.one_le_iff_ne_zero]
  dsimp only
  split
  next hinside =>
    refine iff_of_false (by simp) ?_
    rwa [← not_lt, ← not_or, not_not]
  next houtside =>
    rw [not_or, not_lt] at houtside
    exact iff_of_true rfl houtside

/-- **What a playback plays.** Whatever happened to a sampler before a trigger: as long as the
position that is reached since is in the recording, the sampler plays, and its value lies between
the frames there. On the first tick on which the position is not, and on all later ones, the sampler
is stopped and its value is zero. There is such a tick if and only if the recording has frames in a
second, or no frames at all. -/
theorem plays_recording (r : Recording α) (hrate : 0 < outputRate) (events : List Event) :
    let s := ((new r outputRate).run events).trigger
    (∀ k, r.reached outputRate k < r.frames.size →
      (tick^[k] s).isPlaying = true ∧
      r.Interpolates (r.reached outputRate k) (tick^[k] s).value) ∧
    (∀ k, 1 ≤ k → r.frames.size ≤ r.reached outputRate k →
      (tick^[k] s).isPlaying = false ∧ (tick^[k] s).value = 0) ∧
    ((∃ k, (tick^[k] s).isPlaying = false) ↔ 0 < r.sampleRate ∨ r.frames.size = 0) := by
  intro s
  refine ⟨fun k hinside ↦ ?_, fun k hk houtside ↦ ?_, exists_stopped_iff r hrate events⟩
  · rw [tick_iterate_run r hrate, if_pos (.inr hinside)]
    exact ⟨rfl, interpolates_value (r.reached_nonneg hrate k) rfl⟩
  · have hne : ¬ (k = 0 ∨ r.reached outputRate k < r.frames.size) :=
      not_or.mpr ⟨Nat.one_le_iff_ne_zero.mp hk, not_lt.mpr houtside⟩
    rw [tick_iterate_run r hrate, if_neg hne]
    exact ⟨rfl, value_stopped rfl⟩

/-- Three frames played at half their speed, triggered again while they are played: after one tick
the sampler is half-way to the second frame, and on the sixth it stops. -/
theorem plays_recording_halved :
    let r : Recording ℚ := ⟨#[0, 1, 0], 10⟩
    let s : Sampler ℚ := ((new r 20).run [.trigger, .tick, .tick]).trigger
    (0 : ℚ) < 20 ∧ (s.tick.isPlaying = true ∧ s.tick.value = 1 / 2) ∧
    ((tick^[6] s).isPlaying = false ∧ (tick^[6] s).value = 0) ∧
    ∃ k, (tick^[k] s).isPlaying = false := by
  intro r s
  have hrate : (0 : ℚ) < 20 := by norm_num
  have hframe : r.frame 0 = 0 ∧ r.frame 1 = 1 := ⟨rfl, rfl⟩
  have hsize : (r.frames.size : ℚ) = 3 := rfl
  have hreached : r.reached 20 1 = 1 / 2 ∧ r.reached 20 6 = 3 := by
    norm_num [Recording.reached, r]
  obtain ⟨hplays, hstops, hends⟩ := plays_recording r hrate [.trigger, .tick, .tick]
  obtain ⟨hplaying, hvalue⟩ := hplays 1 (by rw [hreached.1, hsize]; norm_num)
  refine ⟨hrate, ⟨hplaying, ?_⟩, hstops 6 (by decide) (by rw [hreached.2, hsize]),
    hends.mpr (.inl (by decide))⟩
  refine (hvalue 0 (by norm_num [hreached]) (by norm_num [hreached])).trans ?_
  norm_num [hreached, hframe]

/-- A single frame of a recording whose header tells of no frames in a second is played for ever. -/
theorem plays_without_end :
    ¬ ∃ k, (tick^[k] (new (⟨#[1 / 2], 0⟩ : Recording ℚ) 48000).trigger).isPlaying = false :=
  fun h ↦ absurd ((exists_stopped_iff _ (by norm_num) []).mp h) (by decide)

end Sampler

end StackSynth
