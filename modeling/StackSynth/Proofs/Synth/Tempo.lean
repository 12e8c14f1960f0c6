import Mathlib.Algebra.Order.Floor.Semifield
import Mathlib.Data.List.Induction
import Mathlib.Data.Rat.Floor
import Mathlib.Tactic.Linarith
import Mathlib.Tactic.Ring
import StackSynth.Proofs.Number.Field
import StackSynth.Synth.Clock

/-!
# Steps in time

How a clock keeps time, apart from rounding. The clock never divides: it keeps the frames since the
step began and takes off the length of one step when they reach it, at most once a frame.

While the tempo is held nothing gets lost by that (`Clock.keeps_time`). Position and steps together
make up the frames since the start (`Clock.InTime`). If a step is at least one frame long the
position stays below the length of a step, so that the steps are the quotient. If it is shorter a
step begins on every frame, and the position grows without bound.

A change of tempo keeps the position, which was measured against another length. If it is below the
new one, all goes on as before. If it is not, the clock is behind by more than one step and catches
up by one step a frame, each of which takes off what the step is longer than the frame
(`Clock.steps_apart`).
-/

namespace StackSynth.Clock

/-- What happens to a clock: a tempo is set, or a frame passes while the transport runs or not. -/
inductive Event (α : Type) where
  | tempo (bpm : α)
  | tick (playing : Bool)

section

variable {α : Type} [Quantity α]

/-- The clock after an event. -/
def apply (c : Clock α) : Event α → Clock α
  | .tempo bpm => c.setTempo bpm
  | .tick playing => c.tick playing

/-- The clock after events. -/
def run (c : Clock α) (events : List (Event α)) : Clock α := events.foldl apply c

variable {c : Clock α} {bpm : α} {playing : Bool} {events : List (Event α)}

/-- A tempo changes the length of a step and nothing else. -/
theorem setTempo_frame :
    c.setTempo bpm = { c with samplesPerStep := (c.setTempo bpm).samplesPerStep } := by
  rw [setTempo]
  split <;> rfl

theorem sampleRate_setTempo : (c.setTempo bpm).sampleRate = c.sampleRate := by rw [setTempo_frame]

theorem sampleRate_new (rate : α) : (new rate).sampleRate = rate := sampleRate_setTempo

theorem step_setTempo : (c.setTempo bpm).step = c.step := by rw [setTempo_frame]

theorem triggered_setTempo : (c.setTempo bpm).triggered = c.triggered := by rw [setTempo_frame]

theorem samplesPerStep_tick : (c.tick playing).samplesPerStep = c.samplesPerStep := by
  simp only [tick]
  split_ifs <;> rfl

theorem wasPlaying_tick : (c.tick playing).wasPlaying = playing := by
  cases playing with
  | false => rfl
  | true =>
    simp only [tick, if_true]
    split_ifs with h
    exacts [h, h, rfl]

theorem run_concat (e : Event α) : c.run (events ++ [e]) = (c.run events).apply e :=
  List.foldl_concat ..

theorem sampleRate_apply (e : Event α) : (c.apply e).sampleRate = c.sampleRate := by
  cases e with
  | tempo bpm => exact sampleRate_setTempo
  | tick playing =>
    simp only [apply, tick]
    split_ifs <;> rfl

theorem sampleRate_run : (c.run events).sampleRate = c.sampleRate := by
  induction events using List.reverseRecOn with
  | nil => rfl
  | append_singleton events e ih => rw [run_concat, sampleRate_apply, ih]

end

/-- How many frames have passed with the transport running since it last stood. -/
def framesPlaying {α : Type} (events : List (Event α)) : Nat :=
  events.foldl (fun n e ↦ match e with
    | .tempo _ => n
    | .tick playing => if playing then n + 1 else 0) 0

section

variable {α : Type} {events : List (Event α)}

theorem framesPlaying_concat_tempo (bpm : α) :
    framesPlaying (events ++ [.tempo bpm]) = framesPlaying events := List.foldl_concat ..

theorem framesPlaying_concat_tick (playing : Bool) :
    framesPlaying (events ++ [.tick playing]) = if playing then framesPlaying events + 1 else 0 :=
  List.foldl_concat ..

end

/-! ## Tempos -/

section

variable {α : Type} [Field α]

/-- How many frames a step takes at a tempo, with four steps to a beat. -/
def stepLength (rate bpm : α) : α := rate * 60 / (bpm * 4)

variable [LinearOrder α] {rate bpm : α} {events : List (Event α)}

theorem stepLength_pos [IsStrictOrderedRing α] (hrate : 0 < rate) (hbpm : 0 < bpm) :
    0 < stepLength rate bpm := by
  rw [stepLength]
  positivity

/-- How many steps of `S` frames have begun after the first one, when at most one begins on every
frame. -/
def stepsAfter [FloorSemiring α] (S : α) (n : Nat) : Nat := min n ⌊n / S⌋₊

/-- The tempo is held, however often it is set. Tempos that are ignored do not matter. -/
def Holds (bpm : α) (events : List (Event α)) : Prop := ∀ b, .tempo b ∈ events → 0 < b → b = bpm

theorem Holds.of_concat {e : Event α} (h : Holds bpm (events ++ [e])) : Holds bpm events :=
  fun b hb ↦ h b (List.mem_append_left _ hb)

/-- Every tempo, that of a new clock included, gives a step at least two frames. -/
def Unhurried (rate : α) (events : List (Event α)) : Prop :=
  ∀ bpm, bpm = 120 ∨ .tempo bpm ∈ events → 0 < bpm → 2 ≤ stepLength rate bpm

theorem Unhurried.of_concat {e : Event α} (h : Unhurried rate (events ++ [e])) :
    Unhurried rate events :=
  fun bpm hbpm ↦ h bpm (hbpm.imp_right (List.mem_append_left _))

end

variable {α : Type} [Field α] [LinearOrder α] [FloorSemiring α]

open scoped Exact

/-! ## What events do -/

variable {c : Clock α} {bpm : α}

theorem setTempo_of_pos (h : 0 < bpm) :
    c.setTempo bpm = { c with samplesPerStep := stepLength c.sampleRate bpm } := by
  rw [setTempo, if_pos (by simpa using h)]
  congr 1

theorem setTempo_of_nonpos (h : bpm ≤ 0) : c.setTempo bpm = c := by
  rw [setTempo, if_neg (by simpa using h)]

/-- To set the tempo that is in force changes nothing. -/
theorem setTempo_of_length (h : 0 < bpm)
    (hlength : c.samplesPerStep = stepLength c.sampleRate bpm) : c.setTempo bpm = c := by
  rw [setTempo_of_pos h, ← hlength]

theorem tick_start (h : c.wasPlaying = false) : c.tick true
    = { c with position := 0, step := 0, triggered := true, wasPlaying := true } := by
  simp [tick, h]

theorem tick_playing (h : c.wasPlaying = true) : c.tick true
    = if c.samplesPerStep ≤ c.position + 1 then { c with
        position := c.position + 1 - c.samplesPerStep
        step := c.step + 1
        triggered := true }
      else { c with position := c.position + 1, triggered := false } := by
  simp only [tick, h, if_true, Quantity.one_eq, Quantity.le_iff]

theorem tick_within (h : c.wasPlaying = true) (hposition : c.position + 1 < c.samplesPerStep) :
    c.tick true = { c with position := c.position + 1, triggered := false } := by
  rw [tick_playing h, if_neg hposition.not_ge]

theorem tick_across (h : c.wasPlaying = true) (hposition : c.samplesPerStep ≤ c.position + 1) :
    c.tick true = { c with
      position := c.position + 1 - c.samplesPerStep
      step := c.step + 1
      triggered := true } := by
  rw [tick_playing h, if_pos hposition]

/-- What holds at first and is kept by every frame and every tempo holds after all events. -/
theorem run_induction {motive : List (Event α) → Clock α → Prop} (nil : motive [] c)
    (tick : ∀ past playing, motive past (c.run past) →
      motive (past ++ [.tick playing]) ((c.run past).tick playing))
    (ignored : ∀ past b, b ≤ 0 → motive past (c.run past) →
      motive (past ++ [.tempo b]) (c.run past))
    (tempo : ∀ past b, 0 < b → motive past (c.run past) →
      motive (past ++ [.tempo b]) ((c.run past).setTempo b))
    (events : List (Event α)) : motive events (c.run events) := by
  induction events using List.reverseRecOn with
  | nil => exact nil
  | append_singleton past e ih =>
    rw [run_concat]
    cases e with
    | tick playing => exact tick past playing ih
    | tempo b =>
      rw [apply]
      rcases le_or_gt b 0 with hb | hb
      · rw [setTempo_of_nonpos hb]
        exact ignored past b hb ih
      · exact tempo past b hb ih

/-- While the transport runs, a step begins where the step changes. -/
theorem triggered_tick (h : c.wasPlaying = true) :
    (c.tick true).triggered = true ↔ (c.tick true).step ≠ c.step := by
  rw [tick_playing h]
  split_ifs <;> simp

/-! ## A tempo that is held -/

section Held

variable [IsStrictOrderedRing α] {S rate : α} {n m : Nat} {events : List (Event α)}

/-- The clock of a running transport, the given number of frames after its start, when a step takes
`S` frames. -/
structure InTime (S : α) (m : Nat) (c : Clock α) : Prop where
  nonneg : 0 ≤ c.position
  elapsed : c.position + c.step * S = m
  below : 1 ≤ S → c.position < S
  every : S < 1 → c.step = m

namespace InTime

theorem step_le (h : InTime S m c) : c.step ≤ m := by
  rcases le_or_gt 1 S with hlong | hshort
  · have hsteps : (c.step : α) ≤ m :=
      calc (c.step : α) ≤ c.step * S := le_mul_of_one_le_right (Nat.cast_nonneg _) hlong
        _ ≤ c.position + c.step * S := le_add_of_nonneg_left h.nonneg
        _ = m := h.elapsed
    exact Nat.cast_le.mp hsteps
  · exact (h.every hshort).le

/-- The steps are the quotient, but no more than the frames. -/
theorem step_eq (h : InTime S m c) (hS : 0 < S) : c.step = min m ⌊m / S⌋₊ := by
  have hquotient : c.step ≤ ⌊m / S⌋₊ := by
    rw [Nat.le_floor_iff (div_nonneg (Nat.cast_nonneg _) hS.le), le_div_iff₀ hS, ← h.elapsed]
    exact le_add_of_nonneg_left h.nonneg
  -- What is left in the position is less than a step, unless a step is less than a frame.
  rcases le_or_gt 1 S with hlong | hshort
  · have hfloor : ⌊m / S⌋₊ < c.step + 1 := by
      rw [Nat.floor_lt (div_nonneg (Nat.cast_nonneg _) hS.le), div_lt_iff₀ hS, ← h.elapsed,
        Nat.cast_add_one, add_one_mul, add_comm]
      exact add_lt_add_right (h.below hlong) _
    rw [Nat.le_antisymm (Nat.le_of_lt_succ hfloor) hquotient, Nat.min_eq_right h.step_le]
  · rw [h.every hshort] at hquotient ⊢
    exact (Nat.min_eq_left hquotient).symm

theorem tick (h : InTime S m c) (hplaying : c.wasPlaying = true) (hlength : c.samplesPerStep = S) :
    InTime S (m + 1) (c.tick true) := by
  have hnonneg := h.nonneg
  have helapsed := h.elapsed
  rcases lt_or_ge (c.position + 1) S with hwithin | hacross
  · rw [tick_within hplaying (hlength ▸ hwithin)]
    refine ⟨by positivity, ?_, fun _ ↦ hwithin, fun hshort ↦ ?_⟩
    · push_cast
      linarith
    · linarith
  · rw [tick_across hplaying (hlength ▸ hacross), hlength]
    refine ⟨sub_nonneg.mpr hacross, ?_, fun hlong ↦ ?_, fun hshort ↦ ?_⟩
    · push_cast
      linarith
    · have hbelow := h.below hlong
      change c.position + 1 - S < S
      linarith
    · exact congrArg (· + 1) (h.every hshort)

end InTime

/-- The clock of a held tempo, after as many frames as the transport has been running for. -/
structure Keeps (S : α) (n : Nat) (c : Clock α) : Prop where
  length : c.samplesPerStep = S
  playing : c.wasPlaying = decide (0 < n)
  inTime : ∀ m, n = m + 1 → InTime S m c

namespace Keeps

/-- What the tick after `n` frames leads to. -/
theorem inTime_tick (h : Keeps S n c) (hS : 0 < S) : InTime S n (c.tick true) := by
  cases n with
  | zero =>
    rw [tick_start h.playing]
    exact ⟨le_rfl, by simp, fun _ ↦ hS, fun _ ↦ rfl⟩
  | succ m => exact (h.inTime m rfl).tick h.playing h.length

theorem tick (h : Keeps S n c) (hS : 0 < S) (playing : Bool) :
    Keeps S (if playing then n + 1 else 0) (c.tick playing) where
  length := samplesPerStep_tick.trans h.length
  playing := by cases playing <;> simp [wasPlaying_tick]
  inTime m hm := by
    cases playing with
    | false => cases hm
    | true => exact Nat.succ_injective hm ▸ h.inTime_tick hS

end Keeps

theorem keeps_run (hrate : 0 < c.sampleRate) (hbpm : 0 < bpm) (hstopped : c.wasPlaying = false)
    (hheld : Holds bpm events) :
    Keeps (stepLength c.sampleRate bpm) (framesPlaying events) ((c.setTempo bpm).run events) := by
  refine run_induction (motive := fun past c' ↦ Holds bpm past →
    Keeps (stepLength c.sampleRate bpm) (framesPlaying past) c') ?nil ?tick ?ignored ?tempo events
    hheld
  case nil =>
    intro _
    rw [setTempo_of_pos hbpm]
    exact ⟨rfl, hstopped, fun _ h ↦ nomatch h⟩
  case tick =>
    intro past playing ih hheld
    rw [framesPlaying_concat_tick]
    exact (ih hheld.of_concat).tick (stepLength_pos hrate hbpm) playing
  case ignored =>
    intro past b _ ih hheld
    rw [framesPlaying_concat_tempo]
    exact ih hheld.of_concat
  case tempo =>
    intro past b hb ih hheld
    obtain rfl := hheld b (List.mem_append_right _ (List.mem_singleton.mpr rfl)) hb
    specialize ih hheld.of_concat
    rw [framesPlaying_concat_tempo,
      setTempo_of_length hb (by rw [ih.length, sampleRate_run, sampleRate_setTempo])]
    exact ih

/-- **The clock keeps time.** Take a clock that stands, and hold a tempo, however often it is set
and wherever the transport starts and stops. The frame that finds the transport running for `n`
frames is on the step that division gives, and a step begins on it if it is the first one or if the
frame before it was on another step. When the transport stands the step stays and none begins, and
setting a tempo changes neither. A clock that is at the tempo already is left as it is by setting it
once more, so this holds of a new clock at its own tempo. -/
theorem keeps_time (hrate : 0 < c.sampleRate) (hbpm : 0 < bpm) (hstopped : c.wasPlaying = false)
    (hheld : Holds bpm events) :
    let S := stepLength c.sampleRate bpm
    let n := framesPlaying events
    let before := (c.setTempo bpm).run events
    (before.tick true).step = stepsAfter S n ∧
    ((before.tick true).triggered = true ↔ n = 0 ∨ stepsAfter S n ≠ stepsAfter S (n - 1)) ∧
    (before.tick false).step = before.step ∧ (before.tick false).triggered = false ∧
    ∀ b, (before.setTempo b).step = before.step ∧
      (before.setTempo b).triggered = before.triggered := by
  intro S n before
  have hkeeps : Keeps S n before := keeps_run hrate hbpm hstopped hheld
  have hS : 0 < S := stepLength_pos hrate hbpm
  have hstep : (before.tick true).step = stepsAfter S n := (hkeeps.inTime_tick hS).step_eq hS
  refine ⟨hstep, ?_, rfl, rfl, fun b ↦ ⟨step_setTempo, triggered_setTempo⟩⟩
  -- The first frame begins a step whatever the step was before the transport stood.
  rcases hn : n with - | m
  · rw [hn] at hkeeps
    simp [tick_start hkeeps.playing]
  · have hlast : before.step = stepsAfter S m := (hkeeps.inTime m hn).step_eq hS
    have hplaying : before.wasPlaying = true := by simp [hkeeps.playing, hn]
    rw [triggered_tick hplaying, hstep, hlast, hn]
    simp

/-- Sixteen frames a second, a beat a second: after a restart and four more frames, with the tempo
set again between them, the next step begins. -/
theorem keeps_time_four :
    let c : Clock ℚ := (new 16).setTempo 60
    let events := [.tick true, .tick false, .tick true, .tick true, .tempo 60, .tempo 0, .tick true,
      .tick true]
    0 < (new (16 : ℚ)).sampleRate ∧ (new (16 : ℚ)).wasPlaying = false ∧ Holds 60 events ∧
    ((c.run events).tick true).step = 1 ∧ ((c.run events).tick true).triggered = true := by
  intro c events
  have hrate : 0 < (new (16 : ℚ)).sampleRate := by decide +kernel
  have hheld : Holds 60 events := by
    intro b hb hpos
    simp only [events, List.mem_cons, reduceCtorEq, Event.tempo.injEq, List.not_mem_nil, or_false,
      false_or] at hb
    exact hb.resolve_right hpos.ne'
  obtain ⟨hstep, htriggered, -⟩ := keeps_time hrate (by norm_num) rfl hheld
  refine ⟨hrate, rfl, hheld, hstep.trans (by decide +kernel), htriggered.mpr (by decide +kernel)⟩

end Held

/-! ## Tempos that change -/

section Changing

variable {rate : α} {events : List (Event α)}

/-- While the transport runs, a tempo is only set at a position within the step that it gives. -/
def Prompt (rate : α) (events : List (Event α)) : Prop :=
  ∀ past bpm rest, events = past ++ .tempo bpm :: rest → 0 < bpm →
    ((new rate).run past).wasPlaying = true → ((new rate).run past).position < stepLength rate bpm

theorem Prompt.of_concat {e : Event α} (h : Prompt rate (events ++ [e])) : Prompt rate events := by
  rintro past bpm rest rfl
  exact h past bpm (rest ++ [e]) (by simp)

variable [IsStrictOrderedRing α]

theorem new_eq : new rate = ⟨rate, stepLength rate 120, 0, 0, false, false⟩ := by
  have h120 : (Quantity.ofNat 120 : α) = 120 := Nat.cast_ofNat
  rw [new, h120, setTempo_of_pos (by norm_num), Quantity.zero_eq]

/-- A step takes at least two frames, and the position is not negative. -/
structure Paced (c : Clock α) : Prop where
  two_le : 2 ≤ c.samplesPerStep
  nonneg : 0 ≤ c.position

/-- The position is within the step, and within its first frame if a step has just begun. -/
structure Within (c : Clock α) : Prop where
  below : c.wasPlaying = true → c.position < c.samplesPerStep
  fresh : c.triggered = true → c.position < 1

theorem Paced.tick (h : Paced c) (playing : Bool) : Paced (c.tick playing) := by
  refine ⟨h.two_le.trans_eq samplesPerStep_tick.symm, ?_⟩
  have hnonneg := h.nonneg
  cases playing with
  | false => exact hnonneg
  | true =>
    cases hplaying : c.wasPlaying with
    | false => exact (congrArg position (tick_start hplaying)).ge
    | true =>
      rcases lt_or_ge (c.position + 1) c.samplesPerStep with hwithin | hacross
      · rw [tick_within hplaying hwithin]
        positivity
      · rw [tick_across hplaying hacross]
        exact sub_nonneg.mpr hacross

theorem Within.tick (h : Within c) (hpaced : Paced c) (playing : Bool) :
    Within (c.tick playing) := by
  have htwo := hpaced.two_le
  cases playing with
  | false => exact ⟨nofun, nofun⟩
  | true =>
    cases hplaying : c.wasPlaying with
    | false =>
      rw [tick_start hplaying]
      exact ⟨fun _ ↦ by linarith, fun _ ↦ one_pos⟩
    | true =>
      rcases lt_or_ge (c.position + 1) c.samplesPerStep with hwithin | hacross
      · rw [tick_within hplaying hwithin]
        exact ⟨fun _ ↦ hwithin, nofun⟩
      · have hfresh : c.position + 1 - c.samplesPerStep < 1 := by linarith [h.below hplaying]
        rw [tick_across hplaying hacross]
        exact ⟨fun _ ↦ by linarith, fun _ ↦ hfresh⟩

theorem paced_run (h : Unhurried rate events) : Paced ((new rate).run events) := by
  refine run_induction (motive := fun past c ↦ Unhurried rate past → Paced c) ?nil ?tick ?ignored
    ?tempo events h
  case nil =>
    intro h
    rw [new_eq]
    exact ⟨h 120 (.inl rfl) (by norm_num), le_rfl⟩
  case tick => exact fun past playing ih h ↦ (ih h.of_concat).tick playing
  case ignored => exact fun past b _ ih h ↦ ih h.of_concat
  case tempo =>
    intro past b hb ih h
    rw [setTempo_of_pos hb, sampleRate_run, sampleRate_new]
    exact ⟨h b (.inr (List.mem_append_right _ (List.mem_singleton.mpr rfl))) hb,
      (ih h.of_concat).nonneg⟩

theorem within_run (h : Unhurried rate events) (hprompt : Prompt rate events) :
    Within ((new rate).run events) := by
  refine run_induction (motive := fun past c ↦ Unhurried rate past → Prompt rate past → Within c)
    ?nil ?tick ?ignored ?tempo events h hprompt
  case nil =>
    intro _ _
    rw [new_eq]
    exact ⟨nofun, nofun⟩
  case tick =>
    exact fun past playing ih h hprompt ↦
      (ih h.of_concat hprompt.of_concat).tick (paced_run h.of_concat) playing
  case ignored => exact fun past b _ ih h hprompt ↦ ih h.of_concat hprompt.of_concat
  case tempo =>
    intro past b hb ih h hprompt
    rw [setTempo_of_pos hb, sampleRate_run, sampleRate_new]
    exact ⟨hprompt past b [] rfl hb, (ih h.of_concat hprompt.of_concat).fresh⟩

/-- A clock that is behind by `k` steps catches up on them in as many frames. -/
theorem run_behind (hplaying : c.wasPlaying = true) (htwo : 2 ≤ c.samplesPerStep) {k : Nat}
    (hk : k * (c.samplesPerStep - 1) ≤ c.position) :
    c.run (List.replicate k (.tick true)) = { c with
      position := c.position - k * (c.samplesPerStep - 1)
      step := c.step + k
      triggered := c.triggered || decide (0 < k) } := by
  induction k with
  | zero => simp [run]
  | succ k ih =>
    rw [Nat.cast_add_one, add_one_mul] at hk
    rw [List.replicate_succ', run_concat, ih (by linarith), apply]
    refine (tick_across ?_ ?_).trans ?_
    · exact hplaying
    · change c.samplesPerStep ≤ _ + 1
      linarith
    · simp only [Nat.cast_add_one, Nat.lt_add_one_iff, Nat.zero_le, decide_true, Bool.or_true,
        Nat.add_assoc]
      congr 1
      ring

/-- How many steps a clock is behind. -/
def behind (c : Clock α) : Nat := ⌊c.position / (c.samplesPerStep - 1)⌋₊

/-- **When steps begin on consecutive frames.** Set any tempos that give steps of two frames or
more, at any time. If none is set to a running clock at a position past the step that it gives, the
position stays within the step, and no frame begins a step right after another. In any case the
clock begins a step on each of the next frames for which it is behind, and then pauses. -/
theorem steps_apart (h : Unhurried rate events)
    (hplaying : ((new rate).run events).wasPlaying = true) :
    let c := (new rate).run events
    (Prompt rate events → c.position < c.samplesPerStep ∧
      (c.triggered = true → (c.tick true).triggered = false)) ∧
    (∀ k < c.behind, (c.run (List.replicate (k + 1) (.tick true))).triggered = true) ∧
    (c.run (List.replicate (c.behind + 1) (.tick true))).triggered = false := by
  intro c
  have htwo : 2 ≤ c.samplesPerStep := (paced_run h).two_le
  have hnonneg : 0 ≤ c.position := (paced_run h).nonneg
  have hpos : 0 < c.samplesPerStep - 1 := by linarith
  have hbehind : ∀ {k}, k ≤ c.behind ↔ k * (c.samplesPerStep - 1) ≤ c.position := by
    intro k
    rw [behind, Nat.le_floor_iff (div_nonneg hnonneg hpos.le), le_div_iff₀ hpos]
  refine ⟨fun hprompt ↦ ?_, fun k hk ↦ ?_, ?_⟩
  · have hwithin : Within c := within_run h hprompt
    refine ⟨hwithin.below hplaying, fun htriggered ↦ ?_⟩
    rw [tick_within hplaying (by linarith [hwithin.fresh htriggered])]
  · rw [run_behind hplaying htwo (hbehind.mp hk)]
    simp
  · have hrest : c.position < (c.behind + 1 : Nat) * (c.samplesPerStep - 1) :=
      lt_of_not_ge fun hle ↦ Nat.not_succ_le_self _ (hbehind.mpr hle)
    rw [Nat.cast_add_one, add_one_mul] at hrest
    rw [List.replicate_succ', run_concat, run_behind hplaying htwo (hbehind.mp le_rfl), apply]
    refine (congrArg triggered (tick_within ?_ ?_)).trans rfl
    · exact hplaying
    · change _ + 1 < c.samplesPerStep
      linarith

/-- Sixteen frames a second. Seven frames into a step of eight the tempo changes so that a step
takes two. -/
def late : List (Event ℚ) := .tempo 30 :: (List.replicate 8 (.tick true) ++ [.tempo 120])

theorem unhurried_late : Unhurried 16 late := by
  intro bpm hbpm _
  simp only [late, List.mem_cons, List.mem_append, List.mem_replicate, Event.tempo.injEq,
    reduceCtorEq, and_false, List.not_mem_nil, or_false, false_or] at hbpm
  rcases hbpm with rfl | rfl | rfl <;> norm_num [stepLength]

/-- Late in a step, a change of tempo makes two frames in a row begin a step, and more to come. -/
theorem steps_in_a_row : Unhurried 16 late ∧
    let c := (new 16).run late
    c.wasPlaying = true ∧ (c.tick true).triggered = true ∧
    ((c.tick true).tick true).triggered = true ∧
    (c.tick true).samplesPerStep ≤ (c.tick true).position :=
  ⟨unhurried_late, by decide +kernel⟩

/-- The same change one frame into the step. -/
def early : List (Event ℚ) := [.tempo 30, .tick true, .tick true, .tempo 120]

theorem prompt_early : Prompt 16 early := by
  rintro past bpm rest hsplit - hplaying
  match past, hsplit with
  | [], _ => exact absurd hplaying (by decide +kernel)
  | [_], hsplit => simp [early] at hsplit
  | [_, _], hsplit => simp [early] at hsplit
  | [_, _, _], hsplit =>
    simp only [early, List.cons_append, List.nil_append, List.cons.injEq, Event.tempo.injEq]
      at hsplit
    obtain ⟨rfl, rfl, rfl, rfl, -⟩ := hsplit
    decide +kernel
  | _ :: _ :: _ :: _ :: _, hsplit => simp [early] at hsplit

/-- The seven frames after the late change begin a step, and the eighth does not. After the early
one the position is within the step. -/
theorem steps_apart_late : Unhurried 16 late ∧ ((new 16).run late).wasPlaying = true ∧
    (∀ k < 7, (((new 16).run late).run (List.replicate (k + 1) (.tick true))).triggered = true) ∧
    (((new 16).run late).run (List.replicate 8 (.tick true))).triggered = false ∧
    ((new 16).run early).position < ((new 16).run early).samplesPerStep := by
  have hplaying : ((new 16).run late).wasPlaying = true := by decide +kernel
  have hbehind : ((new 16).run late).behind = 7 := by decide +kernel
  obtain ⟨-, hsteps, hpause⟩ := steps_apart unhurried_late hplaying
  rw [hbehind] at hsteps hpause
  have hunhurried : Unhurried 16 early := fun bpm hbpm ↦
    unhurried_late bpm (by simpa [early, late, List.mem_replicate] using hbpm)
  obtain ⟨hwithin, -⟩ := steps_apart hunhurried (by decide +kernel)
  exact ⟨unhurried_late, hplaying, hsteps, hpause, (hwithin prompt_early).1⟩

end Changing

end StackSynth.Clock
