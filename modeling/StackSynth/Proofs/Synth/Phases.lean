import Mathlib.Data.List.Induction
import StackSynth.Proofs.Number.Overflow
import StackSynth.Synth.Operator

/-!
# Phases

Where the phase of an operator can be. A frame adds the increment to a phase between zero and one.
If the increment is finite so is the sum (`Double.HasValue.exists_add_fraction`), and its remainder
by one lies between zero and one. The remainder may be rounded up to one, which becomes zero.

An increment that is not finite leaves no remainder: the phase is no number after the next frame,
and none after all the frames that follow, whatever the frequency, until it is put back to zero.
There is nothing else that loses it (`Operator.phase_range`).
-/

namespace StackSynth.Operator

/-- What happens to an operator: a frequency is set, the phase is put back, the flag is taken, or a
frame passes. -/
inductive Event where
  | frequency (hz : Float)
  | sync
  | looped
  | tick

/-- The operator after an event. -/
def apply (o : Operator) : Event → Operator
  | .frequency hz => o.setFrequency hz
  | .sync => o.sync
  | .looped => o.takeLooped.2
  | .tick => o.tick

/-- The operator after events. -/
def run (o : Operator) (events : List Event) : Operator := events.foldl apply o

/-- What the latest frequency adds to the phase on a frame. -/
def latestIncrement (rate : Float) (events : List Event) : Float :=
  events.foldl (fun increment event ↦ match event with
    | .frequency hz => hz / rate
    | _ => increment) 0

/-- A frame passed under an increment that is not finite, and the phase was not put back since. -/
def Lost (rate : Float) (events : List Event) : Prop :=
  ∃ past rest, events = past ++ .tick :: rest ∧ .sync ∉ rest ∧
    (latestIncrement rate past).isFinite = false

section

variable {o : Operator} {rate : Float} {events : List Event} {event : Event}

theorem run_concat : o.run (events ++ [event]) = (o.run events).apply event := List.foldl_concat ..

theorem lost_concat : Lost rate (events ++ [event]) ↔ (Lost rate events ∧ event ≠ .sync) ∨
    event = .tick ∧ (latestIncrement rate events).isFinite = false := by
  constructor
  · rintro ⟨past, rest, heq, hsync, hincrement⟩
    rcases rest.eq_nil_or_concat' with rfl | ⟨rest, last, rfl⟩
    · obtain ⟨rfl, hlast⟩ := List.append_inj' heq rfl
      exact .inr ⟨List.singleton_inj.mp hlast, hincrement⟩
    · rw [← List.cons_append, ← List.append_assoc] at heq
      obtain ⟨rfl, hlast⟩ := List.append_inj' heq rfl
      obtain rfl := List.singleton_inj.mp hlast
      rw [List.mem_append, List.mem_singleton, not_or] at hsync
      exact .inl ⟨⟨past, rest, rfl, hsync.1, hincrement⟩, Ne.symm hsync.2⟩
  · rintro (⟨⟨past, rest, rfl, hsync, hincrement⟩, hne⟩ | ⟨rfl, hincrement⟩)
    · refine ⟨past, rest ++ [event], by simp, ?_, hincrement⟩
      simpa [hsync] using hne.symm
    · exact ⟨events, [], rfl, List.not_mem_nil, hincrement⟩

theorem sampleRate_apply : (o.apply event).sampleRate = o.sampleRate := by
  cases event with
  | frequency hz | sync | looped => rfl
  | tick =>
    simp only [apply, tick]
    split <;> rfl

theorem sampleRate_run : (o.run events).sampleRate = o.sampleRate := by
  induction events using List.reverseRecOn with
  | nil => rfl
  | append_singleton events event ih => rw [run_concat, sampleRate_apply, ih]

theorem increment_tick : o.tick.increment = o.increment := by
  simp only [tick]
  split <;> rfl

theorem increment_run : ((new rate).run events).increment = latestIncrement rate events := by
  induction events using List.reverseRecOn with
  | nil => rfl
  | append_singleton events event ih =>
    rw [run_concat, latestIncrement, List.foldl_concat, ← latestIncrement, ← ih]
    cases event with
    | frequency hz => exact congrArg (hz / ·) sampleRate_run
    | sync | looped => rfl
    | tick => exact increment_tick

end

/-! ## A frame -/

/-- The phase lies in the half-open unit interval. -/
def InUnit (o : Operator) : Prop := ∃ phase, Double.HasValue o.phase phase ∧ 0 ≤ phase ∧ phase < 1

variable {o : Operator}

theorem inUnit_of_eq_zero (h : o.phase = 0) : InUnit o :=
  ⟨0, by rw [h]; exact Double.hasValue_zero, le_rfl, one_pos⟩

/-- A sum in the unit interval is the next phase, and every other one is wrapped. -/
theorem phase_tick : o.tick.phase
    = if 0 ≤ o.phase + o.increment ∧ o.phase + o.increment < 1 then o.phase + o.increment
      else if 1 ≤ Double.euclid (o.phase + o.increment) 1 then 0
      else Double.euclid (o.phase + o.increment) 1 := by
  simp only [tick, Bool.and_eq_true, decide_eq_true_eq]
  split <;> rfl

/-- A finite increment keeps the phase in the unit interval. -/
theorem InUnit.tick (h : InUnit o) (hincrement : o.increment.isFinite = true) :
    InUnit o.tick := by
  obtain ⟨phase, hphase, hnonneg, hlt⟩ := h
  have hsmall : |phase| ≤ 1 := by
    rw [abs_of_nonneg hnonneg]
    exact hlt.le
  obtain ⟨next, hnext⟩ :=
    hphase.exists_add_fraction (Double.hasValue_value hincrement) hsmall
  rw [InUnit, phase_tick]
  split
  next hin =>
    rw [Double.hasValue_zero.le_iff hnext, hnext.lt_iff Double.hasValue_one] at hin
    exact ⟨next, hnext, hin⟩
  next =>
    obtain ⟨r, hr, hr0, -, -⟩ := hnext.euclid Double.hasValue_one one_pos
    split
    next => exact ⟨0, Double.hasValue_zero, le_rfl, one_pos⟩
    next hr1 => exact ⟨r, hr, hr0, not_le.mp (mt (Double.hasValue_one.le_iff hr).mpr hr1)⟩

/-- A sum that is not finite leaves no phase. -/
theorem isNaN_tick (h : (o.phase + o.increment).isFinite = false) : o.tick.phase.isNaN = true := by
  have hout : ¬(0 ≤ o.phase + o.increment ∧ o.phase + o.increment < 1) := fun hin ↦ by
    have hfinite := Double.isFinite_of_le_of_lt Double.hasValue_zero Double.hasValue_one hin.1 hin.2
    exact Bool.false_ne_true (h.symm.trans hfinite)
  rw [phase_tick, if_neg hout, Double.euclid_of_not_finite h]
  decide +kernel

/-! ## Events -/

theorem run_inUnit_or_lost (rate : Float) (events : List Event) :
    (¬Lost rate events → InUnit ((new rate).run events)) ∧
      (Lost rate events → ((new rate).run events).phase.isNaN = true) := by
  induction events using List.reverseRecOn with
  | nil =>
    refine ⟨fun _ ↦ inUnit_of_eq_zero rfl, ?_⟩
    rintro ⟨past, rest, heq, -⟩
    simp at heq
  | append_singleton events event ih =>
    rw [run_concat, lost_concat]
    cases event with
    | frequency hz | looped =>
      simp only [ne_eq, reduceCtorEq, not_false_eq_true, and_true, false_and, or_false]
      exact ih
    | sync => exact ⟨fun _ ↦ inUnit_of_eq_zero rfl, by simp⟩
    | tick =>
      simp only [ne_eq, reduceCtorEq, not_false_eq_true, and_true, true_and]
      constructor
      · intro hkept
        rw [not_or, Bool.not_eq_false] at hkept
        exact (ih.1 hkept.1).tick (by rw [increment_run, hkept.2])
      · intro hlost
        refine isNaN_tick (Double.isFinite_add_of_not ?_)
        rw [increment_run]
        exact hlost.imp_left fun h ↦ Double.isFinite_of_isNaN (ih.2 h)

/-- **Where the phase is.** Set any frequencies, put the phase back, take the flag and let frames
pass in any order, at any rate. The phase is in the half-open unit interval unless it is lost, and
if it is lost it is no number. From a rate of one on no finite frequency loses it. -/
theorem phase_range (rate : Float) (events : List Event) :
    let phase := ((new rate).run events).phase
    (¬Lost rate events → 0 ≤ phase ∧ phase < 1) ∧ (Lost rate events → phase.isNaN = true) ∧
    (1 ≤ rate → rate.isFinite = true → ∀ hz, (hz / rate).isFinite = hz.isFinite) := by
  intro phase
  obtain ⟨hkept, hlost⟩ := run_inUnit_or_lost rate events
  refine ⟨fun h ↦ ?_, hlost, fun hone hfinite hz ↦ ?_⟩
  · obtain ⟨p, hp, h0, h1⟩ := hkept h
    exact ⟨(Double.hasValue_zero.le_iff hp).mpr h0, (hp.lt_iff Double.hasValue_one).mpr h1⟩
  · have hrate := Double.hasValue_value hfinite
    rw [Double.hasValue_one.le_iff hrate] at hone
    exact Double.isFinite_div hrate (hone.trans (le_abs_self _))

/-- One infinite frequency loses the phase, and a finite one does not bring it back. -/
theorem phase_lost :
    let events := [.frequency (1 / 0), .tick, .frequency 1, .tick]
    (1 : Float) ≤ 4 ∧ ((new 4).run events).phase.isNaN = true ∧
    ¬(0 ≤ ((new 4).run events).phase ∧ ((new 4).run events).phase < 1) := by
  decide +kernel

/-- Put back to zero, the phase runs on. -/
theorem phase_range_put_back :
    let events := [.frequency (1 / 0), .tick, .sync, .frequency 1, .tick]
    ¬Lost 4 events ∧ 0 ≤ ((new 4).run events).phase ∧ ((new 4).run events).phase < 1 ∧
    Lost 4 [.frequency (1 / 0), .tick] ∧
    ((new 4).run [.frequency (1 / 0), .tick]).phase.isNaN = true ∧
    (3.5 / 4 : Float).isFinite = (3.5 : Float).isFinite := by
  have hlost : Lost 4 [.frequency (1 / 0), .tick] :=
    ⟨[.frequency (1 / 0)], [], rfl, List.not_mem_nil, by decide +kernel⟩
  have hkept : ¬Lost 4 [.frequency (1 / 0), .tick, .sync, .frequency 1, .tick] := by
    have hfinite : (latestIncrement 4 [.frequency (1 / 0), .tick, .sync, .frequency 1]).isFinite
        = true := by decide +kernel
    have hevents : [Event.frequency (1 / 0), .tick, .sync, .frequency 1, .tick]
        = [Event.frequency (1 / 0), Event.tick] ++ [Event.sync] ++ [Event.frequency 1]
          ++ [Event.tick] := rfl
    rw [hevents, lost_concat, lost_concat, lost_concat]
    simp [hfinite]
  obtain ⟨hin, -, hdiv⟩ := phase_range 4 [.frequency (1 / 0), .tick, .sync, .frequency 1, .tick]
  exact ⟨hkept, (hin hkept).1, (hin hkept).2, hlost, (phase_range 4 _).2.1 hlost,
    hdiv (by decide +kernel) (by decide +kernel) _⟩

end StackSynth.Operator
