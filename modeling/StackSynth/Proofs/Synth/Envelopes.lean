import Mathlib.Algebra.Order.Floor.Semiring
import Mathlib.Analysis.Complex.Exponential
import Mathlib.Data.List.Induction
import Mathlib.Tactic.Linarith
import Mathlib.Tactic.NormNum
import StackSynth.Proofs.Number.Field
import StackSynth.Synth.Envelope

/-!
# Stages and levels

What the stage of an envelope says about its level, apart from rounding. Of the exponential function
only this is used: for a number below zero it is not negative and less than one.

Times decide how far the level moves on a frame, and never where it is. A step of the rise is above
zero and a factor of the fall below one, whatever times are set and whenever (`Sound`), so that each
stage keeps its own bound: an envelope that is off is at zero, one that falls is above the silence
that would end the fall, and the rise stops at one.

A rise adds up steps of one size while the times are left as they are (`run_rising`). To set the
same times again, as programs do in every frame, or to trigger once more does not disturb it.
-/

namespace StackSynth.Envelope

/-- What happens to an envelope: times are set, the rise is started, or a frame passes. -/
inductive Event (α : Type) where
  | times (attack decay : α)
  | trigger
  | tick

section

variable {α : Type}

/-- How many frames pass. -/
def frames (events : List (Event α)) : Nat :=
  events.foldl (fun n event ↦ match event with
    | .tick => n + 1
    | _ => n) 0

theorem frames_concat_times (events : List (Event α)) (attack decay : α) :
    frames (events ++ [.times attack decay]) = frames events := List.foldl_concat ..

theorem frames_concat_trigger (events : List (Event α)) :
    frames (events ++ [.trigger]) = frames events := List.foldl_concat ..

theorem frames_concat_tick (events : List (Event α)) :
    frames (events ++ [.tick]) = frames events + 1 := List.foldl_concat ..

/-- The events leave the times of an envelope as they are: none are set, or only the same ones. -/
def Held (e : Envelope α) (events : List (Event α)) : Prop :=
  ∀ attack decay, .times attack decay ∈ events → e.times = some (attack, decay)

theorem Held.of_concat {e : Envelope α} {events : List (Event α)} {event : Event α}
    (h : e.Held (events ++ [event])) : e.Held events :=
  fun attack decay hmem ↦ h attack decay (List.mem_append_left _ hmem)

variable [Quantity α] (exp : α → α)

/-- The envelope after an event. -/
def apply (e : Envelope α) : Event α → Envelope α
  | .times attack decay => e.setTimes exp attack decay
  | .trigger => e.trigger
  | .tick => e.tick

/-- The envelope after events. -/
def run (e : Envelope α) (events : List (Event α)) : Envelope α := events.foldl (apply exp) e

theorem run_concat (e : Envelope α) (events : List (Event α)) (event : Event α) :
    e.run exp (events ++ [event]) = (e.run exp events).apply exp event := List.foldl_concat ..

end

/-! ## Steps and factors -/

section

variable {α : Type} [Field α] [LinearOrder α]

/-- What a frame of the rise adds, at a rate and an attack time. -/
def riseStep (rate attack : α) : α := if 0 < attack then 1 / (attack * rate) else 1

/-- What a frame of the fall multiplies by, at a rate and a decay time. -/
def fallFactor (exp : α → α) (rate decay : α) : α :=
  if 0 < decay then exp ((0 - 6907755278982137 / 10 ^ 15) / (decay * rate)) else 0

variable [IsStrictOrderedRing α] {exp : α → α} {rate : α}

theorem riseStep_pos (hrate : 0 < rate) (attack : α) : 0 < riseStep rate attack := by
  rw [riseStep]
  split
  · positivity
  · exact one_pos

theorem fallFactor_mem (hexp : ∀ x < 0, 0 ≤ exp x ∧ exp x < 1) (hrate : 0 < rate) (decay : α) :
    0 ≤ fallFactor exp rate decay ∧ fallFactor exp rate decay < 1 := by
  rw [fallFactor]
  split
  next hdecay => exact hexp _ (div_neg_of_neg_of_pos (by norm_num) (mul_pos hdecay hrate))
  next => exact ⟨le_rfl, one_pos⟩

end

variable {α : Type} [Field α] [LinearOrder α] [FloorSemiring α]

open scoped Exact

/-! ## What events do -/

variable {exp : α → α} {e : Envelope α} {attack decay rate : α}

theorem silence_eq : (silence : α) = 1 / 10 ^ 4 := by
  rw [silence, Quantity.decimal_eq, Nat.cast_one]

theorem decayLog_eq : (decayLog : α) = 6907755278982137 / 10 ^ 15 := by
  rw [decayLog, Quantity.decimal_eq, Nat.cast_ofNat]

/-- Times that are set already are left alone, and others decide step and factor. -/
theorem setTimes_eq : e.setTimes exp attack decay
    = if e.times = some (attack, decay) then e else { e with
      times := some (attack, decay)
      attackStep := riseStep e.sampleRate attack
      decayFactor := fallFactor exp e.sampleRate decay } := by
  rw [setTimes, riseStep, fallFactor, ← decayLog_eq]
  simp only [Quantity.lt_iff, Quantity.zero_eq, Quantity.one_eq]
  refine if_congr ?_ rfl rfl
  rcases e.times with _ | ⟨a, d⟩
  · simp
  · simp [eq_comm (a := a), eq_comm (a := d)]

theorem tick_idle (h : e.stage = .idle) : e.tick = e := by
  rw [tick, h]

theorem tick_attack (h : e.stage = .attack) : e.tick
    = if 1 ≤ e.level + e.attackStep then { e with level := 1, stage := .decay }
      else { e with level := e.level + e.attackStep } := by
  simp only [tick, h, Quantity.one_eq, Quantity.le_iff]

theorem tick_decay (h : e.stage = .decay) : e.tick
    = if e.level * e.decayFactor < 1 / 10 ^ 4 then { e with level := 0, stage := .idle }
      else { e with level := e.level * e.decayFactor } := by
  simp only [tick, h, silence_eq, Quantity.zero_eq, Quantity.lt_iff]

theorem sampleRate_apply (event : Event α) : (e.apply exp event).sampleRate = e.sampleRate := by
  cases event with
  | times attack decay =>
    rw [apply, setTimes_eq]
    split <;> rfl
  | trigger => rfl
  | tick =>
    simp only [apply, tick]
    split
    · rfl
    · split <;> rfl
    · split <;> rfl

theorem new_eq : new exp rate = ⟨.idle, 0, rate, riseStep rate (1 / 10 ^ 2),
    fallFactor exp rate (2 / 10), some (1 / 10 ^ 2, 2 / 10)⟩ := by
  rw [new, setTimes_eq, if_neg nofun, Quantity.decimal_eq, Quantity.decimal_eq, Quantity.zero_eq]
  simp

theorem sampleRate_run (events : List (Event α)) :
    ((new exp rate).run exp events).sampleRate = rate := by
  induction events using List.reverseRecOn with
  | nil => rw [run, List.foldl_nil, new_eq]
  | append_singleton events event ih => rw [run_concat, sampleRate_apply, ih]

/-! ## Levels -/

/-- What every envelope keeps to: the bounds of step, factor and level, and what the stage says
about the level. -/
structure Sound (e : Envelope α) : Prop where
  timed : ∃ attack decay, e.times = some (attack, decay) ∧
    e.attackStep = riseStep e.sampleRate attack
  step_pos : 0 < e.attackStep
  factor_nonneg : 0 ≤ e.decayFactor
  factor_lt : e.decayFactor < 1
  nonneg : 0 ≤ e.level
  le_one : e.level ≤ 1
  idle : e.stage = .idle → e.level = 0
  decay : e.stage = .decay → 1 / 10 ^ 4 ≤ e.level

namespace Sound

theorem trigger (h : Sound e) : Sound e.trigger := { h with idle := nofun, decay := nofun }

variable [IsStrictOrderedRing α]

theorem setTimes (h : Sound e) (hexp : ∀ x < 0, 0 ≤ exp x ∧ exp x < 1) (hrate : 0 < e.sampleRate) :
    Sound (e.setTimes exp attack decay) := by
  rw [setTimes_eq]
  split
  next => exact h
  next =>
    obtain ⟨hnonneg, hlt⟩ := fallFactor_mem hexp hrate decay
    exact { h with
      timed := ⟨attack, decay, rfl, rfl⟩
      step_pos := riseStep_pos hrate attack
      factor_nonneg := hnonneg
      factor_lt := hlt }

theorem tick (h : Sound e) : Sound e.tick := by
  have hstep := h.step_pos
  have hnonneg := h.nonneg
  cases hstage : e.stage with
  | idle => rwa [tick_idle hstage]
  | attack =>
    rw [tick_attack hstage]
    split
    next =>
      exact { h with
        nonneg := zero_le_one
        le_one := le_rfl
        idle := nofun
        decay := fun _ ↦ by norm_num }
    next hlt =>
      exact { h with
        nonneg := by positivity
        le_one := (not_le.mp hlt).le
        idle := fun hidle ↦ nomatch hstage.symm.trans hidle
        decay := fun hdecay ↦ nomatch hstage.symm.trans hdecay }
  | decay =>
    rw [tick_decay hstage]
    split
    next =>
      exact { h with
        nonneg := le_rfl
        le_one := zero_le_one
        idle := fun _ ↦ rfl
        decay := nofun }
    next hge =>
      have hlevel := not_lt.mp hge
      have hle : e.level * e.decayFactor ≤ e.level := mul_le_of_le_one_right hnonneg h.factor_lt.le
      exact { h with
        nonneg := mul_nonneg hnonneg h.factor_nonneg
        le_one := hle.trans h.le_one
        idle := fun hidle ↦ nomatch hstage.symm.trans hidle
        decay := fun _ ↦ hlevel }

/-- The level does not fall while it rises, and does not rise otherwise. -/
theorem level_apply (h : Sound e) (event : Event α) :
    (e.stage = .attack → e.level ≤ (e.apply exp event).level) ∧
      (e.stage ≠ .attack → (e.apply exp event).level ≤ e.level) := by
  cases event with
  | times attack decay =>
    have hlevel : (e.setTimes exp attack decay).level = e.level := by
      rw [setTimes_eq]
      split <;> rfl
    exact ⟨fun _ ↦ hlevel.ge, fun _ ↦ hlevel.le⟩
  | trigger => exact ⟨fun _ ↦ le_rfl, fun _ ↦ le_rfl⟩
  | tick =>
    change (_ → e.level ≤ e.tick.level) ∧ (_ → e.tick.level ≤ e.level)
    have hstep := h.step_pos
    cases hstage : e.stage with
    | idle =>
      rw [tick_idle hstage]
      exact ⟨fun _ ↦ le_rfl, fun _ ↦ le_rfl⟩
    | attack =>
      refine ⟨fun _ ↦ ?_, fun hne ↦ absurd rfl hne⟩
      rw [tick_attack hstage]
      split
      next => exact h.le_one
      next => exact le_add_of_nonneg_right hstep.le
    | decay =>
      refine ⟨nofun, fun _ ↦ ?_⟩
      rw [tick_decay hstage]
      split
      next => exact h.nonneg
      next => exact mul_le_of_le_one_right h.nonneg h.factor_lt.le

end Sound

variable [IsStrictOrderedRing α]

/-- An envelope is sound after any events. -/
theorem sound_run (hexp : ∀ x < 0, 0 ≤ exp x ∧ exp x < 1) (hrate : 0 < rate)
    (events : List (Event α)) : Sound ((new exp rate).run exp events) := by
  induction events using List.reverseRecOn with
  | nil =>
    obtain ⟨hnonneg, hlt⟩ := fallFactor_mem hexp hrate (2 / 10)
    rw [run, List.foldl_nil, new_eq]
    exact ⟨⟨_, _, rfl, rfl⟩, riseStep_pos hrate _, hnonneg, hlt, le_rfl, zero_le_one, fun _ ↦ rfl,
      nofun⟩
  | append_singleton events event ih =>
    rw [run_concat]
    cases event with
    | times attack decay => exact ih.setTimes hexp (by rwa [sampleRate_run])
    | trigger => exact ih.trigger
    | tick => exact ih.tick

/-! ## The rise -/

/-- How many frames the rise takes from the level that the envelope has. -/
def riseFrames (e : Envelope α) : Nat := max 1 ⌈(1 - e.level) / e.attackStep⌉₊

theorem lt_riseFrames (hpos : 0 < e.attackStep) {k : Nat} (hk : 0 < k) :
    k < e.riseFrames ↔ e.level + k * e.attackStep < 1 := by
  rw [riseFrames, lt_max_iff, or_iff_right (by omega), Nat.lt_ceil, lt_div_iff₀ hpos,
    lt_sub_iff_add_lt']

/-- While it rises, the level is so many steps above where the rise began. -/
theorem run_rising (hpos : 0 < e.attackStep) {later : List (Event α)} (hheld : e.Held later)
    (hfew : frames later < e.riseFrames) : e.trigger.run exp later
      = { e with stage := .attack, level := e.level + frames later * e.attackStep } := by
  induction later using List.reverseRecOn with
  | nil => simp [run, frames, trigger]
  | append_singleton later event ih =>
    specialize ih hheld.of_concat
    rw [run_concat]
    cases event with
    | times attack decay =>
      have htimes := hheld attack decay (List.mem_append_right _ (List.mem_singleton.mpr rfl))
      rw [frames_concat_times] at hfew ⊢
      rw [ih hfew]
      exact setTimes_eq.trans (if_pos htimes)
    | trigger =>
      rw [frames_concat_trigger] at hfew ⊢
      rw [ih hfew]
      rfl
    | tick =>
      rw [frames_concat_tick] at hfew ⊢
      have hlt := (lt_riseFrames hpos (Nat.succ_pos _)).mp hfew
      rw [Nat.cast_succ, add_one_mul, ← add_assoc] at hlt ⊢
      rw [ih (Nat.lt_of_succ_lt hfew), apply, tick_attack rfl, if_neg hlt.not_ge]

/-- **What an envelope does.** Set any times, trigger and let frames pass in any order: the level is
between zero and one, zero when the envelope is off and at least the silence while it falls, and no
event makes it fall in the rise or rise outside of it. Trigger the envelope then and leave its times
as they are, and it rises until the frame on which the steps reach one, `riseFrames` after the
trigger. That frame leaves it falling from exactly one. -/
theorem stages_and_levels (hexp : ∀ x < 0, 0 ≤ exp x ∧ exp x < 1) (hrate : 0 < rate)
    (events : List (Event α)) :
    let e := (new exp rate).run exp events
    (0 ≤ e.level ∧ e.level ≤ 1) ∧ (e.stage = .idle → e.level = 0) ∧
    (e.stage = .decay → 1 / 10 ^ 4 ≤ e.level) ∧
    (∀ event, (e.stage = .attack → e.level ≤ (e.apply exp event).level) ∧
      (e.stage ≠ .attack → (e.apply exp event).level ≤ e.level)) ∧
    (∃ attack decay, e.times = some (attack, decay) ∧ e.attackStep = riseStep rate attack) ∧
    ∀ later, e.Held later → frames later < e.riseFrames →
      (e.trigger.run exp later).stage = .attack ∧
      (frames later + 1 = e.riseFrames →
        (e.trigger.run exp (later ++ [.tick])).stage = .decay ∧
        (e.trigger.run exp (later ++ [.tick])).level = 1) := by
  intro e
  have hsound : Sound e := sound_run hexp hrate events
  have hpos := hsound.step_pos
  have htimed := hsound.timed
  rw [sampleRate_run] at htimed
  refine ⟨⟨hsound.nonneg, hsound.le_one⟩, hsound.idle, hsound.decay, hsound.level_apply, htimed,
    fun later hheld hfew ↦ ?_⟩
  have hrising : e.trigger.run exp later
      = { e with stage := .attack, level := e.level + frames later * e.attackStep } :=
    run_rising hpos hheld hfew
  refine ⟨by rw [hrising], fun hlast ↦ ?_⟩
  have hreached : 1 ≤ e.level + frames later * e.attackStep + e.attackStep := by
    have hge := mt (lt_riseFrames hpos (Nat.succ_pos (frames later))).mpr hlast.ge.not_gt
    rwa [Nat.cast_succ, add_one_mul, ← add_assoc, not_lt] at hge
  rw [run_concat, hrising, apply, tick_attack rfl, if_pos hreached]
  exact ⟨rfl, rfl⟩

/-- A thousand frames a second, and four of them for the rise. Triggered again after two frames,
the envelope takes two more, although the times are set again between them. -/
theorem stages_and_levels_retriggered :
    let e := (new Real.exp 1000).run Real.exp [.times (1 / 250) 0, .trigger, .tick, .tick]
    (∀ x < 0, 0 ≤ Real.exp x ∧ Real.exp x < 1) ∧ (0 : ℝ) < 1000 ∧
    (e.stage = .attack ∧ e.level = 1 / 2) ∧
    (e.trigger.run Real.exp [.times (1 / 250) 0, .tick]).stage = .attack ∧
    (e.trigger.run Real.exp ([.times (1 / 250) 0, .tick] ++ [.tick])).stage = .decay ∧
    (e.trigger.run Real.exp ([.times (1 / 250) 0, .tick] ++ [.tick])).level = 1 := by
  intro e
  have hexp : ∀ x < 0, 0 ≤ Real.exp x ∧ Real.exp x < 1 :=
    fun x hx ↦ ⟨(Real.exp_pos x).le, Real.exp_lt_one_iff.mpr hx⟩
  have hrate : (0 : ℝ) < 1000 := by norm_num
  have hset : (new Real.exp (1000 : ℝ)).setTimes Real.exp (1 / 250) 0
      = ⟨.idle, 0, 1000, 1 / 4, 0, some (1 / 250, 0)⟩ := by
    rw [new_eq, setTimes_eq, if_neg (by norm_num)]
    norm_num [riseStep, fallFactor]
  have he : e = ⟨.attack, 1 / 2, 1000, 1 / 4, 0, some (1 / 250, 0)⟩ := by
    norm_num [e, run, apply, hset, trigger, tick_attack]
  have hframes : e.riseFrames = 2 := by
    rw [he, riseFrames]
    norm_num
  have hheld : e.Held [.times (1 / 250) 0, .tick] := by
    intro attack decay hmem
    rw [he]
    simpa [eq_comm] using hmem
  obtain ⟨-, -, -, -, -, hrise⟩ :=
    stages_and_levels hexp hrate [.times (1 / 250) 0, .trigger, .tick, .tick]
  obtain ⟨hattack, hlast⟩ := hrise _ hheld (by rw [hframes]; decide)
  refine ⟨hexp, hrate, ?_, hattack, hlast hframes.symm⟩
  rw [he]
  exact ⟨rfl, rfl⟩

end StackSynth.Envelope
