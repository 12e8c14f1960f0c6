import StackSynth.Number.Quantity

/-!
# Envelopes

An envelope rises to one along a straight line and then falls along an exponential curve, by sixty
decibels in its decay time. Once it is below a ten-thousandth it is off.

A trigger starts the rise at the level the envelope has, whatever its stage. Times that are not
positive mean that the rise, or the fall, takes a single frame.
-/

namespace StackSynth

/-- What an envelope is doing. -/
inductive Stage where
  /-- Nothing; the level is zero. -/
  | idle
  /-- Rising to one. -/
  | attack
  /-- Falling to zero. -/
  | decay
  deriving DecidableEq, Repr, Inhabited

/-- The name of a stage. -/
def Stage.text : Stage → String
  | .idle => "idle"
  | .attack => "attack"
  | .decay => "decay"

/-- An attack and decay envelope. -/
structure Envelope (α : Type) where
  /-- What it is doing. -/
  stage : Stage
  /-- Its level. -/
  level : α
  /-- Frames per second. -/
  sampleRate : α
  /-- What a frame of the rise adds to the level. -/
  attackStep : α
  /-- What a frame of the fall multiplies the level by. -/
  decayFactor : α
  /-- The attack and decay times that step and factor were made from. -/
  times : Option (α × α)

namespace Envelope

variable {α : Type} [Quantity α]

open Quantity

instance : Inhabited (Envelope α) := ⟨.idle, zero, one, one, zero, none⟩

/-- The level below which a fall ends. -/
def silence : α := decimal 1 4

/-- The natural logarithm of sixty decibels, as a ratio of levels. -/
def decayLog : α := decimal 6907755278982137 15

/-- Sets attack and decay time in seconds. Programs do this in every frame, so times that are set
already are left alone. -/
def setTimes (exp : α → α) (e : Envelope α) (attack decay : α) : Envelope α :=
  let same := match e.times with
    | some (a, d) => eq attack a && eq decay d
    | none => false
  if same then e
  else { e with
    times := some (attack, decay)
    attackStep := if lt zero attack then one / (attack * e.sampleRate) else one
    decayFactor :=
      if lt zero decay then exp ((zero - decayLog) / (decay * e.sampleRate)) else zero }

/-- An envelope that is off, with an attack of ten milliseconds and a decay of two hundred. -/
def new (exp : α → α) (sampleRate : α) : Envelope α :=
  setTimes exp ⟨.idle, zero, sampleRate, one, zero, none⟩ (decimal 1 2) (decimal 2 1)

/-- Starts the rise. -/
def trigger (e : Envelope α) : Envelope α := { e with stage := .attack }

/-- Advances by one frame. -/
def tick (e : Envelope α) : Envelope α :=
  match e.stage with
  | .idle => e
  | .attack =>
    let level := e.level + e.attackStep
    if le one level then { e with level := one, stage := .decay } else { e with level }
  | .decay =>
    let level := e.level * e.decayFactor
    if lt level silence then { e with level := zero, stage := .idle } else { e with level }

end Envelope

end StackSynth
