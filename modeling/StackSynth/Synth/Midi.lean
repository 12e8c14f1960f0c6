import StackSynth.Engine.Queue
import StackSynth.Number.Double

/-!
# MIDI input

Control threads send note and controller events; the tick of a frame applies all that wait, in
order. Notes have last-note priority: the current note is the most recently pressed one that is
still held, and after the last release the note that was current stays. A press without velocity is
a release.

Controllers are numbered from 0 to 127; a larger number counts modulo 128.
-/

namespace StackSynth

/-- A channel message. -/
inductive MidiEvent where
  /-- A key is pressed. -/
  | noteOn (note velocity : UInt8)
  /-- A key is released. -/
  | noteOff (note : UInt8)
  /-- A controller moves. -/
  | controlChange (controller value : UInt8)
  deriving DecidableEq, Repr

/-- Notes, controllers and the events that wait for the next tick. -/
structure MidiInput where
  /-- Events that wait. -/
  pending : BoundedQueue MidiEvent
  /-- Held notes with their velocities, the latest last. -/
  held : List (UInt8 × UInt8)
  /-- Controller values. -/
  controllers : Vector UInt8 128
  /-- The current note. -/
  note : UInt8
  /-- Its velocity. -/
  rawVelocity : UInt8

namespace MidiInput

/-- The most events that wait. -/
def queueSize : Nat := 256

/-- Input on which nothing has happened. -/
def new : MidiInput := ⟨.withCapacity queueSize, [], Vector.replicate 128 0, 0, 0⟩

instance : Inhabited MidiInput := ⟨new⟩

/-- Takes a note off the held ones. -/
def release (m : MidiInput) (note : UInt8) : MidiInput :=
  let held := m.held.filter fun (n, _) => n ≠ note
  match held.getLast? with
  | some (n, v) => { m with held, note := n, rawVelocity := v }
  | none => { m with held }

/-- Applies an event. -/
def apply (m : MidiInput) : MidiEvent → MidiInput
  | .noteOff note => m.release note
  | .noteOn note velocity =>
    if velocity = 0 then m.release note
    else
      let held := (m.held.filter fun (n, _) => n ≠ note) ++ [(note, velocity)]
      { m with held, note, rawVelocity := velocity }
  | .controlChange controller value =>
    { m with controllers := m.controllers.setIfInBounds (controller.toNat % 128) value }

/-- Queues an event and says whether there was room. -/
def send (m : MidiInput) (event : MidiEvent) : Bool × MidiInput :=
  let (accepted, pending) := m.pending.send event
  (accepted, { m with pending })

/-- Applies the events that wait. -/
def tick (m : MidiInput) : MidiInput :=
  let (events, pending) := m.pending.drain
  events.foldl apply { m with pending }

/-- The velocity of the current note, from zero to one. -/
def velocity (m : MidiInput) : Float := .ofNat m.rawVelocity.toNat / 127

/-- Whether a note is held. -/
def gate (m : MidiInput) : Bool := !m.held.isEmpty

/-- The value of a controller, from zero to one; zero for what is no controller. -/
def controller (m : MidiInput) (number : Float) : Float :=
  if 0 ≤ number && number < 128 then
    .ofNat ((m.controllers[Double.toNat number]?.getD 0).toNat) / 127
  else 0

end MidiInput

end StackSynth
