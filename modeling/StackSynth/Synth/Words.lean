import StackSynth.Machine.Builtin
import StackSynth.Machine.Focus
import StackSynth.Synth.Clock
import StackSynth.Synth.DelayLine
import StackSynth.Synth.Envelope
import StackSynth.Synth.Midi
import StackSynth.Synth.Mixer
import StackSynth.Synth.Operator
import StackSynth.Synth.Sampler
import StackSynth.Synth.Table
import StackSynth.Synth.Wave

/-!
# The words of the modules

Every kind of module brings words, named after the instance.

| Module | Word | Stack | Effect |
|---|---|---|---|
| operator | `name` | `( hz -- phase )` | sets the frequency |
| | `name.sync` | `( flag -- )` | a true flag puts the phase back |
| | `name.looped?` | `( -- flag )` | takes the flag of a wrapped phase |
| envelope | `name` | `( attack decay -- level )` | sets the times |
| | `name.trig` | `( flag -- )` | a true flag starts the rise |
| register | `>name` | `( x -- )` | stores |
| | `name` | `( -- x )` | fetches |
| mixer | `->name` | `( x -- )` | adds |
| | `name->` | `( -- total )` | takes the total |
| delay | `->name` | `( x -- )` | writes |
| | `name` | `( seconds -- x )` | reads |
| clock | `name.tempo` | `( bpm -- )` | sets the tempo |
| | `name.step` | `( -- step )` | |
| | `name.trig?` | `( -- flag )` | whether a step begins |
| gates | `name` | `( -- flag )` | whether a step begins that is on |
| | `name.set` | `( flag step -- )` | switches a step |
| values | `name` | `( -- x )` | the value of the step |
| | `name.set` | `( x step -- )` | sets the value of a step |
| table | `name` | `( position -- x )` | reads |
| | `name.set` | `( x place -- )` | writes |
| sampler | `name` | `( flag -- x )` | a true flag starts playback |
| midi | `name.note`, `name.vel`, `name.gate` | `( -- x )` | the current note |
| | `name.cc` | `( controller -- x )` | the value of a controller |
-/

namespace StackSynth

open Native

variable {σ : Type}

/-- Words with what they stand for. -/
abbrev Words (σ : Type) := List (String × Operation σ)

/-- A word that stands for a native. -/
private def word (name : String) (act : NativeM σ Unit) : String × Operation σ :=
  (name, .native act)

/-- The words of an operator. -/
def Operator.words (name : String) (f : Focus σ Operator) : Words σ :=
  [word name do
     let hz ← pop
     f.update (·.setFrequency hz)
     push (← f.read Operator.phase),
   word (name ++ ".sync") do
     let flag ← pop
     if Builtin.isTrue flag then f.update Operator.sync,
   word (name ++ ".looped?") do
     push (Double.ofBool (← f.act Operator.takeLooped))]

/-- The words of an envelope. -/
def Envelope.words (name : String) (f : Focus σ (Envelope Float)) : Words σ :=
  [word name do
     let (attack, decay) ← pop2
     f.update (·.setTimes Float.exp attack decay)
     push (← f.read Envelope.level),
   word (name ++ ".trig") do
     let flag ← pop
     if Builtin.isTrue flag then f.update Envelope.trigger]

/-- The words of a register. -/
def registerWords (name : String) (f : Focus σ Float) : Words σ :=
  [word (">" ++ name) do
     let x ← pop
     f.update fun _ => x,
   word name do
     push (← f.read id)]

/-- The words of a mixer. -/
def Mixer.words (name : String) (f : Focus σ Mixer) : Words σ :=
  [word ("->" ++ name) do
     let x ← pop
     f.update (·.add x),
   word (name ++ "->") do
     push (← f.act Mixer.take)]

/-- The words of a delay line. -/
def DelayLine.words (name : String) (f : Focus σ DelayLine) : Words σ :=
  [word ("->" ++ name) do
     let x ← pop
     f.update (·.write x),
   word name do
     let seconds ← pop
     push (← f.read (·.readSeconds seconds))]

/-- The words of a clock. -/
def Clock.words (name : String) (f : Focus σ (Clock Float)) : Words σ :=
  [word (name ++ ".tempo") do
     let bpm ← pop
     f.update (·.setTempo bpm),
   word (name ++ ".step") do
     push (.ofNat (← f.read Clock.step)),
   word (name ++ ".trig?") do
     push (Double.ofBool (← f.read Clock.triggered))]

/-- The words of a pattern that is set from the stack with `ofEntry` and read with `play`. -/
def Pattern.words {α : Type} (name : String) (f : Focus σ (Pattern α)) (ofEntry : Float → α)
    (play : NativeM σ Float) : Words σ :=
  [word name do
     push (← play),
   word (name ++ ".set") do
     let (entry, step) ← pop2
     f.update (·.set step (ofEntry entry))]

/-- The words of a pattern of gates that follows a clock. -/
def Pattern.gateWords (name : String) (f : Focus σ (Pattern Bool)) (clock : Focus σ (Clock Float)) :
    Words σ :=
  Pattern.words name f Builtin.isTrue do
    let (step, triggered) ← clock.read fun c => (c.step, c.triggered)
    let active ← f.read (·.get step)
    return Double.ofBool (triggered && active)

/-- The words of a pattern of values that follows a clock. -/
def Pattern.valueWords (name : String) (f : Focus σ (Pattern Float))
    (clock : Focus σ (Clock Float)) : Words σ :=
  Pattern.words name f id do
    let step ← clock.read Clock.step
    f.read (·.get step)

/-- The words of a table. -/
def Table.words (name : String) (f : Focus σ Table) : Words σ :=
  [word name do
     let position ← pop
     push (← f.read (·.read position)),
   word (name ++ ".set") do
     let (x, place) ← pop2
     f.update (·.set place x)]

/-- The word of a sampler. -/
def Sampler.words (name : String) (f : Focus σ (Sampler Float)) : Words σ :=
  [word name do
     let flag ← pop
     if Builtin.isTrue flag then f.update Sampler.trigger
     push (← f.read Sampler.value)]

/-- The words of MIDI input. -/
def MidiInput.words (name : String) (f : Focus σ MidiInput) : Words σ :=
  [word (name ++ ".note") do
     push (.ofNat (← f.read MidiInput.note).toNat),
   word (name ++ ".vel") do
     push (← f.read MidiInput.velocity),
   word (name ++ ".gate") do
     push (Double.ofBool (← f.read MidiInput.gate)),
   word (name ++ ".cc") do
     let number ← pop
     push (← f.read (·.controller number))]

/-- The words for wave shapes. -/
def Wave.words : Words σ :=
  [word "sine" (unary Wave.sine),
   word "tri" (unary Wave.triangle),
   word "saw" (unary Wave.saw),
   word "sqr" (unary Wave.square),
   word "clip" (unary Wave.clip)]

/-- The words that connect a program with the world around it: the value that the console last
sent, the frames per second, and the frequency of a note. -/
def outsideWords (prompt : Focus σ Float) (sampleRate : Float) : Words σ :=
  [word "prompt" do
     push (← prompt.read id),
   ("srate", .constant sampleRate),
   word "m2f" (unary Wave.noteFrequency)]

end StackSynth
