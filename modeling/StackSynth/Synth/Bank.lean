import StackSynth.Language.Dictionary
import StackSynth.Synth.Words

/-!
# The bank of modules

A bank holds every module of a synthesizer. Modules of a kind are numbered from one: with two
operators there are the words of `op1` and of `op2`. The registers are named by letters.

Every frame first applies the MIDI events that wait, then moves the clock, the operators, the
envelopes, the delays and the samplers.
-/

namespace StackSynth

/-- The sizes of a bank. -/
structure BankSpec where
  operators : Nat := 8
  envelopes : Nat := 8
  mixers : Nat := 4
  delays : Nat := 4
  /-- Patterns of gates, and as many of values. -/
  sequencers : Nat := 8
  tables : Nat := 4
  /-- Entries of a pattern or table. -/
  steps : Nat := 16
  /-- The history of a delay line. -/
  maxDelaySeconds : Float := 2
  /-- Sources of recordings. -/
  samples : List String := []

/-- The modules of a synthesizer. -/
structure Bank where
  midi : MidiInput
  clock : Clock Float
  operators : Array Operator
  envelopes : Array (Envelope Float)
  registers : Array Float
  mixers : Array Mixer
  delays : Array DelayLine
  gates : Array (Pattern Bool)
  values : Array (Pattern Float)
  tables : Array Table
  samplers : Array (Sampler Float)
  /-- The value that the console last sent. -/
  prompt : Float

namespace Bank

/-- The names of the registers. -/
def letters : List String := "ABCDEFGHIJKLMNOPQRSTUVWXYZ".toList.map Char.toString

/-- A bank in which nothing has happened, without samplers. -/
def new (spec : BankSpec) (sampleRate : Float) : Bank where
  midi := .new
  clock := .new sampleRate
  operators := Array.replicate spec.operators (.new sampleRate)
  envelopes := Array.replicate spec.envelopes (.new Float.exp sampleRate)
  registers := Array.replicate letters.length 0
  mixers := Array.replicate spec.mixers .new
  delays := (Array.range spec.delays).map fun _ => .new sampleRate spec.maxDelaySeconds
  gates := Array.replicate spec.sequencers (.new spec.steps false)
  values := Array.replicate spec.sequencers (.new spec.steps 0)
  tables := Array.replicate spec.tables (.new spec.steps)
  samplers := #[]
  prompt := 0

/-! ## The parts of a bank -/

/-- MIDI input. -/
def midiPart : Focus Bank MidiInput :=
  .field Bank.midi (fun x b => { b with midi := x }) default

/-- The clock. -/
def clockPart : Focus Bank (Clock Float) :=
  .field Bank.clock (fun x b => { b with clock := x }) default

/-- The operator at a place. -/
def operatorPart (i : Nat) : Focus Bank Operator :=
  (Focus.field Bank.operators (fun x b => { b with operators := x }) #[]).comp (.item i)

/-- The envelope at a place. -/
def envelopePart (i : Nat) : Focus Bank (Envelope Float) :=
  (Focus.field Bank.envelopes (fun x b => { b with envelopes := x }) #[]).comp (.item i)

/-- The register at a place. -/
def registerPart (i : Nat) : Focus Bank Float :=
  (Focus.field Bank.registers (fun x b => { b with registers := x }) #[]).comp (.item i)

/-- The mixer at a place. -/
def mixerPart (i : Nat) : Focus Bank Mixer :=
  (Focus.field Bank.mixers (fun x b => { b with mixers := x }) #[]).comp (.item i)

/-- The delay line at a place. -/
def delayPart (i : Nat) : Focus Bank DelayLine :=
  (Focus.field Bank.delays (fun x b => { b with delays := x }) #[]).comp (.item i)

/-- The pattern of gates at a place. -/
def gatePart (i : Nat) : Focus Bank (Pattern Bool) :=
  (Focus.field Bank.gates (fun x b => { b with gates := x }) #[]).comp (.item i)

/-- The pattern of values at a place. -/
def valuePart (i : Nat) : Focus Bank (Pattern Float) :=
  (Focus.field Bank.values (fun x b => { b with values := x }) #[]).comp (.item i)

/-- The table at a place. -/
def tablePart (i : Nat) : Focus Bank Table :=
  (Focus.field Bank.tables (fun x b => { b with tables := x }) #[]).comp (.item i)

/-- The sampler at a place. -/
def samplerPart (i : Nat) : Focus Bank (Sampler Float) :=
  (Focus.field Bank.samplers (fun x b => { b with samplers := x }) #[]).comp (.item i)

/-- The value that the console last sent. -/
def promptPart : Focus Bank Float :=
  .field Bank.prompt (fun x b => { b with prompt := x }) 0

/-! ## Words and tickers -/

variable {σ : Type}

/-- The words of `count` modules of a kind, which are named by `kind` and a number. -/
def numbered (kind : String) (count : Nat) (words : String → Nat → Words σ) : Words σ :=
  (List.range count).flatMap fun i => words (kind ++ toString (i + 1)) i

/-- The words of the modules whose number a bank fixes. -/
def moduleWords (f : Focus σ Bank) (spec : BankSpec) : Words σ :=
  MidiInput.words "midi" (f.comp midiPart)
    ++ Clock.words "seq" (f.comp clockPart)
    ++ numbered "op" spec.operators (fun name i => Operator.words name (f.comp (operatorPart i)))
    ++ numbered "env" spec.envelopes (fun name i => Envelope.words name (f.comp (envelopePart i)))
    ++ letters.zipIdx.flatMap (fun (name, i) => registerWords name (f.comp (registerPart i)))
    ++ numbered "mix" spec.mixers (fun name i => Mixer.words name (f.comp (mixerPart i)))
    ++ numbered "delay" spec.delays (fun name i => DelayLine.words name (f.comp (delayPart i)))
    ++ numbered "dseq" spec.sequencers
        (fun name i => Pattern.gateWords name (f.comp (gatePart i)) (f.comp clockPart))
    ++ numbered "vseq" spec.sequencers
        (fun name i => Pattern.valueWords name (f.comp (valuePart i)) (f.comp clockPart))
    ++ numbered "itab" spec.tables (fun name i => Table.words name (f.comp (tablePart i)))

/-- The words without a module. -/
def plainWords (f : Focus σ Bank) (sampleRate : Float) : Words σ :=
  Wave.words ++ outsideWords (f.comp promptPart) sampleRate

/-- What happens to the modules in every frame, samplers apart. -/
def tickers (f : Focus σ Bank) (spec : BankSpec) : List (Ticker σ) :=
  [(f.comp midiPart).ticker fun _ => MidiInput.tick,
   (f.comp clockPart).ticker fun playing c => c.tick playing]
    ++ (List.range spec.operators).map (fun i =>
        (f.comp (operatorPart i)).ticker fun _ => Operator.tick)
    ++ (List.range spec.envelopes).map (fun i =>
        (f.comp (envelopePart i)).ticker fun _ => Envelope.tick)
    ++ (List.range spec.delays).map (fun i =>
        (f.comp (delayPart i)).ticker fun _ => DelayLine.tick)

end Bank

end StackSynth
