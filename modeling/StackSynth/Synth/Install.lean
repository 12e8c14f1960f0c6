import StackSynth.Engine.Basic
import StackSynth.Synth.Bank
import StackSynth.Synth.Recording

/-!
# Engines with a bank

Installing a bank gives an engine the words and the tickers of the modules. Recordings are loaded
between the words of the modules and the words for wave shapes and controls: a recording may take
the name of a module's word, and the plain words take their names back.

Two recordings never share a name. A name is checked before its file is read.
-/

namespace StackSynth.Bank

variable {σ : Type}

/-- Registers words. -/
def defineWords (words : Words σ) (e : Engine σ) : Engine σ :=
  words.foldl (fun e (name, op) => e.define name op) e

/-- Registers tickers. -/
def defineTickers (tickers : List (Ticker σ)) (e : Engine σ) : Engine σ :=
  tickers.foldl Engine.registerTicker e

/-- Adds a sampler for a recording. -/
def addSampler (f : Focus σ Bank) (name : String) (recording : Recording Float) (e : Engine σ) :
    Engine σ :=
  let sampler := Sampler.new recording (.ofNat e.sampleRate)
  let (i, e) := e.onModules (f.change fun b =>
    (b.samplers.size, { b with samplers := b.samplers.push sampler }))
  let part := f.comp (samplerPart i)
  defineWords (Sampler.words name part) (e.registerTicker (part.ticker fun _ => Sampler.tick))

/-- Loads a recording and adds a sampler that is named after its file. -/
def loadSampler (f : Focus σ Bank) (folder : Folder) (path : String) (e : Engine σ) :
    Except RecordingError (String × Engine σ) := do
  let some name := Recording.wordName? path | throw (.nameless path)
  let recording ← Recording.load folder path
  return (name, addSampler f name recording e)

/-- Loads recordings of different names. Names that are taken come with the files that took
them. -/
def loadSamplers (f : Focus σ Bank) (folder : Folder) (taken : List (String × String))
    (e : Engine σ) : List String → Except RecordingError (List (String × String) × Engine σ)
  | [] => return (taken, e)
  | path :: rest => do
    match (Recording.wordName? path).bind fun name => taken.find? fun (n, _) => n = name with
    | some (name, first) => throw (.duplicate name first path)
    | none =>
      let (name, e) ← loadSampler f folder path e
      loadSamplers f folder (taken ++ [(name, path)]) e rest

/-- Installs a bank at a part of the state of an engine. The names of the recordings come with the
engine. -/
def installAt (f : Focus σ Bank) (folder : Folder) (spec : BankSpec) (e : Engine σ) :
    Except RecordingError (List String × Engine σ) := do
  let sampleRate : Float := .ofNat e.sampleRate
  let e := (e.onModules (f.change fun _ => ((), new spec sampleRate))).2
  let e := defineTickers (tickers f spec) (defineWords (moduleWords f spec) e)
  let (loaded, e) ← loadSamplers f folder [] e (← Recording.files folder spec.samples)
  return (loaded.map Prod.fst, defineWords (plainWords f sampleRate) e)

/-- A new engine with a bank. The names of the recordings come with it. -/
def engine (folder : Folder) (spec : EngineSpec) (bank : BankSpec) :
    Except RecordingError (List String × Engine Bank) :=
  installAt .whole folder bank (Engine.new spec (new bank (.ofNat spec.sampleRate)))

end StackSynth.Bank
