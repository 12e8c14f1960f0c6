import StackSynth.Engine.Queue
import StackSynth.Engine.Scheduler
import StackSynth.Language.Build
import StackSynth.Machine.Builtin

/-!
# The engine

An engine is a dictionary beside a scheduler. Control operations register natives, constants and
tickers and build programs; `processBlock` renders a block of frames and queues the fault of a block
that faulted.

A build compiles first and changes the engine only if that succeeds: it commits the definitions,
installs the program and discards both the program it replaces and a parked one. It touches neither
the stack nor the rig, so a running sound goes on in the new program.

Faults that find the queue full are dropped; whoever reads the queue has faults to report already.
-/

namespace StackSynth

/-- How an engine is made. -/
structure EngineSpec where
  /-- Output frames per second. -/
  sampleRate : Nat := 48000
  /-- The depth ceiling of the operand stack. -/
  stackLimit : Nat := Stack.defaultLimit
  /-- Faults that wait for a reader. -/
  faultQueue : Nat := 64

/-- What a build reports. -/
structure BuildReport where
  /-- Steps outside all definitions. -/
  instructions : Nat
  /-- The names defined, in order. -/
  definitions : List String
  deriving DecidableEq, Repr

/-- A live-codable interpreter. -/
structure Engine (σ : Type) where
  /-- What names stand for. -/
  dictionary : Dictionary σ
  /-- What makes the frames. -/
  scheduler : Scheduler σ
  /-- Output frames per second. -/
  sampleRate : Nat
  /-- Faults that no one has read. -/
  faults : BoundedQueue Fault

namespace Engine

variable {σ : Type}

/-- An engine with the built-in words and no program. -/
def new (spec : EngineSpec) (modules : σ) : Engine σ where
  dictionary := Builtin.dictionary
  scheduler := Scheduler.new spec.stackLimit modules
  sampleRate := spec.sampleRate
  faults := .withCapacity (max spec.faultQueue 1)

/-! ## Registration -/

/-- Lets a name stand for an operation. Programs that are compiled keep what they were compiled
with. -/
def define : Engine σ → String → Operation σ → Engine σ
  | ⟨dictionary, scheduler, sampleRate, faults⟩, name, op =>
    ⟨dictionary.define name op, scheduler, sampleRate, faults⟩

/-- Registers a native. -/
def register (e : Engine σ) (name : String) (act : Native σ) : Engine σ :=
  e.define name (.native act)

/-- Registers a constant. -/
def registerConstant (e : Engine σ) (name : String) (value : Float) : Engine σ :=
  e.define name (.constant value)

/-- Registers a ticker behind all others. -/
def registerTicker : Engine σ → Ticker σ → Engine σ
  | ⟨dictionary, scheduler, sampleRate, faults⟩, t =>
    ⟨dictionary, scheduler.addTicker t, sampleRate, faults⟩

/-! ## State -/

/-- Changes the rig and gives something back. -/
def onRig {α : Type} : Engine σ → (Rig σ → α × Rig σ) → α × Engine σ
  | ⟨dictionary, ⟨⟨⟨stack, rig⟩, program⟩, tickers, retired⟩, sampleRate, faults⟩, f =>
    let (result, rig) := f rig
    (result, ⟨dictionary, ⟨⟨⟨stack, rig⟩, program⟩, tickers, retired⟩, sampleRate, faults⟩)

/-- Changes the state of the modules and gives something back. -/
def onModules {α : Type} (e : Engine σ) (f : σ → α × σ) : α × Engine σ :=
  e.onRig fun ⟨left, right, playing, modules⟩ =>
    let (result, modules) := f modules
    (result, ⟨left, right, playing, modules⟩)

/-- The state of the modules. -/
def modules (e : Engine σ) : σ := e.scheduler.rig.modules

/-- Whether the transport runs. -/
def isPlaying (e : Engine σ) : Bool := e.scheduler.rig.playing

/-- Starts or stops the transport. -/
def setPlaying (e : Engine σ) (playing : Bool) : Engine σ :=
  (e.onRig fun p => ((), { p with playing })).2

/-- Flips the transport and gives its new state. -/
def toggle (e : Engine σ) : Bool × Engine σ :=
  e.onRig Rig.toggle

/-- The operand stack from bottom to top. -/
def stackValues (e : Engine σ) : List Float := e.scheduler.stack.toList

/-- Whether a program is installed. -/
def hasProgram (e : Engine σ) : Bool := e.scheduler.hasProgram

/-- The engine as a line of a listing. -/
def inspected (e : Engine σ) : String :=
  s!"Runtime \x7b sample_rate: {e.sampleRate}, playing: {e.isPlaying}, .. \x7d"

/-! ## Building and rendering -/

/-- Compiles a text and installs it. -/
def build (e : Engine σ) (source : String) : Except CompileError (BuildReport × Engine σ) := do
  let compiled ← compile e.dictionary source
  let (_, scheduler) := e.scheduler.exchange compiled.program
  pure (⟨compiled.program.length, compiled.names⟩,
    { e with dictionary := e.dictionary.commit compiled, scheduler })

/-- Compiles bytes that encode a text and installs it. -/
def buildBytes (e : Engine σ) (source : List UInt8) :
    Except CompileError (BuildReport × Engine σ) :=
  match Utf8.decode source with
  | .ok text => e.build text
  | .error error => .error (.invalidEncoding error)

/-- Fills the front of a pair of buffers with as many frames as both have room for, and queues the
first fault. -/
def processBlock : Engine σ → Array Sample → Array Sample →
    (Array Sample × Array Sample) × Option Fault × Engine σ
  | ⟨dictionary, scheduler, sampleRate, faults⟩, left, right =>
    let (buffers, fault, scheduler) := scheduler.render left right
    let faults := match fault with
      | some f => (faults.send f).2
      | none => faults
    (buffers, fault, ⟨dictionary, scheduler, sampleRate, faults⟩)

/-- Renders `n` frames. -/
def processFrames (e : Engine σ) (n : Nat) :
    (Array Sample × Array Sample) × Option Fault × Engine σ :=
  e.processBlock (Array.replicate n .zero) (Array.replicate n .zero)

/-- Takes the oldest fault that no one has read. -/
def receiveFault (e : Engine σ) : Option Fault × Engine σ :=
  let (oldest, faults) := e.faults.receive
  (oldest, { e with faults })

/-- Takes the faults that no one has read. -/
def drainFaults (e : Engine σ) : Array Fault × Engine σ :=
  let (waiting, faults) := e.faults.drain
  (waiting, { e with faults })

end Engine

end StackSynth
