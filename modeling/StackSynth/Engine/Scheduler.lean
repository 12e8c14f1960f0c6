import StackSynth.Machine.Run

/-!
# One frame at a time

Every output frame is made in the same way:

1. every ticker runs, in the order of registration;
2. both output registers are silenced;
3. the program runs once;
4. the output registers are the frame.

A frame therefore sees only what tickers did before it, and a channel that the program does not
write is silent.

## Faults

A run that faults retires the program: it is taken out of the machine and parked, the stack is
cleared, and the frame is silent. Tickers go on. The parked program stays until somebody takes it.
-/

namespace StackSynth

/-- A stereo frame, the left channel first. -/
abbrev Frame := Sample × Sample

/-- A machine, the tickers that run before it, and a program that a fault has parked. -/
structure Scheduler (σ : Type) where
  /-- The machine. -/
  machine : Machine σ
  /-- The tickers in the order of registration. -/
  tickers : Array (Ticker σ) := #[]
  /-- The program that the last fault took out of the machine. -/
  retired : Option (Program σ) := none

/-- A rendering in progress. -/
structure Rendering (σ : Type) where
  /-- The scheduler after the frames so far. -/
  scheduler : Scheduler σ
  /-- The left channel so far. -/
  left : Array Sample := #[]
  /-- The right channel so far. -/
  right : Array Sample := #[]
  /-- The first fault so far. -/
  fault : Option Fault := none

namespace Scheduler

variable {σ : Type}

/-- A scheduler without tickers around an empty machine. -/
def new (stackLimit : Nat) (modules : σ) : Scheduler σ :=
  ⟨Machine.new stackLimit modules, #[], none⟩

/-- The rig. -/
def rig (s : Scheduler σ) : Rig σ := s.machine.bench.rig

/-- The operand stack. -/
def stack (s : Scheduler σ) : Stack := s.machine.bench.stack

/-- Whether a program is installed. -/
def hasProgram (s : Scheduler σ) : Bool := s.machine.program.isSome

/-- Adds a ticker behind all others. -/
def addTicker (s : Scheduler σ) (t : Ticker σ) : Scheduler σ :=
  { s with tickers := s.tickers.push t }

/-- Changes the rig. -/
def mapRig (f : Rig σ → Rig σ) : Scheduler σ → Scheduler σ
  | ⟨⟨⟨stack, rig⟩, program⟩, tickers, retired⟩ =>
    ⟨⟨⟨stack, f rig⟩, program⟩, tickers, retired⟩

/-- Runs every ticker once. -/
def tick : Scheduler σ → Scheduler σ
  | ⟨⟨⟨stack, rig⟩, program⟩, tickers, retired⟩ =>
    ⟨⟨⟨stack, tickers.foldl (fun p t => t p) rig⟩, program⟩, tickers, retired⟩

/-- Parks the program, clears the stack and silences the output registers. -/
def retire : Scheduler σ → Scheduler σ
  | ⟨⟨⟨stack, rig⟩, program⟩, tickers, retired⟩ =>
    ⟨⟨⟨stack.clear, rig.silence⟩, none⟩, tickers, program <|> retired⟩

/-- Makes one frame. -/
def step (s : Scheduler σ) : Except Fault Frame × Scheduler σ :=
  match (s.tick).mapRig Rig.silence with
  | ⟨machine, tickers, retired⟩ =>
    match machine.run with
    | (.ok (), machine) =>
      (.ok (machine.bench.rig.left, machine.bench.rig.right), ⟨machine, tickers, retired⟩)
    | (.error fault, machine) => (.error fault, retire ⟨machine, tickers, retired⟩)

/-- Installs a program; the one it replaces is given back. -/
def install : Scheduler σ → Program σ → Option (Program σ) × Scheduler σ
  | ⟨machine, tickers, retired⟩, p =>
    let (replaced, machine) := machine.install p
    (replaced, ⟨machine, tickers, retired⟩)

/-- Takes the parked program. -/
def takeRetired (s : Scheduler σ) : Option (Program σ) × Scheduler σ :=
  (s.retired, { s with retired := none })

/-- Installs a program and takes the parked one; the one it replaces and the parked one are given
back. -/
def exchange (s : Scheduler σ) (p : Program σ) :
    (Option (Program σ) × Option (Program σ)) × Scheduler σ :=
  let (replaced, s) := s.install p
  let (retired, s) := s.takeRetired
  ((replaced, retired), s)

end Scheduler

namespace Rendering

variable {σ : Type}

/-- Makes one frame more. A frame that faults is silent, and only the first fault is kept. -/
def frame : Rendering σ → Rendering σ
  | ⟨scheduler, left, right, fault⟩ =>
    match scheduler.step with
    | (.ok (l, r), scheduler) => ⟨scheduler, left.push l, right.push r, fault⟩
    | (.error e, scheduler) =>
      ⟨scheduler, left.push .zero, right.push .zero, fault <|> some e⟩

/-- Makes `n` frames. -/
def frames (s : Scheduler σ) (n : Nat) : Rendering σ := Nat.repeat frame n ⟨s, #[], #[], none⟩

end Rendering

/-- The items of `buffer` from `fresh.size` on behind those of `fresh`: a buffer whose front has
been written over. -/
def overwrite {α : Type} (fresh buffer : Array α) : Array α := fresh ++ buffer.extract fresh.size

namespace Scheduler

/-- Fills the front of a pair of buffers with as many frames as both have room for. The first fault
comes with the filled buffers. -/
def render {σ : Type} (s : Scheduler σ) (left right : Array Sample) :
    (Array Sample × Array Sample) × Option Fault × Scheduler σ :=
  let done := Rendering.frames s (min left.size right.size)
  ((overwrite done.left left, overwrite done.right right), done.fault, done.scheduler)

end Scheduler

end StackSynth
