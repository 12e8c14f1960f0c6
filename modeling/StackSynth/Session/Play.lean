import StackSynth.Console.Reply
import StackSynth.Session.Causes
import StackSynth.Session.Event
import StackSynth.Session.Watcher
import StackSynth.Settings.Engine

/-!
# Sessions

A session plays a program on a device while somebody types console lines. It is opened step by step:
the engine is made, the program file is built, the device is opened and started, and the watcher is
set up last. A program file that cannot be built is no obstacle, a device that does not start is
one.

From then on four things can happen: a line is typed, the device asks for a period, the device runs
out of samples, and the program file is looked at. A session is over when its stream has been
stopped; then nothing happens any more.
-/

namespace StackSynth

/-- An engine that is heard. -/
structure Session where
  /-- The program file. -/
  program : String
  engine : Engine Bank
  stream : AudioStream
  /-- The watcher of the program file, if it is watched. -/
  watcher : Option Watcher
  /-- What has happened so far. -/
  events : Array Event

/-- A step on the way to a session. Whatever happens is kept even if the step fails. -/
abbrev Opening := ExceptT Failure (StateM (Array Event))

/-- Notes that something happened. -/
def happen (event : Event) : Opening Unit := modify (·.push event)

/-- An engine renders for a device. Faults wait in its queue. -/
def Engine.renderer {σ : Type} : Renderer (Engine σ) := fun e left right =>
  let (buffers, _, e) := e.processBlock left right
  (buffers, e)

/-- Looks at a watched file and builds it if it has changed. -/
def Watcher.poll {σ : Type} (folder : Folder) (w : Watcher) (e : Engine σ) :
    Option Event × Watcher × Engine σ :=
  match w.changed folder with
  | (false, w) => (none, w, e)
  | (true, w) =>
    match e.reload folder w.path with
    | .ok (report, e) => (some (.rebuilt report), w, e)
    | .error error => (some (.notRebuilt error.failure), w, e)

namespace Session

/-! ## Opening -/

/-- The engine, with its bank. -/
def makeEngine (folder : Folder) (settings : Settings) : Opening (Engine Bank) :=
  match settings.makeEngine folder with
  | .error error => throw error.failure
  | .ok (recordings, e) => do
    happen (.installed settings.modules recordings.length)
    return e

/-- The engine with the program, if that can be built. -/
def buildFirst (folder : Folder) (program : String) (e : Engine Bank) :
    Opening (Engine Bank) :=
  match e.reload folder program with
  | .ok (report, e) => do
    happen (.built report)
    return e
  | .error error => do
    happen (.notBuilt error.failure)
    return e

/-- The stream, already playing. -/
def startStream (machine : AudioMachine) (spec : StreamSpec) : Opening AudioStream :=
  match AudioStream.openOn machine spec with
  | .error error => throw (StreamError.notFound error).failure
  | .ok (choice, stream) => do
    match spec.outputDevice, choice.candidates with
    | some search, first :: others => happen (.ambiguous search (first :: others) first)
    | _, _ => pure ()
    match stream.start with
    | (.error refusal, _) => throw (StreamError.refused refusal).failure
    | (.ok (), stream) =>
      happen (.started stream)
      happen (.heard stream)
      return stream

/-- The watcher of the program file. -/
def startWatcher (folder : Folder) (program : String) (watched : Bool) :
    Opening (Option Watcher) :=
  if watched then do
    happen (.watching program)
    return some (.new folder program)
  else return none

/-- The steps of opening a session. -/
def opening (folder : Folder) (machine : AudioMachine) (settings : Settings)
    (program : String) (watched : Bool) : Opening Session := do
  let e ← makeEngine folder settings
  let engine ← buildFirst folder program e
  let stream ← startStream machine settings.streamSpec
  let watcher ← startWatcher folder program watched
  return { program, engine, stream, watcher, events := #[] }

/-- Opens a session. What happened comes with the result, also if that is a failure. -/
def openOn (folder : Folder) (machine : AudioMachine) (settings : Settings) (program : String)
    (watched : Bool) : Except Failure Session × Array Event :=
  match (opening folder machine settings program watched).run #[] with
  | (.ok session, events) => (.ok { session with events }, events)
  | (.error failure, events) => (.error failure, events)

/-- The line that greets. -/
def greeting (s : Session) : String :=
  s!"Playing {s.program} on {s.stream.device.title}. Enter toggles the transport, "
    ++ "'help' lists commands, Ctrl+C stops."

/-! ## Playing -/

/-- Whether the session is over. -/
def isOver (s : Session) : Bool := !s.stream.isRunning

/-- Ends the session. -/
def stop (s : Session) : List String × Session :=
  if s.isOver then ([], s)
  else (["Stopped."], { s with stream := s.stream.stop, events := s.events.push .stopped })

/-- Takes a console line. The lines that answer it come with the session. -/
def hear (folder : Folder) (line : String) (s : Session) : List String × Session :=
  if s.isOver then ([], s)
  else
    match s, Command.parse line with
    | s, .error error => (["? " ++ error.message], s)
    | ⟨program, engine, stream, watcher, events⟩, .ok command =>
      match command.execute .whole folder program engine with
      | (.quit, engine) => stop ⟨program, engine, stream, watcher, events⟩
      | (.say text, engine) =>
        ((text.map (·.splitOn "\n")).getD [], ⟨program, engine, stream, watcher, events⟩)

/-- Renders a period for the device and logs the faults that are waiting. -/
def period : Session → Option (Array Sample) × Session
  | ⟨program, engine, stream, watcher, events⟩ =>
    let (out, engine, stream) := stream.period Engine.renderer engine
    let (faults, engine) := engine.drainFaults
    (out, ⟨program, engine, stream, watcher, events ++ faults.map Event.faulted⟩)

/-- The device runs out of samples. -/
def underrun (s : Session) : Session :=
  if s.isOver then s else { s with events := s.events.push .underrun }

/-- Looks at the program file if it is watched. -/
def poll (folder : Folder) (s : Session) : Session :=
  if s.isOver then s
  else
    match s with
    | ⟨program, engine, stream, none, events⟩ => ⟨program, engine, stream, none, events⟩
    | ⟨program, engine, stream, some w, events⟩ =>
      let (event, w, engine) := w.poll folder engine
      ⟨program, engine, stream, some w, events ++ event.toArray⟩

end Session

end StackSynth
