import StackSynth.CommandLine.Listing
import StackSynth.CommandLine.Render
import StackSynth.Session.Play

/-!
# Running command lines

Most command lines are finished at once: something is printed, files may be written, and there is an
exit status. `play` opens a session, which goes on until it is ended from outside.
-/

namespace StackSynth

/-- What a command line leads to. -/
inductive Started where
  | finished (outcome : Outcome)
  | playing (session : Session)

/-- The name and version of the program. -/
def versionLine : String := "forthwave 0.1.0\n"

/-- How the program is used. -/
def usageText : String :=
  "Usage: forthwave <COMMAND>\n\nCommands: " ++ ", ".intercalate Order.names ++ "\n"

/-- What comes of a command line that asks for nothing to be done. -/
def Stop.outcome (stop : Stop) (folder : Folder) : Outcome :=
  match stop with
  | .usage => { status := 2, reported := usageText, folder }
  | .help => { status := 0, printed := usageText, folder }
  | .version => { status := 0, printed := versionLine, folder }

/-- The outcome of an attempt to print something. -/
def Attempt.outcome (folder : Folder) : Attempt String → Outcome
  | .ok printed => { status := 0, printed, folder }
  | .error failure => failure.outcome folder

namespace PlayArguments

/-- The settings that a session is opened with. -/
def settings (a : PlayArguments) (w : Workplace) : Except SettingsError Settings := do
  let s ← a.engine.settings w
  let s := { s with
    audio.bufferSize := a.bufferSize.getD s.audio.bufferSize
    audio.outputDevice := a.outputDevice <|> s.audio.outputDevice }
  s.check
  return s

/-- Opens the session. -/
def openSession (a : PlayArguments) (w : Workplace) : Except Failure Session × Array Event :=
  match a.settings w with
  | .error error => (.error error.failure, #[])
  | .ok settings => Session.openOn w.folder w.machine settings a.program a.watch

end PlayArguments

/-- Carries out an order. What happened on the way to a session comes with the result. -/
def Order.run (order : Order) (w : Workplace) : Started × Array Event :=
  match order with
  | .play a =>
    match a.openSession w with
    | (.ok session, events) => (.playing session, events)
    | (.error failure, events) => (.finished (failure.outcome w.folder), events)
  | .render a =>
    match a.run w with
    | .ok (printed, folder) => (.finished { status := 0, printed, folder }, #[])
    | .error failure => (.finished (failure.outcome w.folder), #[])
  | .check a => (.finished (Attempt.outcome w.folder (a.run w)), #[])
  | .words a => (.finished (Attempt.outcome w.folder (a.run w)), #[])
  | .devices => (.finished { status := 0, printed := w.machine.report, folder := w.folder }, #[])

/-- Runs a command line. -/
def runCommandLine (words : List String) (w : Workplace) : Started × Array Event :=
  match Order.parse words with
  | .error stop => (.finished (stop.outcome w.folder), #[])
  | .ok order => order.run w

end StackSynth
