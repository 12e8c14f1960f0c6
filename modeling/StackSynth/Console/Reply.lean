import StackSynth.Console.Command
import StackSynth.Number.Written
import StackSynth.Session.Reload
import StackSynth.Synth.Bank

/-!
# Carrying out console commands

A command acts on an engine with a bank, and on the program file it was started with. What it does
is answered by a text or by silence; `quit` is answered by the end of the session.
-/

namespace StackSynth

/-- What a command is answered by. -/
inductive Reply where
  /-- The text to show, if there is one. -/
  | say (text : Option String)
  /-- The session ends. -/
  | quit
  deriving DecidableEq, Repr

namespace Command

/-- The list of commands. -/
def helpText : String := "\n".intercalate
  ["commands:",
   "  <enter> | toggle   start/stop the transport",
   "  <number>           set prompt",
   "  reload             rebuild the program file",
   "  stack              show the operand stack",
   "  note <n> [vel]     MIDI note on",
   "  off <n>            MIDI note off",
   "  cc <n> <v>         MIDI control change",
   "  quit               stop"]

/-- The operand stack as a line: how many values there are, and all of them from bottom to top. -/
def stackLine (values : List Float) : String :=
  s!"<{values.length}> " ++ " ".intercalate (values.map NumberStyle.plain.write)

variable {σ : Type}

/-- Sends a MIDI event; only an event that is dropped is worth a text. -/
def sendMidi (f : Focus σ Bank) (event : MidiEvent) (e : Engine σ) : Reply × Engine σ :=
  let (accepted, e) := e.onModules ((f.comp Bank.midiPart).change (·.send event))
  (.say (if accepted then none else some "MIDI queue full, event dropped"), e)

/-- Carries out a command. -/
def execute (f : Focus σ Bank) (folder : Folder) (program : String) (command : Command)
    (e : Engine σ) : Reply × Engine σ :=
  match command with
  | .toggle =>
    let (playing, e) := e.toggle
    (.say (some (if playing then "playing" else "stopped")), e)
  | .prompt value =>
    let ((), e) := e.onModules ((f.comp Bank.promptPart).change fun _ => ((), value))
    (.say none, e)
  | .reload =>
    match e.reload folder program with
    | .ok (report, e) => (.say (some s!"ok, {report.instructions} instruction(s)"), e)
    | .error error => (.say (some error.failure.oneLine), e)
  | .stack => (.say (some (stackLine e.stackValues)), e)
  | .note key velocity => sendMidi f (.noteOn key velocity) e
  | .off key => sendMidi f (.noteOff key) e
  | .control controller value => sendMidi f (.controlChange controller value) e
  | .help => (.say (some helpText), e)
  | .quit => (.quit, e)

end Command

end StackSynth
