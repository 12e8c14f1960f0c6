import StackSynth.Language.Numeral
import StackSynth.Text.Blank

/-!
# Console lines

| Line | Command |
|---|---|
| empty, `toggle` | starts or stops the transport |
| a decimal numeral | sets the value that `prompt` reads |
| `reload` | builds the program file again |
| `stack` | shows the operand stack |
| `note n`, `note n v` | presses a key, with velocity 100 if none is given |
| `off n` | releases a key |
| `cc n v` | moves a controller |
| `help` | lists the commands |
| `quit`, `exit` | ends the session |

Words are separated by white space, and MIDI bytes are natural numbers up to 127. A line that starts
like a MIDI command and goes on otherwise is told how that command is used; every other line that is
no command is unknown as a whole.
-/

namespace StackSynth

/-- What a console line asks for. -/
inductive Command where
  | toggle
  | prompt (value : Float)
  | reload
  | stack
  | note (note velocity : UInt8)
  | off (note : UInt8)
  | control (controller value : UInt8)
  | help
  | quit

/-- Why a line is no command. -/
inductive CommandError where
  /-- The line means nothing. -/
  | unknown (line : String)
  /-- The line misuses a command that is used like `form`. -/
  | usage (form : String)
  deriving DecidableEq, Repr

/-- The text of an error. -/
def CommandError.message : CommandError → String
  | .unknown line => s!"unknown command '{line}' (try 'help')"
  | .usage form => "usage: " ++ form

/-- The velocity of a key for which none is given. -/
def Command.defaultVelocity : UInt8 := 100

/-- The MIDI byte that a word writes. -/
def Command.midiByte? (word : String) : Option UInt8 :=
  match Numeral.readNatural? word with
  | some n => if n ≤ 127 then some n.toUInt8 else none
  | none => none

/-- How `note` is used. -/
def Command.noteForm : String := "note <0-127> [velocity 0-127]"

/-- How `off` is used. -/
def Command.offForm : String := "off <0-127>"

/-- How `cc` is used. -/
def Command.controlForm : String := "cc <0-127> <0-127>"

/-- The command that words write; nothing if they are unknown. -/
def Command.ofWords : List String → Option (Except String Command)
  | [] | ["toggle"] => some (.ok .toggle)
  | ["reload"] => some (.ok .reload)
  | ["stack"] => some (.ok .stack)
  | ["help"] => some (.ok .help)
  | ["quit"] | ["exit"] => some (.ok .quit)
  | "note" :: rest =>
    some <| match rest.map midiByte? with
      | [some key] => .ok (.note key defaultVelocity)
      | [some key, some velocity] => .ok (.note key velocity)
      | _ => .error noteForm
  | "off" :: rest =>
    some <| match rest.map midiByte? with
      | [some key] => .ok (.off key)
      | _ => .error offForm
  | "cc" :: rest =>
    some <| match rest.map midiByte? with
      | [some controller, some value] => .ok (.control controller value)
      | _ => .error controlForm
  | [word] => (Numeral.read? word).map fun value => .ok (.prompt value)
  | _ => none

/-- The command in a line. -/
def Command.parse (line : String) : Except CommandError Command :=
  match ofWords (Blank.words line) with
  | some (.ok command) => .ok command
  | some (.error form) => .error (.usage form)
  | none => .error (.unknown (Blank.trim line))

end StackSynth
