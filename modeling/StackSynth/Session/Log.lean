import StackSynth.Text.Quoted

/-!
# Log lines

While sound plays, what happens is logged. An entry has a level, the part of the program it comes
from, a message and fields. A message may have several lines; characters by which a terminal could
be steered are shown as escapes in it.
-/

namespace StackSynth

/-- How much an entry matters. -/
inductive LogLevel where
  | info
  | warn
  | error
  deriving DecidableEq, Repr

/-- The name of a level. -/
def LogLevel.text : LogLevel → String
  | .info => "INFO"
  | .warn => "WARN"
  | .error => "ERROR"

/-- An entry of the log. -/
structure LogEntry where
  level : LogLevel
  /-- The part of the program that it comes from. -/
  target : String
  message : String
  /-- Names and values. -/
  fields : List (String × String) := []
  deriving DecidableEq, Repr

namespace LogEntry

/-- A character of a message as it is shown. -/
private def shown (c : Char) : String :=
  let hex := String.ofList (Nat.toDigits 16 c.toNat)
  if c = '\x1b' || c = '\x7f' then "\\x" ++ hex
  else if c = '\x07' || c = '\x08' || c = '\x0c' then "\\x0" ++ hex
  else if '\u0080' ≤ c && c ≤ '\u009f' then "\\u\x7b" ++ hex ++ "\x7d"
  else c.toString

/-- The text of an entry. -/
def text (e : LogEntry) : String :=
  e.level.text ++ " " ++ e.target ++ ": " ++ String.join (e.message.toList.map shown)
    ++ String.join (e.fields.map fun (name, value) => " " ++ name ++ "=" ++ value)

/-- The lines of an entry. -/
def lines (e : LogEntry) : List String := e.text.splitOn "\n"

end LogEntry

end StackSynth
