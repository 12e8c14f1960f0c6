/-!
# Failures of commands

A command that fails says what it could not do, and perhaps what stands behind that. On one line a
colon joins the two; a report for the terminal puts the cause below.
-/

namespace StackSynth

/-- Why a command failed. -/
structure Failure where
  /-- What could not be done. -/
  message : String
  /-- What stands behind it. -/
  cause : Option String := none
  deriving DecidableEq, Repr

namespace Failure

/-- Everything on one line. -/
def oneLine (f : Failure) : String :=
  match f.cause with
  | none => f.message
  | some cause => f.message ++ ": " ++ cause

/-- The report for the terminal. -/
def report (f : Failure) : String :=
  "Error: " ++ f.message ++ "\n" ++ match f.cause with
    | none => ""
    | some cause => "\nCaused by:\n    " ++ cause ++ "\n"

end Failure

end StackSynth
