import StackSynth.Language.CompileError

/-!
# Showing where a program is wrong

A located error is shown with the source line it points into and a caret below the offending
character. The line stands behind a gutter with its number; the caret line has a gutter of the same
width, so the caret is as many characters into its line as the offending character is into the
source line.
-/

namespace StackSynth

/-- A natural number, filled up with spaces on the left. -/
def padLeft (width n : Nat) : String :=
  let digits := toString n
  "".pushn ' ' (width - digits.length) ++ digits

namespace CompileError

/-- An error with the line it points into, which is looked up in the source as far as the source is
text. -/
def excerpt (source : List UInt8) (e : CompileError) : String :=
  match e.location? with
  | none => e.message
  | some l =>
    match (lines (Utf8.decodeLenient source))[l.line - 1]? with
    | none => e.message
    | some code =>
      e.message ++ "\n  " ++ padLeft 4 l.line ++ " | " ++ code ++ "\n       | "
        ++ "".pushn ' ' (l.column - 1) ++ "^"

end CompileError

end StackSynth
