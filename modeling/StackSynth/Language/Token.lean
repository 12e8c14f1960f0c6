import StackSynth.Language.Numeral
import StackSynth.Language.Word

/-!
# Tokens

Every word of a program becomes one token, except for comments. A word that is exactly `\` hides
the rest of its line, and a word that is exactly `(` hides the words up to and including the first
that ends in a closing parenthesis. Neither kind of comment is recognised inside the other.

Reading tokens never fails: a word that is no marker and no numeral is a name, whatever it looks
like.
-/

namespace StackSynth

/-- What a word of a program is. -/
inductive TokenKind where
  /-- A numeral, with its value. -/
  | number (value : Float)
  /-- The name of an operation. -/
  | name
  /-- The marker that opens a definition. -/
  | definitionStart
  /-- The marker that closes a definition. -/
  | definitionEnd

/-- One unit of a program. -/
structure Token where
  /-- What it is. -/
  kind : TokenKind
  /-- How it is written. -/
  text : String
  /-- Where it begins. -/
  location : Location

namespace Token

/-- What a word is, by its text alone. -/
def classify (text : String) : TokenKind :=
  if text = ":" then .definitionStart
  else if text = ";" then .definitionEnd
  else match Numeral.read? text with
    | some value => .number value
    | none => .name

/-- The token of a word. -/
def ofWord (w : Word) : Token := ⟨classify w.text, w.text, w.location⟩

/-- The tokens of what a cursor has left. -/
def scan (c : Cursor) : List Token :=
  match c.nextWord? with
  | none => []
  | some (w, ⟨d, _⟩) =>
    if w.text = "\\" then
      have := d.skipLine_length_le
      scan d.skipLine
    else if w.text = "(" then
      have := d.skipComment.property
      scan d.skipComment.val
    else ofWord w :: scan d
termination_by c.rest.length

end Token

/-- The tokens of a program text. -/
def tokenize (source : String) : List Token := Token.scan (.ofText source)

end StackSynth
