import StackSynth.Language.Word
import StackSynth.Text.Utf8

/-!
# Why a program does not compile

Each error names what offends and where it stands. A source that is no text has no location.
-/

namespace StackSynth

/-- A rejected program. -/
inductive CompileError where
  /-- A name stands for nothing. -/
  | unresolvedWord (name : String) (location : Location)
  /-- A definition opens at the end of the source; the location is that of the marker. -/
  | missingWordName (location : Location)
  /-- A numeral or a marker stands where a definition has its name. -/
  | invalidWordName (text : String) (location : Location)
  /-- A definition closes and none is open. -/
  | unexpectedDefinitionEnd (location : Location)
  /-- The source ends inside a definition; the location is that of its name. -/
  | unterminatedDefinition (name : String) (location : Location)
  /-- A definition nests calls too deeply; the location is that of its name. -/
  | callDepthExceeded (name : String) (limit : Nat) (location : Location)
  /-- The source is no text. -/
  | invalidEncoding (error : Utf8.Error)
  deriving DecidableEq, Repr

namespace CompileError

/-- Where an error points. -/
def location? : CompileError → Option Location
  | .unresolvedWord _ l | .missingWordName l | .invalidWordName _ l | .unexpectedDefinitionEnd l
  | .unterminatedDefinition _ l | .callDepthExceeded _ _ l => some l
  | .invalidEncoding _ => none

/-- The text of an error. -/
def message : CompileError → String
  | .unresolvedWord name l => s!"unresolved word '{name}' at {l.text}"
  | .missingWordName l => s!"missing word name after ':' at {l.text}"
  | .invalidWordName text l => s!"'{text}' cannot be used as a word name at {l.text}"
  | .unexpectedDefinitionEnd l => s!"';' without a matching ':' at {l.text}"
  | .unterminatedDefinition name l => s!"definition of '{name}' at {l.text} is missing its ';'"
  | .callDepthExceeded name limit l =>
    s!"definition of '{name}' at {l.text} nests calls deeper than {limit}"
  | .invalidEncoding e => s!"program source is not valid UTF-8: {e.message}"

end CompileError

end StackSynth
