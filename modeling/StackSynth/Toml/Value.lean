import StackSynth.Number.Power

/-!
# TOML values

What a TOML document holds. A table keeps its entries in the order in which they were first written,
and no key occurs twice. Dates and times are recognised, but nothing here needs their content.
-/

namespace StackSynth.Toml

/-- A value of a document. -/
inductive Value where
  | text (s : String)
  | integer (n : Int)
  | float (x : Float)
  | boolean (b : Bool)
  /-- A date, a time, or both. -/
  | moment
  | array (items : List Value)
  | table (entries : List (String × Value))

/-- Whether an integer fits into 64 bits with a sign. -/
def isWord : Int → Bool
  | .ofNat n => n < twoTo 63
  | .negSucc n => n < twoTo 63

/-- The entries of a table. -/
abbrev Table := List (String × Value)

end StackSynth.Toml
