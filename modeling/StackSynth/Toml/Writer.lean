import StackSynth.Number.Written
import StackSynth.Toml.Quoted

/-!
# Writing TOML

A document is written as a row of tables, each under its header and with an empty line between two.
An array of two or more items has one item on a line.

Integers that do not fit into 64 bits with a sign cannot be written, and neither can dates and
nested tables.
-/

namespace StackSynth.Toml

/-- The text of a float, which always has a point unless it is infinite or no number. -/
def writeFloat (x : Float) : String := if x.isNaN then "nan" else NumberStyle.setting.write x

/-- The text of an array of items with these texts. -/
def arrayText : List String → String
  | [] => "[]"
  | [text] => "[" ++ text ++ "]"
  | texts => "[\n" ++ String.join (texts.map fun text => "    " ++ text ++ ",\n") ++ "]"

mutual

/-- The text of a value, if it can be written. -/
def writeValue : Value → Option String
  | .text s => some (writeText s)
  | .integer n => if isWord n then some (toString n) else none
  | .float x => some (writeFloat x)
  | .boolean b => some (if b then "true" else "false")
  | .moment | .table _ => none
  | .array items => (writeItems items).map arrayText

/-- The texts of the items of an array. -/
def writeItems : List Value → Option (List String)
  | [] => some []
  | v :: vs => do
    let text ← writeValue v
    return text :: (← writeItems vs)

end

/-- One table under its header. -/
def writeTable (name : String) (table : Table) : Option String := do
  let entries ← table.mapM fun (key, v) => do return key ++ " = " ++ (← writeValue v) ++ "\n"
  return "[" ++ name ++ "]\n" ++ String.join entries

/-- A row of tables. -/
def writeTables (tables : List (String × Table)) : Option String := do
  return "\n".intercalate (← tables.mapM fun (name, table) => writeTable name table)

end StackSynth.Toml
