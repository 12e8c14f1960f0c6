import Std.Data.HashMap
import StackSynth.Language.Instruction

/-!
# Call depth

A word runs by running the bodies of the words it calls inside its own, so the nesting of calls has
to be bounded before a program runs. The depth of a word is one more than the greatest depth of a
word that its body calls.

Words share their callees, and following every call would take exponential time. `measure` therefore
keeps the depth of every body it has seen under the label of that body.
-/

namespace StackSynth

/-- Depths already known, by the labels of the bodies. -/
abbrev DepthTable := Std.HashMap Nat Nat

variable {σ : Type}

mutual

/-- Depth of the word that a step calls, or `0` if it calls none. -/
def Instruction.measure (table : DepthTable) : Instruction σ → Nat × DepthTable
  | .call _ label body =>
    match table[label]? with
    | some depth => (depth, table)
    | none =>
      let (depth, table) := Instruction.measureAll table body
      (depth + 1, table.insert label (depth + 1))
  | .push _ | .native _ _ | .constant _ _ => (0, table)

/-- The greatest depth of a word that one of the steps calls. -/
def Instruction.measureAll (table : DepthTable) : List (Instruction σ) → Nat × DepthTable
  | [] => (0, table)
  | i :: is =>
    let (first, table) := i.measure table
    let (rest, table) := Instruction.measureAll table is
    (max first rest, table)

end

end StackSynth
