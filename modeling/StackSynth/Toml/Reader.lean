import StackSynth.Toml.Quoted
import StackSynth.Toml.Table

/-!
# Reading TOML

A document is a sequence of lines: headers, entries of the table that the last header has opened,
and lines that are blank or hold a comment only. Arrays may run over several lines; everything else
ends where the line ends.

Values are nested at most `maxDepth` deep.
-/

namespace StackSynth.Toml

/-- A reader of characters that may refuse them. -/
abbrev Reader := StateT (List Char) Option

/-- The deepest nesting of arrays and inline tables. -/
def maxDepth : Nat := 80

/-- Refuses. -/
def refuse {α : Type} : Reader α := fun _ => none

/-- The next character, which stays. -/
def peek : Reader (Option Char) := fun cs => some (cs.head?, cs)

/-- Passes over a character that has to be there. -/
def expect (c : Char) : Reader Unit
  | x :: cs => if x = c then some ((), cs) else none
  | [] => none

/-- Passes over blanks. -/
def blanks : Reader Unit := fun cs => some ((), cs.dropWhile fun c => c = ' ' || c = '\t')

/-- Passes over a line break. -/
def lineBreak : Reader Unit
  | '\n' :: cs | '\r' :: '\n' :: cs => some ((), cs)
  | _ => none

/-- Passes over a comment, if there is one. -/
def comment : Reader Unit
  | '#' :: cs => some ((), cs.dropWhile isPlainChar)
  | cs => some ((), cs)

/-- Passes over blanks and a comment up to the end of the line. -/
def endLine : Reader Unit := do
  blanks
  comment
  fun cs => if cs.isEmpty then some ((), cs) else lineBreak cs

/-- Passes over blanks, comments and line breaks. At most `fuel` lines end. -/
def blankLines : Nat → Reader Unit
  | 0 => refuse
  | fuel + 1 => do
    blanks
    comment
    fun cs => if startsLineBreak cs then (do lineBreak; blankLines fuel) cs else some ((), cs)

/-! ## Keys -/

/-- Whether a character may stand in a key without quotes. -/
def isKeyChar (c : Char) : Bool := c.isAlphanum || c = '_' || c = '-'

/-- One part of a key. -/
def keyPart : Reader String := do
  match ← peek with
  | some '"' | some '\'' => readLineText
  | _ => fun cs =>
    let name := cs.takeWhile isKeyChar
    if name.isEmpty then none else some (String.ofList name, cs.drop name.length)

/-- A key, whose parts are separated by points. At most `fuel` parts are read. -/
def key : Nat → Reader (List String)
  | 0 => refuse
  | fuel + 1 => do
    blanks
    let part ← keyPart
    blanks
    if (← peek) = some '.' then
      expect '.'
      return part :: (← key fuel)
    else return [part]

/-- A key cut before its last part. -/
def splitKey (parts : List String) : Option (List String × String) :=
  parts.getLast?.map fun last => (parts.dropLast, last)

/-! ## Values -/

/-- A bare value, together with the time behind a date. -/
def bareValue : Reader Value := fun cs =>
  let lexeme := cs.takeWhile isBare
  let rest := cs.drop lexeme.length
  let time := match afterDate? lexeme, rest with
    | some [], ' ' :: digit :: more =>
      if Numeral.isDigit digit then ' ' :: (digit :: more).takeWhile isBare else []
    | _, _ => []
  (readBare? (lexeme ++ time)).map fun v => (v, rest.drop time.length)

/-- The items of an array behind its opening bracket. At most `fuel` items are read. -/
def arrayItems (item : Reader Value) : Nat → Reader (List Value)
  | 0 => refuse
  | fuel + 1 => do
    blankLines (fuel + 1)
    if (← peek) = some ']' then
      expect ']'
      return []
    else
      let v ← item
      blankLines (fuel + 1)
      if (← peek) = some ',' then
        expect ','
        return v :: (← arrayItems item fuel)
      else
        expect ']'
        return [v]

/-- An entry: a key and a value. -/
def entry (item : Reader Value) (fuel : Nat) : Reader (List String × String × Value) := do
  match splitKey (← key fuel) with
  | none => refuse
  | some (path, key) =>
    expect '='
    blanks
    return (path, key, ← item)

/-- The entries of an inline table from its next entry on. At most `fuel` entries are read. -/
def tableEntries (item : Reader Value) : Nat → Node.Entries → Reader Node.Entries
  | 0, _ => refuse
  | fuel + 1, entries => do
    let (path, key, v) ← entry item (fuel + 1)
    match Node.write [] path key v entries with
    | none => refuse
    | some entries =>
      blanks
      if (← peek) = some ',' then
        expect ','
        tableEntries item fuel entries
      else
        expect '\x7d'
        return entries

/-- A value that holds at most `depth` further levels of values. -/
def value (depth fuel : Nat) : Reader Value := do
  match ← peek with
  | some '"' | some '\'' => return .text (← readText)
  | some '[' =>
    match depth with
    | 0 => refuse
    | depth + 1 =>
      expect '['
      return .array (← arrayItems (value depth fuel) fuel)
  | some '\x7b' =>
    match depth with
    | 0 => refuse
    | depth + 1 =>
      expect '\x7b'
      blanks
      if (← peek) = some '\x7d' then
        expect '\x7d'
        return .table []
      else return .table (Node.finishEntries (← tableEntries (value depth fuel) fuel []))
  | _ => bareValue

/-! ## Documents -/

/-- A document of which a part has been read. -/
structure Progress where
  /-- The table that entries go to. -/
  header : List String
  /-- Everything so far. -/
  root : Node.Entries

/-- A line that starts with an opening bracket. -/
def headerLine (fuel : Nat) (p : Progress) : Reader Progress := do
  expect '['
  let array := (← peek) = some '['
  if array then expect '['
  let parts ← key fuel
  expect ']'
  if array then expect ']'
  endLine
  match splitKey parts with
  | none => refuse
  | some (path, last) =>
    match (if array then Node.openItem path last p.root else Node.openTable path last p.root) with
    | none => refuse
    | some root => return ⟨parts, root⟩

/-- A line with an entry. -/
def entryLine (fuel : Nat) (p : Progress) : Reader Progress := do
  let (path, key, v) ← entry (value maxDepth fuel) fuel
  endLine
  match Node.write p.header path key v p.root with
  | none => refuse
  | some root => return { p with root }

/-- Reads one line. -/
def line (size : Nat) (p : Progress) : Reader Progress := do
  blanks
  match ← peek with
  | none => return p
  | some '[' => headerLine size p
  | some '#' | some '\n' | some '\r' =>
    endLine
    return p
  | some _ => entryLine size p

/-- Reads line after line. Every line takes at least one character, so there are at most `fuel`
lines in `fuel` characters. -/
def document (size : Nat) : Nat → Progress → List Char → Option Node.Entries
  | _, p, [] => some p.root
  | 0, _, _ => none
  | fuel + 1, p, cs => (line size p cs).bind fun (p, rest) => document size fuel p rest

/-- The table that a document holds, if it is well formed. A byte order mark in front of it does not
count. -/
def read? (text : String) : Option Table :=
  let cs := match text.toList with
    | '\ufeff' :: cs => cs
    | cs => cs
  (document (cs.length + 1) (cs.length + 1) ⟨[], []⟩ cs).map Node.finishEntries

end StackSynth.Toml
