import StackSynth.Text.Blank

/-!
# Words and where they stand

A program text is a sequence of words, the maximal runs of characters that are not white space. A
word is known together with the location of its first character. Lines and columns count from one;
only a line feed starts a line, and a column is a number of characters.

A `Cursor` is a place in a text: the characters still to be read and the location of the first of
them. Reading a word gives the cursor behind it, together with the proof that less is left to
read.
-/

namespace StackSynth

/-- A place in a text. -/
structure Location where
  /-- Line, the first being `1`. -/
  line : Nat
  /-- Column in characters, the first being `1`. -/
  column : Nat
  deriving DecidableEq, Repr, Inhabited

namespace Location

/-- Where a text begins. -/
def start : Location := ⟨1, 1⟩

/-- The place behind a character. -/
def next (l : Location) (c : Char) : Location :=
  if c = '\n' then ⟨l.line + 1, 1⟩ else ⟨l.line, l.column + 1⟩

/-- The place behind a sequence of characters. -/
def advance (l : Location) (cs : List Char) : Location := cs.foldl next l

/-- Line and column with a colon between them. -/
def text (l : Location) : String := s!"{l.line}:{l.column}"

end Location

/-- A word and the place of its first character. -/
structure Word where
  /-- The characters of the word. -/
  text : String
  /-- The place of the first one. -/
  location : Location
  deriving DecidableEq, Repr

/-- What is left to read of a text, and where that begins. -/
structure Cursor where
  /-- The place of the first character left. -/
  location : Location
  /-- The characters left. -/
  rest : List Char

namespace Cursor

/-- The whole of a text. -/
def ofText (text : String) : Cursor := ⟨.start, text.toList⟩

/-- Passes over characters as long as they satisfy `p`. -/
def skipWhile (p : Char → Bool) (c : Cursor) : Cursor :=
  ⟨c.location.advance (c.rest.takeWhile p), c.rest.dropWhile p⟩

theorem skipWhile_length_le (p : Char → Bool) (c : Cursor) :
    (c.skipWhile p).rest.length ≤ c.rest.length := by
  rw [skipWhile]
  exact (List.dropWhile_sublist p).length_le

/-- Passes over the rest of the line and the line feed that ends it. -/
def skipLine (c : Cursor) : Cursor :=
  let c := c.skipWhile (· ≠ '\n')
  ⟨c.location.advance (c.rest.take 1), c.rest.drop 1⟩

theorem skipLine_length_le (c : Cursor) : c.skipLine.rest.length ≤ c.rest.length := by
  simp only [skipLine, List.length_drop]
  exact Nat.le_trans (Nat.sub_le _ _) (c.skipWhile_length_le _)

/-- The next word and the cursor behind it. -/
def nextWord? (c : Cursor) : Option (Word × { d : Cursor // d.rest.length < c.rest.length }) :=
  let w := c.skipWhile isBlank
  match h : w.rest with
  | [] => none
  | x :: xs =>
    let letters := x :: xs.takeWhile (!isBlank ·)
    let after : Cursor := ⟨w.location.advance letters, xs.dropWhile (!isBlank ·)⟩
    some (⟨String.ofList letters, w.location⟩, ⟨after, by
      have hle := c.skipWhile_length_le isBlank
      have hdrop := (List.dropWhile_sublist (l := xs) (!isBlank ·)).length_le
      simp only [w] at h
      rw [h, List.length_cons] at hle
      exact Nat.lt_of_lt_of_le (Nat.lt_succ_of_le hdrop) hle⟩)

/-- Passes over words up to and including the first that ends in a closing parenthesis, or over all
of them. -/
def skipComment (c : Cursor) : { d : Cursor // d.rest.length ≤ c.rest.length } :=
  match c.nextWord? with
  | none => ⟨⟨c.location.advance c.rest, []⟩, Nat.zero_le _⟩
  | some (w, ⟨d, h⟩) =>
    if w.text.toList.getLast? = some ')' then ⟨d, Nat.le_of_lt h⟩
    else
      let ⟨e, he⟩ := d.skipComment
      ⟨e, Nat.le_trans he (Nat.le_of_lt h)⟩
termination_by c.rest.length

end Cursor

end StackSynth
