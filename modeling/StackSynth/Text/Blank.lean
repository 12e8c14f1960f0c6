/-!
# White space

The characters with the Unicode property `White_Space`, which separate words everywhere in the
project, and the functions that split and trim by them. Texts are lists of characters here: a
position in a text is a number of characters.
-/

namespace StackSynth

/-- Whether a character is white space. -/
def isBlank (c : Char) : Bool :=
  let n := c.toNat
  (0x9 ≤ n && n ≤ 0xd) || n = 0x20 || n = 0x85 || n = 0xa0 || n = 0x1680
    || (0x2000 ≤ n && n ≤ 0x200a) || n = 0x2028 || n = 0x2029 || n = 0x202f || n = 0x205f
    || n = 0x3000

/-- White space in the sense of the core library is white space here. -/
theorem isBlank_of_isWhitespace {c : Char} (h : c.isWhitespace = true) : isBlank c = true := by
  simp only [Char.isWhitespace, Bool.or_eq_true, decide_eq_true_eq] at h
  rcases h with ((rfl | rfl) | rfl) | rfl <;> decide

namespace Blank

/-- The words of a text: its maximal runs of characters that are not white space. `word` is the run
being read, last character first. -/
private def wordsFrom (word : List Char) : List Char → List String
  | [] => if word.isEmpty then [] else [String.ofList word.reverse]
  | c :: cs =>
    if isBlank c then
      if word.isEmpty then wordsFrom [] cs else String.ofList word.reverse :: wordsFrom [] cs
    else wordsFrom (c :: word) cs

/-- The words of a text. -/
def words (text : String) : List String := wordsFrom [] text.toList

/-- White space in front of the words makes no difference. -/
theorem words_blank {c : Char} (h : isBlank c = true) (rest : List Char) :
    words (String.ofList (c :: rest)) = words (String.ofList rest) := by
  rw [words, words, String.toList_ofList, String.toList_ofList, wordsFrom, if_pos h]
  rfl

private theorem wordsFrom_letters {letters : List Char} (h : ∀ c ∈ letters, isBlank c = false)
    (word rest : List Char) :
    wordsFrom word (letters ++ rest) = wordsFrom (letters.reverse ++ word) rest := by
  induction letters generalizing word with
  | nil => rfl
  | cons c letters ih =>
    rw [List.forall_mem_cons] at h
    rw [List.cons_append, wordsFrom, h.1, if_neg Bool.false_ne_true, ih h.2, List.reverse_cons,
      List.append_assoc]
    rfl

/-- A run of letters is the first word if it goes on to white space or to the end. -/
theorem words_letters {letters rest : List Char} (hne : letters ≠ [])
    (h : ∀ c ∈ letters, isBlank c = false) (hrest : rest.head?.all isBlank = true) :
    words (String.ofList (letters ++ rest))
      = String.ofList letters :: words (String.ofList rest) := by
  have hempty : letters.reverse.isEmpty = false := by
    rw [List.isEmpty_reverse, List.isEmpty_eq_false_iff]
    exact hne
  rw [words, words, String.toList_ofList, String.toList_ofList, wordsFrom_letters h,
    List.append_nil]
  cases rest with
  | nil => rw [wordsFrom, hempty, List.reverse_reverse]; rfl
  | cons c rest =>
    have hc : isBlank c = true := hrest
    rw [wordsFrom, wordsFrom, if_pos hc, if_pos hc, hempty, List.reverse_reverse]
    rfl

/-- A text without the white space at its two ends. -/
def trim (text : String) : String :=
  let rest := text.toList.dropWhile isBlank
  String.ofList (rest.reverse.dropWhile isBlank).reverse

end Blank

/-- The lines of a text. A line ends before a line feed, and a carriage return just before that is
not part of it; what follows the last line feed is a line unless it is empty. -/
def lines (text : String) : List String :=
  go [] text.toList
where
  /-- `line` is the line being read, last character first. -/
  go (line : List Char) : List Char → List String
    | [] => if line.isEmpty then [] else [String.ofList line.reverse]
    | c :: cs =>
      if c = '\n' then
        let line := if line.head? = some '\r' then line.tail else line
        String.ofList line.reverse :: go [] cs
      else go (c :: line) cs

end StackSynth
