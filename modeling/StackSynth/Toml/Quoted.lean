import StackSynth.Toml.Scalar

/-!
# Quoted texts of TOML

Four ways of quoting. With double quotes a backslash starts an escape; with single quotes every
character stands for itself. Tripled quotes let a text run over several lines, and then a line break
just behind the opening quotes is not part of it.

A text is written in the first form that shows it without escapes, in the order double, single,
tripled double, tripled single. If there is none it is escaped. A tab never needs a form of its own,
but where escapes are possible it is written as one.

Inside tripled quotes up to two quotes in a row stand for themselves, also just before the closing
ones.
-/

namespace StackSynth.Toml

/-- Whether a character may stand in a text on one line as it is. -/
def isPlainChar (c : Char) : Bool := c = '\t' || (' ' ≤ c && c ≠ '\x7f')

/-! ## Reading -/

/-- The character with a number that hexadecimal digits write. -/
def hexChar? (digits : List Char) : Option Char :=
  let n := ofBase 16 digits
  if digits.all isHexDigit && n.isValidChar then some (Char.ofNat n) else none

/-- The character that a letter behind a backslash stands for. -/
def escape? : Char → Option Char
  | 'b' => some '\x08'
  | 't' => some '\t'
  | 'n' => some '\n'
  | 'f' => some '\x0c'
  | 'r' => some '\r'
  | '"' => some '"'
  | '\\' => some '\\'
  | _ => none

/-- A text that was read, last character first. -/
def finish (out : List Char) (rest : List Char) : Option (String × List Char) :=
  some (String.ofList out.reverse, rest)

/-- Reads a text behind its opening double quote, and gives what follows the closing one. -/
def readDouble (out : List Char) : List Char → Option (String × List Char)
  | '"' :: rest => finish out rest
  | '\\' :: 'u' :: a :: b :: c :: d :: rest =>
    (hexChar? [a, b, c, d]).bind fun x => readDouble (x :: out) rest
  | '\\' :: 'U' :: a :: b :: c :: d :: e :: f :: g :: h :: rest =>
    (hexChar? [a, b, c, d, e, f, g, h]).bind fun x => readDouble (x :: out) rest
  | '\\' :: c :: rest => (escape? c).bind fun x => readDouble (x :: out) rest
  | c :: rest => if isPlainChar c then readDouble (c :: out) rest else none
  | [] => none

/-- Reads a text behind its opening single quote. -/
def readSingle (out : List Char) : List Char → Option (String × List Char)
  | '\'' :: rest => finish out rest
  | c :: rest => if isPlainChar c then readSingle (c :: out) rest else none
  | [] => none

/-- Whether a line ends here. -/
def startsLineBreak : List Char → Bool
  | '\n' :: _ | '\r' :: '\n' :: _ => true
  | _ => false

/-- Whether nothing but blanks follows up to the end of the line. -/
def restOfLineIsBlank (cs : List Char) : Bool :=
  startsLineBreak (cs.dropWhile fun c => c = ' ' || c = '\t')

/-- Reads a text behind its opening tripled double quotes. While `skipping`, the line breaks and
blanks behind a backslash that ends a line are passed over. -/
def readTripleDouble (skipping : Bool) (out : List Char) : List Char → Option (String × List Char)
  | '"' :: '"' :: '"' :: '"' :: '"' :: rest => finish ('"' :: '"' :: out) rest
  | '"' :: '"' :: '"' :: '"' :: rest => finish ('"' :: out) rest
  | '"' :: '"' :: '"' :: rest => finish out rest
  | '\r' :: '\n' :: rest =>
    if skipping then readTripleDouble true out rest else readTripleDouble false ('\n' :: out) rest
  | '\\' :: 'u' :: a :: b :: c :: d :: rest =>
    (hexChar? [a, b, c, d]).bind fun x => readTripleDouble false (x :: out) rest
  | '\\' :: 'U' :: a :: b :: c :: d :: e :: f :: g :: h :: rest =>
    (hexChar? [a, b, c, d, e, f, g, h]).bind fun x => readTripleDouble false (x :: out) rest
  | '\\' :: c :: rest =>
    if restOfLineIsBlank (c :: rest) then
      if c = '\r' then readTripleDouble true out (c :: rest) else readTripleDouble true out rest
    else (escape? c).bind fun x => readTripleDouble false (x :: out) rest
  | c :: rest =>
    if skipping && (c = ' ' || c = '\t' || c = '\n') then readTripleDouble true out rest
    else if c = '\n' || isPlainChar c then readTripleDouble false (c :: out) rest
    else none
  | [] => none

/-- Reads a text behind its opening tripled single quotes. -/
def readTripleSingle (out : List Char) : List Char → Option (String × List Char)
  | '\'' :: '\'' :: '\'' :: '\'' :: '\'' :: rest => finish ('\'' :: '\'' :: out) rest
  | '\'' :: '\'' :: '\'' :: '\'' :: rest => finish ('\'' :: out) rest
  | '\'' :: '\'' :: '\'' :: rest => finish out rest
  | '\r' :: '\n' :: rest => readTripleSingle ('\n' :: out) rest
  | c :: rest => if c = '\n' || isPlainChar c then readTripleSingle (c :: out) rest else none
  | [] => none

/-- A text without a line break at its front. -/
def dropLineBreak : List Char → List Char
  | '\n' :: rest | '\r' :: '\n' :: rest => rest
  | rest => rest

/-- Reads a text on one line, quotes included. -/
def readLineText : List Char → Option (String × List Char)
  | '"' :: rest => readDouble [] rest
  | '\'' :: rest => readSingle [] rest
  | _ => none

/-- Reads a text in any of the four forms. -/
def readText : List Char → Option (String × List Char)
  | '"' :: '"' :: '"' :: rest => readTripleDouble false [] (dropLineBreak rest)
  | '\'' :: '\'' :: '\'' :: rest => readTripleSingle [] (dropLineBreak rest)
  | rest => readLineText rest

/-! ## Writing -/

/-- The longest run of a character in a text. -/
def longestRun (c : Char) (cs : List Char) : Nat :=
  (cs.foldl (fun (most, run) x =>
    if x = c then (max most (run + 1), run + 1) else (most, 0)) (0, 0)).1

/-- Whether a character can be written only as an escape: a control character other than a tab or a
line feed. -/
def needsEscape (c : Char) : Bool := !isPlainChar c && c ≠ '\n'

/-- A character as four hexadecimal digits. -/
def hexEscape (c : Char) : String :=
  let digits := (Nat.toDigits 16 c.toNat).map Char.toUpper
  "\\u" ++ "".pushn '0' (4 - digits.length) ++ String.ofList digits

/-- A character other than a double quote, as it is written between double quotes. A line feed
stands for itself if the quotes are tripled. -/
def shown (tripled : Bool) (c : Char) : String :=
  if c = '\\' then "\\\\"
  else if c = '\t' then "\\t"
  else if c = '\n' then if tripled then "\n" else "\\n"
  else if c = '\r' then "\\r"
  else if c = '\x08' then "\\b"
  else if c = '\x0c' then "\\f"
  else if needsEscape c then hexEscape c
  else c.toString

/-- Writes the characters between double quotes. If the quotes are tripled, up to two of them in a
row stand for themselves; `run` of them stand just before. -/
def writeEscaped (tripled : Bool) (run : Nat) : List Char → String
  | [] => ""
  | c :: cs =>
    if c = '"' then
      if tripled && run < 2 then "\"" ++ writeEscaped tripled (run + 1) cs
      else "\\\"" ++ writeEscaped tripled 0 cs
    else shown tripled c ++ writeEscaped tripled 0 cs

/-- A text in quotes. -/
def writeText (s : String) : String :=
  let cs := s.toList
  let lineFeed := cs.contains '\n'
  let front := if lineFeed then "\n" else ""
  let escapes := cs.any needsEscape
  let doubles := longestRun '"' cs
  let singles := longestRun '\'' cs
  let showsDouble := !escapes && !cs.contains '\\'
  if showsDouble && doubles = 0 && !lineFeed then "\"" ++ writeEscaped false 0 cs ++ "\""
  else if !escapes && singles = 0 && !lineFeed then "'" ++ s ++ "'"
  else if showsDouble && doubles ≤ 2 then
    "\"\"\"" ++ front ++ writeEscaped true 0 cs ++ "\"\"\""
  else if !escapes && singles ≤ 2 then "'''" ++ front ++ s ++ "'''"
  else if lineFeed then "\"\"\"" ++ front ++ writeEscaped true 0 cs ++ "\"\"\""
  else "\"" ++ writeEscaped false 0 cs ++ "\""

end StackSynth.Toml
