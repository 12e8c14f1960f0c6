import StackSynth.Number.Scientific
import StackSynth.Toml.Value

/-!
# Numbers, booleans and dates of TOML

A bare value is a run of characters that contains no space, bracket or comma, apart from the single
space that may stand between a date and a time. Digits may be grouped by underscores that stand
between two digits.

An integer has to fit into 64 bits with a sign. A float that is too large is refused, unless it is
negative: then it is the negative infinity.
-/

namespace StackSynth.Toml

/-- Whether a character can be part of a bare value. -/
def isBare (c : Char) : Bool := c.isAlphanum || c = '_' || c = '+' || c = '-' || c = '.' || c = ':'

/-- Whether a character is a hexadecimal digit. -/
def isHexDigit (c : Char) : Bool :=
  Numeral.isDigit c || 'a' ≤ c && c ≤ 'f' || 'A' ≤ c && c ≤ 'F'

/-- The value of a hexadecimal digit. -/
def hexValue (c : Char) : Nat :=
  if Numeral.isDigit c then c.toNat - 48 else c.toLower.toNat - 87

/-- The natural number that hexadecimal digits write in a base. -/
def ofBase (base : Nat) (digits : List Char) : Nat :=
  digits.foldl (fun n c => base * n + hexValue c) 0

/-- The groups of a row of digits, which are separated by underscores. -/
def groups : List Char → List (List Char)
  | [] => [[]]
  | c :: cs =>
    match groups cs with
    | group :: rest => if c = '_' then [] :: group :: rest else (c :: group) :: rest
    | [] => [[c]]

/-- The digits of a grouped row, which is not empty and has no empty group. -/
def ungroup? (isDigit : Char → Bool) (cs : List Char) : Option (List Char) :=
  let parts := groups cs
  if parts.all fun part => !part.isEmpty && part.all isDigit then some parts.flatten else none

/-- The digits of a decimal integer without its sign; only zero starts with a zero. -/
def decimal? (cs : List Char) : Option (List Char) :=
  match ungroup? Numeral.isDigit cs with
  | some digits => if cs.length = 1 || cs.head? ≠ some '0' then some digits else none
  | none => none

/-- An integer, if it fits into 64 bits. -/
def integer? (n : Int) : Option Value :=
  if isWord n then some (.integer n) else none

/-- An integer in another base, behind its mark. -/
def based? (base : Nat) (isDigit : Char → Bool) (cs : List Char) : Option Value :=
  (ungroup? isDigit cs).bind fun digits => integer? (ofBase base digits)

/-- The integer that a bare value writes. -/
def readInteger? (cs : List Char) : Option Value :=
  match cs with
  | '0' :: 'x' :: digits => based? 16 isHexDigit digits
  | '0' :: 'o' :: digits => based? 8 (fun c => '0' ≤ c && c ≤ '7') digits
  | '0' :: 'b' :: digits => based? 2 (fun c => c = '0' || c = '1') digits
  | cs =>
    let (negative, cs) := takeSign cs
    (decimal? cs).bind fun digits =>
      let n : Int := Numeral.ofDigits digits
      integer? (if negative then -n else n)

/-! ## Floats -/

/-- The exponent behind its mark. -/
def exponent? (cs : List Char) : Option Int :=
  let (negative, cs) := takeSign cs
  (ungroup? Numeral.isDigit cs).map fun digits =>
    let n : Int := Numeral.ofDigits digits
    if negative then -n else n

/-- Whether a character marks an exponent. -/
def isExponentMark (c : Char) : Bool := c = 'e' || c = 'E'

/-- The float that a bare value writes with a point, an exponent or both. -/
def decimalFloat? (cs : List Char) : Option Float := do
  let (negative, cs) := takeSign cs
  let front := cs.takeWhile fun c => !isExponentMark c
  let exponent ← match cs.drop front.length with
    | [] => some 0
    | _ :: back => exponent? back
  let whole ← decimal? (front.takeWhile (· ≠ '.'))
  let fraction ← match front.dropWhile (· ≠ '.') with
    | [] => if front.length = cs.length then none else some []
    | _ :: digits => ungroup? Numeral.isDigit digits
  let x := scientific negative (whole ++ fraction) (exponent - fraction.length)
  if x == 1.0 / 0.0 then none else some x

/-- The float that a bare value writes. -/
def readFloat? (cs : List Char) : Option Value :=
  let (negative, name) := takeSign cs
  if name = "inf".toList then some (.float (if negative then -(1.0 / 0.0) else 1.0 / 0.0))
  else if name = "nan".toList then some (.float (0.0 / 0.0))
  else (decimalFloat? cs).map .float

/-! ## Dates and times -/

/-- The number that two digits write, if it is in a range. -/
def twoDigits? (least most : Nat) (a b : Char) : Bool :=
  let n := Numeral.ofDigits [a, b]
  Numeral.isDigit a && Numeral.isDigit b && least ≤ n && n ≤ most

/-- The days of a month. -/
def daysOf (year month : Nat) : Nat :=
  if month = 2 then
    if year % 4 = 0 && (year % 100 ≠ 0 || year % 400 = 0) then 29 else 28
  else if month = 4 || month = 6 || month = 9 || month = 11 then 30 else 31

/-- Whether a text is an offset from universal time. -/
def isOffset : List Char → Bool
  | [] | ['Z'] | ['z'] => true
  | [sign, a, b, ':', c, d] =>
    (sign = '+' || sign = '-') && twoDigits? 0 23 a b && twoDigits? 0 59 c d
  | _ => false

/-- Whether a text is a time, and an offset if there may be one. -/
def isTime (offset : Bool) : List Char → Bool
  | a :: b :: ':' :: c :: d :: ':' :: e :: f :: rest =>
    let rest? := match rest with
      | '.' :: rest =>
        let digits := rest.takeWhile Numeral.isDigit
        if digits.isEmpty then none else some (rest.drop digits.length)
      | rest => some rest
    twoDigits? 0 23 a b && twoDigits? 0 59 c d && twoDigits? 0 60 e f
      && rest?.any fun rest => if offset then isOffset rest else rest.isEmpty
  | _ => false

/-- What follows a date at the front of a text. -/
def afterDate? : List Char → Option (List Char)
  | y :: e :: a :: r :: '-' :: m :: n :: '-' :: d :: f :: rest =>
    let days := daysOf (Numeral.ofDigits [y, e, a, r]) (Numeral.ofDigits [m, n])
    if [y, e, a, r].all Numeral.isDigit && twoDigits? 1 12 m n && twoDigits? 1 days d f then
      some rest
    else none
  | _ => none

/-- Whether a bare value is a date, a time, or a date and a time. -/
def isMoment (cs : List Char) : Bool :=
  isTime false cs ||
    match afterDate? cs with
    | some [] => true
    | some (c :: time) => (c = 'T' || c = 't' || c = ' ') && isTime true time
    | none => false

/-! ## Bare values -/

/-- What a bare value stands for. -/
def readBare? (cs : List Char) : Option Value :=
  if cs = "true".toList then some (.boolean true)
  else if cs = "false".toList then some (.boolean false)
  else if isMoment cs then some .moment
  else match readInteger? cs with
    | some v => some v
    | none => readFloat? cs

end StackSynth.Toml
