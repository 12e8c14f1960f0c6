import StackSynth.Language.Dictionary

/-!
# Built-in words

The words every dictionary starts with.

| Group | Words |
|---|---|
| arithmetic | `+ - * / mod neg abs min max floor` |
| transcendental | `sin cos tanh exp pow sqrt` |
| comparison | `< > = <= >=`, giving one or zero |
| logic | `and or not`, where every number but zero is true |
| selection | `?`, the second of three values if the first is true, else the third |
| stack | `dup drop swap over rot nip tuck clear depth` |
| constants | `pi tau` |
| transport | `playing?` |
| output | `>out1 >out2` |

Division by zero and the remainder of a division by zero are `0`. The remainder is never negative.
-/

namespace StackSynth.Builtin

open Native

variable {σ : Type}

/-! ## Functions of numbers -/

/-- The quotient, or `0` if the divisor is zero. -/
def quotient (a b : Float) : Float := if b == 0 then 0 else a / b

/-- The remainder that is not negative, or `0` if the divisor is zero. -/
def modulo (a b : Float) : Float := if b == 0 then 0 else Double.euclid a b

/-- Whether a number counts as true. -/
def isTrue (a : Float) : Bool := a != 0

/-- Words that replace the value on top by a function of it. -/
def unaryWords : List (String × (Float → Float)) :=
  [("neg", fun a => -a),
   ("abs", Float.abs),
   ("floor", Double.floor),
   ("sin", Float.sin),
   ("cos", Float.cos),
   ("tanh", Float.tanh),
   ("exp", Float.exp),
   ("sqrt", Float.sqrt),
   ("not", fun a => Double.ofBool (a == 0))]

/-- Words that replace the two values on top by a function of them, the earlier value first. -/
def binaryWords : List (String × (Float → Float → Float)) :=
  [("+", (· + ·)),
   ("-", (· - ·)),
   ("*", (· * ·)),
   ("/", quotient),
   ("mod", modulo),
   ("min", Double.least),
   ("max", Double.greatest),
   ("pow", Float.pow),
   ("<", fun a b => Double.ofBool (a < b)),
   (">", fun a b => Double.ofBool (b < a)),
   ("=", fun a b => Double.ofBool (a == b)),
   ("<=", fun a b => Double.ofBool (a ≤ b)),
   (">=", fun a b => Double.ofBool (b ≤ a)),
   ("and", fun a b => Double.ofBool (isTrue a && isTrue b)),
   ("or", fun a b => Double.ofBool (isTrue a || isTrue b))]

/-! ## Words on the stack -/

/-- `c a b -- x`, where `x` is `a` if `c` is true and `b` if not. With fewer than three values
nothing is removed. -/
def select : NativeM σ Unit := do
  let _ ← onStack (StackM.pick 2)
  let (a, b) ← pop2
  let c ← pop
  push (if isTrue c then a else b)

/-- `a -- a a`. -/
def dup : NativeM σ Unit := do
  let a ← onStack StackM.peek
  push a

/-- `a --`. -/
def drop : NativeM σ Unit := do
  let _ ← pop

/-- `a b -- b a`. -/
def swap : NativeM σ Unit := do
  let (a, b) ← pop2
  push b
  push a

/-- `a b -- a b a`. -/
def copySecond : NativeM σ Unit := do
  let a ← onStack (StackM.pick 1)
  push a

/-- `a b c -- b c a`. -/
def rot : NativeM σ Unit := do
  let a ← onStack (StackM.pick 2)
  let (b, c) ← pop2
  let _ ← pop
  push b
  push c
  push a

/-- `a b -- b`. -/
def nip : NativeM σ Unit := do
  let (_, b) ← pop2
  push b

/-- `a b -- b a b`. -/
def tuck : NativeM σ Unit := do
  let (a, b) ← pop2
  push b
  push a
  push b

/-- Removes every value. -/
def clear : NativeM σ Unit := onStack StackM.clear

/-- Pushes the number of values. -/
def depth : NativeM σ Unit := do
  let n ← onStack StackM.size
  push (.ofNat n)

/-- Words that move values about on the stack. -/
def stackWords : List (String × Native σ) :=
  [("?", select), ("dup", dup), ("drop", drop), ("swap", swap), ("over", copySecond), ("rot", rot),
   ("nip", nip), ("tuck", tuck), ("clear", clear), ("depth", depth)]

/-! ## Words on the transport and the outputs -/

/-- Pushes one if the transport runs and zero if not. -/
def playing : NativeM σ Unit := do
  let p ← onRig fun p => (p.playing, p)
  push (Double.ofBool p)

/-- Moves the value on top into the left output register. -/
def outLeft : NativeM σ Unit := do
  let x ← pop
  onRig fun p => ((), { p with left := .ofDouble x })

/-- Moves the value on top into the right output register. -/
def outRight : NativeM σ Unit := do
  let x ← pop
  onRig fun p => ((), { p with right := .ofDouble x })

/-- Words that read the transport and write the output registers. -/
def rigWords : List (String × Native σ) :=
  [("playing?", playing), (">out1", outLeft), (">out2", outRight)]

/-! ## Constants -/

/-- The number nearest to half the circumference of the unit circle. -/
def pi : Float := 3.14159265358979323846264338327950288

/-- The number nearest to the circumference of the unit circle. -/
def tau : Float := 6.28318530717958647692528676655900577

/-- All built-in words. -/
def entries : List (String × Operation σ) :=
  unaryWords.map (fun (name, f) => (name, .native (unary f)))
    ++ binaryWords.map (fun (name, f) => (name, .native (binary f)))
    ++ (stackWords ++ rigWords).map (fun (name, act) => (name, .native act))
    ++ [("pi", .constant pi), ("tau", .constant tau)]

/-- The dictionary of the built-in words. -/
def dictionary : Dictionary σ := Dictionary.empty.defineAll entries

end StackSynth.Builtin
