/-!
# The operand stack

A stack of 64-bit numbers with a depth ceiling. Its invariants are part of its type: the ceiling is
between `1` and `maxLimit`, and there are never more values than the ceiling allows.

An operation takes the stack and gives it back beside its result, so that an operation that fails
says what it left behind: every single operation here leaves the stack as it was.

Words look two values below the top at most. A caller that counts with machine words may look at any
depth, and at one depth the program stops (`Stack.pick?`).
-/

namespace StackSynth

/-- Misuse of the operand stack. -/
inductive StackError where
  /-- Too few values. -/
  | underflow
  /-- One value too many for the ceiling `limit`. -/
  | overflow (limit : Nat)
  deriving DecidableEq, Repr

/-- The text of a stack error. -/
def StackError.message : StackError → String
  | .underflow => "stack underflow"
  | .overflow limit => s!"stack overflow (limit {limit})"

/-- The largest depth ceiling, two to the twentieth; larger requests are lowered to it. -/
def Stack.maxLimit : Nat := 1048576

/-- A stack of numbers with a depth ceiling. -/
structure Stack where
  /-- The values from bottom to top. -/
  values : Array Float
  /-- The depth ceiling. -/
  limit : Nat
  limit_pos : 0 < limit
  limit_le : limit ≤ Stack.maxLimit
  size_le : values.size ≤ limit

namespace Stack

/-- The depth ceiling of a stack for which none is asked. -/
def defaultLimit : Nat := 1024

/-- An empty stack whose ceiling is as near to `limit` as a ceiling may be. -/
def withLimit (limit : Nat) : Stack where
  values := #[]
  limit := max 1 (min limit maxLimit)
  limit_pos := by omega
  limit_le := by unfold maxLimit; omega
  size_le := by simp

/-- An empty stack with the default ceiling. -/
def empty : Stack := withLimit defaultLimit

instance : Inhabited Stack := ⟨empty⟩

/-- Number of values. -/
def size (s : Stack) : Nat := s.values.size

/-- The values from bottom to top. -/
def toList (s : Stack) : List Float := s.values.toList

/-- The stack without its values. -/
def clear (s : Stack) : Stack :=
  { s with values := #[], size_le := by simp }

/-- The value `depth` places below the top, for a depth that is a machine word; nothing if the
program stops. The place is `depth + 1` before the end, and that sum is a machine word too: at the
largest depth it wraps around to zero, which names the place behind the last value. Where sums are
checked the program stops as well, one step earlier. -/
def pick? (s : Stack) (depth : UInt64) : Option (Except StackError Float) :=
  let back := (depth + 1).toNat
  if back ≤ s.size then s.values[s.size - back]?.map .ok else some (.error .underflow)

end Stack

/-- An operation on a stack: a result or an error, and the stack afterwards. -/
abbrev StackM := ExceptT StackError (StateM Stack)

namespace StackM

/-- Adds a value on top. -/
def push (x : Float) : StackM Unit := fun s =>
  if h : s.values.size < s.limit then
    (.ok (), { s with values := s.values.push x, size_le := by rw [Array.size_push]; exact h })
  else (.error (.overflow s.limit), s)

/-- Removes the value on top. -/
def pop : StackM Float := fun s =>
  if h : 0 < s.values.size then
    let x := s.values[s.values.size - 1]
    (.ok x, { s with
      values := s.values.pop
      size_le := by have := s.size_le; simp only [Array.size_pop]; omega })
  else (.error .underflow, s)

/-- Removes the two values on top; the one that was pushed first comes first. -/
def pop2 : StackM (Float × Float) := fun s =>
  if h : 2 ≤ s.values.size then
    let a := s.values[s.values.size - 2]
    let b := s.values[s.values.size - 1]
    (.ok (a, b), { s with
      values := s.values.pop.pop
      size_le := by have := s.size_le; simp only [Array.size_pop]; omega })
  else (.error .underflow, s)

/-- The value `depth` places below the top. -/
def pick (depth : Nat) : StackM Float := fun s =>
  if h : depth < s.values.size then
    (.ok s.values[s.values.size - 1 - depth], s)
  else (.error .underflow, s)

/-- The value on top. -/
def peek : StackM Float := pick 0

/-- Number of values. -/
def size : StackM Nat := fun s => (.ok s.size, s)

/-- Removes every value. -/
def clear : StackM Unit := fun s => (.ok (), s.clear)

end StackM

end StackSynth
