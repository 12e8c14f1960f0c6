import Mathlib.Algebra.Order.Floor.Defs
import Mathlib.Algebra.Order.Field.Basic
import StackSynth.Number.Quantity

/-!
# Exact arithmetic

The modules are written for any arithmetic. With the numbers of an ordered field no operation
rounds and every number is finite, so that what is proved about a module there is what the module
does apart from rounding. The rational numbers are such a field, and one in which runs can be
computed.

The instance is scoped: it is there where `StackSynth.Exact` is open.
-/

namespace StackSynth

variable {α : Type} [Field α] [LinearOrder α] [FloorSemiring α]

namespace Exact

scoped instance : Quantity α where
  ofNat n := n
  lt a b := a < b
  eq a b := a = b
  isFinite _ := true
  toNat a := ⌊a⌋₊

end Exact

namespace Quantity

open Exact

variable {a b : α}

@[simp] theorem zero_eq : (zero : α) = 0 := Nat.cast_zero

@[simp] theorem one_eq : (one : α) = 1 := Nat.cast_one

theorem decimal_eq (n places : Nat) : (decimal n places : α) = n / 10 ^ places := by
  have hpower : ((tenTo places : Nat) : α) = 10 ^ places := Nat.cast_pow 10 places
  rw [← hpower]
  rfl

@[simp] theorem isFinite_eq : isFinite a = true := rfl

@[simp] theorem lt_iff : lt a b = true ↔ a < b := decide_eq_true_iff

@[simp] theorem eq_iff : eq a b = true ↔ a = b := decide_eq_true_iff

@[simp] theorem le_iff : le a b = true ↔ a ≤ b := by
  rw [le, Bool.or_eq_true, lt_iff, eq_iff, le_iff_lt_or_eq]

end Quantity

end StackSynth
