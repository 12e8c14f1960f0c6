import Std.Data.HashMap
import StackSynth.Language.Instruction

/-!
# The dictionary

One namespace holds natives, words and constants; the latest entry under a name is the one that
counts. The dictionary also hands out labels for the words that programs define: `fresh` is the
first label it has not handed out.

Listings are sorted by the bytes of the names, so they do not depend on the order of registration.
-/

namespace StackSynth

/-- What names stand for. -/
structure Dictionary (σ : Type) where
  /-- The entries. -/
  entries : Std.HashMap String (Operation σ) := ∅
  /-- The next label of a word. -/
  fresh : Nat := 0

namespace Dictionary

variable {σ : Type}

/-- The dictionary without entries. -/
def empty : Dictionary σ := {}

/-- What a name stands for. -/
def lookup (d : Dictionary σ) (name : String) : Option (Operation σ) := d.entries[name]?

/-- Whether a name stands for something. -/
def contains (d : Dictionary σ) (name : String) : Bool := d.entries.contains name

/-- Number of entries. -/
def size (d : Dictionary σ) : Nat := d.entries.size

/-- Lets a name stand for an operation. -/
def define (d : Dictionary σ) (name : String) (op : Operation σ) : Dictionary σ :=
  { d with entries := d.entries.insert name op }

/-- Lets names stand for operations, one after another. -/
def defineAll (d : Dictionary σ) (entries : List (String × Operation σ)) : Dictionary σ :=
  entries.foldl (fun d (name, op) => d.define name op) d

/-- Whether the bytes of one name come before those of another, or are the same. -/
def nameLe (a b : String) : Bool := !decide (b < a)

/-- All names with the kinds of their operations, sorted by name. -/
def listing (d : Dictionary σ) : List (String × OperationKind) :=
  (d.entries.toList.map fun (name, op) => (name, op.kind)).mergeSort fun a b => nameLe a.1 b.1

/-- All names, sorted. -/
def names (d : Dictionary σ) : List String := d.listing.map Prod.fst

end Dictionary

end StackSynth
