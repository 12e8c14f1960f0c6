/-!
# Bounded queues

A queue between a sender that never waits and a receiver that takes what is there. What does not fit
is refused and the queue stays as it was; what is accepted is delivered once and in order.
-/

namespace StackSynth

/-- A first-in first-out queue of at most `capacity` items. -/
structure BoundedQueue (α : Type) where
  /-- The most items that wait. -/
  capacity : Nat
  /-- The items that wait, the oldest first. -/
  waiting : Array α
  size_le : waiting.size ≤ capacity

namespace BoundedQueue

variable {α : Type}

/-- An empty queue. -/
def withCapacity (capacity : Nat) : BoundedQueue α := ⟨capacity, #[], by simp⟩

instance : Inhabited (BoundedQueue α) := ⟨withCapacity 0⟩

/-- Number of items that wait. -/
def size (q : BoundedQueue α) : Nat := q.waiting.size

/-- Adds an item behind all others if there is room, and says whether there was. -/
def send (q : BoundedQueue α) (a : α) : Bool × BoundedQueue α :=
  if h : q.waiting.size < q.capacity then
    (true, { q with waiting := q.waiting.push a, size_le := by rw [Array.size_push]; exact h })
  else (false, q)

/-- Takes the oldest item. -/
def receive (q : BoundedQueue α) : Option α × BoundedQueue α :=
  (q.waiting[0]?, { q with
    waiting := q.waiting.extract 1
    size_le := by have := q.size_le; simp only [Array.size_extract]; omega })

/-- Takes all items, the oldest first. -/
def drain (q : BoundedQueue α) : Array α × BoundedQueue α :=
  (q.waiting, { q with waiting := #[], size_le := by simp })

end BoundedQueue

end StackSynth
