import Mathlib.Data.Int.ModEq
import Mathlib.Data.List.Induction
import StackSynth.Proofs.Number.Exact
import StackSynth.Synth.Pattern

/-!
# Steps of a pattern

A pattern as a function of the step. What is written by a number goes to the place that its integer
part has in the ring, and what is read on a step is the entry at the step modulo the length. Both
agree on the integers of 64 bits: a step reads what was written last by a number that is congruent
to it, whatever the sign of that number (`Pattern.get_written`).

Every other number names some place as well: a fraction is dropped downwards, a number beyond the
range counts as the end of the range that is nearest to it, and what is no number counts as zero.
-/

namespace StackSynth

open Double

/-- A number that is an integer of 64 bits with a sign. -/
def IsInt64 (x : Float) : Prop := ∃ n : ℤ, HasValue x n ∧ -2 ^ 63 ≤ n ∧ n < 2 ^ 63

theorem ringPlace_lt {size : Nat} (hpos : 0 < size) (index : Float) :
    ringPlace size index < size := by
  have hnonneg := Int.emod_nonneg (toInt64 (floor index)) (b := size) (by omega)
  have hlt := Int.emod_lt_of_pos (toInt64 (floor index)) (b := size) (by omega)
  rw [ringPlace]
  omega

/-- The integer of 64 bits that is nearest to an integer. -/
def nearestInt64 (n : ℤ) : ℤ := max (-2 ^ 63) (min (2 ^ 63 - 1) n)

theorem nearestInt64_eq {n : ℤ} (hlo : -2 ^ 63 ≤ n) (hhi : n < 2 ^ 63) : nearestInt64 n = n := by
  rw [nearestInt64, min_eq_right (by omega), max_eq_right hlo]

/-- A whole number has the place of the nearest integer of 64 bits. -/
theorem ringPlace_intCast {size : Nat} (hpos : 0 < size) {index : Float} {n : ℤ}
    (h : HasValue index n) : (ringPlace size index : ℤ) = nearestInt64 n % size := by
  rw [ringPlace, h.floor_intCast, h.toInt64_intCast]
  exact Int.toNat_of_nonneg (Int.emod_nonneg _ (by omega))

/-- An integer of 64 bits has the place of the steps that are congruent to it. -/
theorem eq_ringPlace_iff {size : Nat} (hpos : 0 < size) {index : Float} (h : IsInt64 index)
    (step : Nat) : step % size = ringPlace size index ↔ ⌊value index⌋ ≡ step [ZMOD size] := by
  obtain ⟨n, hn, hlo, hhi⟩ := h
  have hplace := ringPlace_intCast hpos hn
  rw [nearestInt64_eq hlo hhi] at hplace
  rw [hn.eq, Int.floor_intCast, Int.ModEq, ← hplace]
  norm_cast
  exact eq_comm

namespace Pattern

variable {α : Type}

@[simp] theorem size_new (length : Nat) (entry : α) :
    (new length entry).entries.size = max length 1 := Array.size_replicate

@[simp] theorem size_set (p : Pattern α) (index : Float) (x : α) :
    (p.set index x).entries.size = p.entries.size := Array.size_setIfInBounds

theorem get_new (length : Nat) (entry : α) (k : Nat) : (new length entry).get k = entry :=
  Array.getElem_replicate ..

/-- What is written is read at its place, and nowhere else. -/
theorem get_set (p : Pattern α) (index : Float) (x : α) (k : Nat) :
    (p.set index x).get k
      = if k % p.entries.size = ringPlace p.entries.size index then x else p.get k := by
  obtain ⟨entries, hpos⟩ := p
  have hplace : k % entries.size < entries.size := Nat.mod_lt k hpos
  simp only [set, get, Array.size_setIfInBounds]
  exact (Array.getElem_setIfInBounds hplace).trans (if_congr eq_comm rfl rfl)

/-- A pattern of `length` entries that are off, after the writes. -/
def written (length : Nat) (off : α) (writes : List (Float × α)) : Pattern α :=
  writes.foldl (fun p write ↦ p.set write.1 write.2) (new length off)

/-- What was written last by a number that is congruent to the step. -/
def latest (length : Nat) (writes : List (Float × α)) (step : Nat) : Option α :=
  (writes.reverse.find? fun write ↦ ⌊value write.1⌋ % length == step % (length : ℤ)).map Prod.snd

variable {length : Nat} {off : α} {writes : List (Float × α)}

theorem written_concat (write : Float × α) : written length off (writes ++ [write])
    = (written length off writes).set write.1 write.2 := List.foldl_concat ..

theorem latest_concat (write : Float × α) (step : Nat) : latest length (writes ++ [write]) step
    = if ⌊value write.1⌋ ≡ step [ZMOD length] then some write.2 else latest length writes step := by
  rw [latest, List.reverse_append, List.reverse_singleton, List.singleton_append, List.find?_cons]
  split <;> simp_all [latest, Int.ModEq]

theorem size_written : (written length off writes).entries.size = max length 1 := by
  induction writes using List.reverseRecOn with
  | nil => exact size_new length off
  | append_singleton writes write ih => rw [written_concat, size_set, ih]

/-- **A pattern is a function of the step.** Write to a pattern by integers of 64 bits, in any order
and as often as you like: a step reads what was written last by an integer that is congruent to it
modulo the length, and is off if there is none. Any number at all, infinities and what is no number
included, names one place of the ring. What is written by it is read on the steps of that place, and
all other steps read what they did before. -/
theorem get_written (length : Nat) (off : α) (writes : List (Float × α)) :
    ((∀ write ∈ writes, IsInt64 write.1) → ∀ step, (written length off writes).get step
      = (latest (max length 1) writes step).getD off) ∧
    ∀ (index : Float) (x : α), ringPlace (max length 1) index < max length 1 ∧
      ∀ step, ((written length off writes).set index x).get step
        = if step % max length 1 = ringPlace (max length 1) index then x
          else (written length off writes).get step := by
  have hpos : 0 < max length 1 := by omega
  refine ⟨fun hwrites step ↦ ?_, fun index x ↦ ⟨ringPlace_lt hpos index, fun step ↦ ?_⟩⟩
  · induction writes using List.reverseRecOn with
    | nil => exact get_new length off step
    | append_singleton writes write ih =>
      have hwrite := hwrites write (List.mem_append_right _ (List.mem_singleton.mpr rfl))
      specialize ih fun w hw ↦ hwrites w (List.mem_append_left _ hw)
      rw [written_concat, get_set, latest_concat, size_written, ih]
      simp only [eq_ringPlace_iff hpos hwrite]
      split <;> rfl
  · rw [get_set, size_written]

/-- Gates of four steps. Minus one names the last of them, and minus three the one that five names,
which it turns off again. A pattern of no length has one value, which every number names. -/
theorem get_written_overwritten :
    let gates := [((-1 : Float), true), (5, true), (-3, false)]
    let values := [((3 : Float), (9 : Float))]
    (∀ write ∈ gates, IsInt64 write.1) ∧ (∀ write ∈ values, IsInt64 write.1) ∧
    (written 4 false gates).get 7 = true ∧ (written 4 false gates).get 9 = false ∧
    (written 0 0 values).get 42 = 9 ∧ ringPlace 1 (0 / 0) = 0 := by
  intro gates values
  have hgates : ∀ write ∈ gates, IsInt64 write.1 := by
    have hone : IsInt64 (-1) := ⟨-1, ⟨rfl, by decide +kernel⟩, by decide, by decide⟩
    have hfive : IsInt64 5 := ⟨5, ⟨rfl, by decide +kernel⟩, by decide, by decide⟩
    have hthree : IsInt64 (-3) := ⟨-3, ⟨rfl, by decide +kernel⟩, by decide, by decide⟩
    simp [gates, hone, hfive, hthree]
  have hvalues : ∀ write ∈ values, IsInt64 write.1 := by
    have hthree : IsInt64 3 := ⟨3, ⟨rfl, by decide +kernel⟩, by decide, by decide⟩
    simp [values, hthree]
  have hwritten := (get_written 4 false gates).1 hgates
  have hplace := ((get_written 0 0 values).2 (0 / 0) 0).1
  rw [hwritten, hwritten, (get_written 0 0 values).1 hvalues]
  exact ⟨hgates, hvalues, by decide +kernel, by decide +kernel, by decide +kernel,
    Nat.lt_one_iff.mp hplace⟩

end Pattern

end StackSynth
