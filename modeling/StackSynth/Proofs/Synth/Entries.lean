import StackSynth.Proofs.Synth.Patterns
import StackSynth.Proofs.Synth.Tables

/-!
# Entries of a table

A table is written at the place of an integer of 64 bits and read at the remainder of a number. At a
whole number nothing is blended in, so that an entry is read alone (`Table.read_intCast`), and
writing and reading agree on which entry that is as long as the number fits into 64 bits.

Beyond that they may not agree. For writing a number counts as the end of the range that is nearest
to it, and reading takes its own remainder, which can be another place (`Table.read_set`).
-/

namespace StackSynth.Table

open Double

variable {t : Table} {x y v : Float} {n k : ℤ}

/-- At a whole number an entry is read, and the following one counts for nothing. -/
theorem read_intCast (hsize : t.pattern.entries.size ≤ 2 ^ 53) (hy : HasValue y k) :
    ∃ place : Nat, (place : ℤ) = k % t.pattern.entries.size ∧
      place < t.pattern.entries.size ∧ t.read y = t.pattern.get place
        + (t.pattern.get (place + 1) - t.pattern.get place) * 0 := by
  have hpos := t.pattern.size_pos
  have hnonneg := Int.emod_nonneg k (b := t.pattern.entries.size) (by omega)
  have hlt := Int.emod_lt_of_pos k (b := t.pattern.entries.size) (by omega)
  obtain ⟨place, hplace⟩ := Int.eq_ofNat_of_zero_le hnonneg
  have hwrapped : HasValue (t.wrap y) place := by
    have hwrapped := hy.euclid_intCast (t.hasValue_size hsize) hpos hsize
    rwa [hplace, Int.cast_natCast] at hwrapped
  refine ⟨place, hplace.symm, by omega, ?_⟩
  rw [t.read_eq hy.finite, t.blend_whole hwrapped (by omega) hwrapped.sub_same,
    Nat.min_eq_left (by omega)]

/-- Every entry of a table of zeros that was written to once is the number written or zero. -/
theorem hasValue_get_set (hzero : ∀ place, (t.pattern.get place == 0) = true)
    (hv : v.isFinite = true) (place : Nat) : HasValue ((t.set x v).pattern.get place)
      (if place % t.pattern.entries.size = ringPlace t.pattern.entries.size x then value v
        else 0) := by
  change HasValue ((t.pattern.set x v).get place) _
  rw [Pattern.get_set]
  split
  next => exact hasValue_value hv
  next => exact hasValue_of_beq_zero (hzero place)

theorem hasValue_read_set (hmemory : 8 * t.pattern.entries.size ≤ 2 ^ 56)
    (hzero : ∀ place, (t.pattern.get place == 0) = true) (hx : HasValue x n)
    (hv : v.isFinite = true) (hy : HasValue y k) : HasValue ((t.set x v).read y)
      (if k ≡ nearestInt64 n [ZMOD t.pattern.entries.size] then value v else 0) := by
  have hpos := t.pattern.size_pos
  have hsize : (t.set x v).pattern.entries.size = t.pattern.entries.size := t.pattern.size_set x v
  obtain ⟨place, hplace, hlt, hread⟩ := read_intCast (t := t.set x v) (by omega) hy
  rw [hsize] at hplace hlt
  have hentry := hasValue_get_set (x := x) hzero hv place
  have hnext := hasValue_get_set (x := x) hzero hv (place + 1)
  have hcongruent : place % t.pattern.entries.size = ringPlace t.pattern.entries.size x
      ↔ k ≡ nearestInt64 n [ZMOD t.pattern.entries.size] := by
    rw [Nat.mod_eq_of_lt hlt, Int.ModEq, ← hplace, ← ringPlace_intCast hpos hx, Nat.cast_inj]
  rw [if_congr hcongruent rfl rfl] at hentry
  rw [hread]
  exact hentry.add_mul_zero (hnext.sub hentry ((hasValue_value hv).representable.ite_sub_ite _ _))

/-- **What is written at a number is read at it, within 64 bits.** Take any table of zeros that fits
into memory, where an entry takes eight bytes and no process has more than `2 ^ 56` addresses, and
write any finite number to it at any whole number `n`. At every whole number the table reads as what
was written if that number is congruent, modulo the size, to the integer of 64 bits that is nearest
to `n`, and as zero otherwise. So it reads as what was written at `n` itself if and only if that was
zero or `n` is congruent to the nearest integer of 64 bits, which it is within 64 bits. -/
theorem read_set (t : Table) (hmemory : 8 * t.pattern.entries.size ≤ 2 ^ 56)
    (hzero : ∀ place, (t.pattern.get place == 0) = true) (hx : HasValue x n)
    (hv : v.isFinite = true) :
    (∀ (y : Float) (k : ℤ), HasValue y k → ((t.set x v).read y
      == if k ≡ nearestInt64 n [ZMOD t.pattern.entries.size] then v else 0) = true) ∧
    (((t.set x v).read x == v) = true ↔
      (v == 0) = true ∨ n ≡ nearestInt64 n [ZMOD t.pattern.entries.size]) ∧
    (-2 ^ 63 ≤ n → n < 2 ^ 63 → nearestInt64 n = n) := by
  have hvalue := hasValue_value hv
  refine ⟨fun y k hy ↦ ?_, ?_, nearestInt64_eq⟩
  · refine ((hasValue_read_set hmemory hzero hx hv hy).beq_iff ?_).mpr rfl
    split
    next => exact hvalue
    next => exact hasValue_zero
  · rw [(hasValue_read_set hmemory hzero hx hv hx).beq_iff hvalue, hvalue.beq_iff hasValue_zero]
    split
    next h => exact iff_of_true rfl (.inr h)
    next h => exact eq_comm.trans (or_iff_left h).symm

/-- The first integer beyond 64 bits is even, but for writing it counts as the odd one before it. -/
theorem read_set_beyond :
    let x : Float := 9223372036854775808
    isWhole x = true ∧ ((new 2).set x 1).read x = 0 ∧ ((new 2).set x 1).read 1 = 1 := by
  decide +kernel

/-- Minus one and three are the second entry of two. -/
theorem read_set_negative :
    let t := (new 2).set (-1) 7
    8 * (new 2).pattern.entries.size ≤ 2 ^ 56 ∧ HasValue (-1) (-1 : ℤ) ∧
    (t.read (-1) == 7) = true ∧ (t.read 3 == 7) = true ∧ (t.read 0 == 0) = true := by
  intro t
  have hone : HasValue (-1) (-1 : ℤ) := ⟨rfl, by decide +kernel⟩
  have hthree : HasValue 3 (3 : ℤ) := ⟨rfl, by decide +kernel⟩
  have hzero : HasValue 0 (0 : ℤ) := ⟨rfl, by decide +kernel⟩
  obtain ⟨hread, hwritten, hwithin⟩ := (new 2).read_set (by decide +kernel)
    (fun place ↦ by
      change ((Pattern.new 2 (0 : Float)).get place == 0) = true
      rw [Pattern.get_new]
      decide +kernel) hone (v := 7) (by decide +kernel)
  exact ⟨by decide +kernel, hone, hwritten.mpr (.inr (by rw [hwithin (by decide) (by decide)])),
    hread 3 3 hthree, hread 0 0 hzero⟩

end StackSynth.Table
