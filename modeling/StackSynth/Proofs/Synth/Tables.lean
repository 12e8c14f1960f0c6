import StackSynth.Proofs.Number.Remainder
import StackSynth.Synth.Table

/-!
# Where a table closes

A table is read at the remainder of the position by its size, and the remainder of a remainder is
the remainder again. So wrapping a position before it is read changes nothing, but for one case:
below zero, and so near to it that the sum of remainder and size is rounded to the size
(`HasValue.euclid`). The size is not its own remainder.

A position that is wrapped to the size is read from the last entry, at which the place stops. It is
read without any fraction, so that the last entry is not blended into the first one. Wrapped once
more it is the first place (`Table.read_wrapped`).
-/

namespace StackSynth

theorem Pattern.get_size {α : Type} (p : Pattern α) : p.get p.entries.size = p.get 0 := by
  simp only [get, Nat.mod_self, Nat.zero_mod]

namespace Table

open Double

/-- A position wrapped into a table. -/
def wrap (t : Table) (position : Float) : Float :=
  euclid position (.ofNat t.pattern.entries.size)

/-- The value at a position that has been wrapped. -/
def blend (t : Table) (wrapped : Float) : Float :=
  let place := min (toNat (floor wrapped)) (t.pattern.entries.size - 1)
  t.pattern.get place
    + (t.pattern.get (place + 1) - t.pattern.get place) * (wrapped - floor wrapped)

variable (t : Table)

theorem read_eq {x : Float} (h : x.isFinite = true) : t.read x = t.blend (t.wrap x) := by
  rw [read, h]
  rfl

section

variable {x : Float} {a : ℚ} (hsize : t.pattern.entries.size ≤ 2 ^ 53) (hx : HasValue x a)

include hsize

theorem hasValue_size : HasValue (.ofNat t.pattern.entries.size) t.pattern.entries.size :=
  hasValue_ofNat hsize

include hx

/-- A position is wrapped to somewhere between zero and the size, and only from below zero to the
size itself. -/
theorem hasValue_wrap : ∃ r, HasValue (t.wrap x) r ∧ 0 ≤ r ∧ r ≤ t.pattern.entries.size ∧
    (0 ≤ a → r < t.pattern.entries.size) :=
  hx.euclid (t.hasValue_size hsize) (by exact_mod_cast t.pattern.size_pos)

/-- What has been wrapped to somewhere before the size stays there. -/
theorem wrap_wrap (hne : t.wrap x ≠ .ofNat t.pattern.entries.size) :
    t.wrap (t.wrap x) = t.wrap x := by
  obtain ⟨r, hr, hnonneg, hle, -⟩ := t.hasValue_wrap hsize hx
  refine hr.euclid_eq (t.hasValue_size hsize) hnonneg (lt_of_le_of_ne hle ?_)
  rintro rfl
  exact hne (hr.inj (t.hasValue_size hsize) (by exact_mod_cast t.pattern.size_pos.ne'))

end

/-- At a whole number the neighbour counts for nothing, but for a product by zero. -/
theorem blend_whole {w : Float} {k : Nat} (hw : HasValue w k) (hk : k ≤ 2 ^ 53)
    (hrest : w - w = 0) : t.blend w = t.pattern.get (min k (t.pattern.entries.size - 1))
      + (t.pattern.get (min k (t.pattern.entries.size - 1) + 1)
        - t.pattern.get (min k (t.pattern.entries.size - 1))) * 0 := by
  rw [blend, hw.floor_natCast, toNat_of_hasValue hw hk, hrest]

theorem blend_zero : t.blend 0
    = t.pattern.get 0 + (t.pattern.get 1 - t.pattern.get 0) * 0 := by
  have hzero := t.blend_whole (k := 0) (by exact_mod_cast hasValue_zero) (by decide) rfl
  rwa [Nat.zero_min] at hzero

/-- The place stops at the last entry, and the entry after it is the first one. -/
theorem blend_size (hsize : t.pattern.entries.size ≤ 2 ^ 53) :
    t.blend (.ofNat t.pattern.entries.size) = t.pattern.get (t.pattern.entries.size - 1)
      + (t.pattern.get 0 - t.pattern.get (t.pattern.entries.size - 1)) * 0 := by
  have hpos := t.pattern.size_pos
  have hvalue := t.hasValue_size hsize
  rw [t.blend_whole hvalue hsize hvalue.sub_same,
    Nat.min_eq_right (Nat.sub_le _ _), Nat.sub_add_cancel hpos, Pattern.get_size]

/-- **Wrapping a position first changes what is read only at the seam.** Take any table that fits
into memory, where an entry takes eight bytes and no process has more than `2 ^ 56` addresses, and
any finite position. Unless it is wrapped to the size of the table, it reads as what it is wrapped
to. If it is, which happens below zero only, it reads as the last entry, although the size itself
reads as the first one. -/
theorem read_wrapped (hmemory : 8 * t.pattern.entries.size ≤ 2 ^ 56) {x : Float}
    (hx : x.isFinite = true) :
    (t.wrap x ≠ .ofNat t.pattern.entries.size → t.read x = t.read (t.wrap x)) ∧
    (t.wrap x = .ofNat t.pattern.entries.size → x < 0 ∧
      t.read x = t.pattern.get (t.pattern.entries.size - 1)
        + (t.pattern.get 0 - t.pattern.get (t.pattern.entries.size - 1)) * 0 ∧
      t.read (t.wrap x) = t.pattern.get 0 + (t.pattern.get 1 - t.pattern.get 0) * 0) := by
  have hsize : t.pattern.entries.size ≤ 2 ^ 53 := by omega
  have hpos : (0 : ℚ) < t.pattern.entries.size := by exact_mod_cast t.pattern.size_pos
  have hvalue := hasValue_value hx
  have hlast := t.hasValue_size hsize
  obtain ⟨r, hr, -, -, hlt⟩ := t.hasValue_wrap hsize hvalue
  constructor
  · intro hne
    rw [t.read_eq hx, t.read_eq hr.finite, t.wrap_wrap hsize hvalue hne]
  · intro heq
    rw [t.read_eq hx, t.read_eq hr.finite, heq]
    refine ⟨?_, t.blend_size hsize, ?_⟩
    · rw [hvalue.lt_iff hasValue_zero]
      by_contra hnonneg
      rw [heq] at hr
      exact (hlt (not_lt.mp hnonneg)).ne (hr.eq.symm.trans hlast.eq)
    · rw [wrap, hlast.euclid_self hpos, blend_zero]

/-- A table of the entries one and two. -/
def oneTwo : Table := ((new 2).set 0 1).set 1 2

/-- The greatest number below zero is wrapped to the size and reads as the last entry, where the
size reads as the first one. -/
theorem read_below_zero : (-5e-324 : Float).isFinite = true ∧ oneTwo.wrap (-5e-324) = 2 ∧
    oneTwo.read (-5e-324) = 2 ∧ oneTwo.read 2 = 1 := by
  decide +kernel

/-- Half a place before the first entry is half a place after the last one. -/
theorem read_wrapped_half : 8 * oneTwo.pattern.entries.size ≤ 2 ^ 56 ∧
    (-0.5 : Float).isFinite = true ∧ oneTwo.read (-0.5) = oneTwo.read 1.5 ∧
    oneTwo.read (-5e-324) = 2 + (1 - 2) * 0 := by
  have hmemory : 8 * oneTwo.pattern.entries.size ≤ 2 ^ 56 := by decide +kernel
  have hwrap : oneTwo.wrap (-0.5) = 1.5 := by decide +kernel
  have hhalf : oneTwo.read (-0.5) = oneTwo.read (oneTwo.wrap (-0.5)) :=
    (oneTwo.read_wrapped hmemory (by decide +kernel)).1 (by decide +kernel)
  obtain ⟨-, hseam, -⟩ :=
    (oneTwo.read_wrapped hmemory (x := -5e-324) (by decide +kernel)).2 (by decide +kernel)
  rw [hwrap] at hhalf
  rw [hseam]
  exact ⟨hmemory, by decide +kernel, hhalf, by decide +kernel⟩

end Table

end StackSynth
