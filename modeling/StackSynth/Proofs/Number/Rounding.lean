import Mathlib.Algebra.Order.Field.Power
import Mathlib.Data.Rat.Cast.Order
import Mathlib.Tactic.FieldSimp
import Mathlib.Tactic.Linarith
import Mathlib.Tactic.Ring
import Mathlib.Tactic.NormNum
import StackSynth.Proofs.Number.Float

/-!
# What rounds to a number

A finite number above zero is `m · 2 ^ q` with a significand and an exponent that are determined
by it (`Canonical`). The exact numbers that are nearest to it form an interval, measured here in
quarters of a step because the steps below a power of two are half as wide (`lowest`, `Rounds`).

Rounding meets this specification: whatever lies in the interval is given the pattern of the number
(`encode_eq_pattern`). A ratio is cut before it is rounded, and the bit behind the cut keeps it on
the same side of every quarter step (`cut_le_iff`), so it makes no difference
(`encodeRatio_eq_pattern`).
-/

namespace StackSynth

namespace BinaryFormat

theorem twoTo_eq (n : Nat) : twoTo n = 2 ^ n := rfl

/-- What is nearest to a shifted number, and even if two are, is what it rounds to. -/
theorem roundShift_eq {m n shift : Nat} (hlo : 2 * n * 2 ^ shift ≤ 2 * m + 2 ^ shift)
    (hhi : 2 * m ≤ 2 * n * 2 ^ shift + 2 ^ shift)
    (hodd : n % 2 = 1 → 2 * n * 2 ^ shift < 2 * m + 2 ^ shift ∧
      2 * m < 2 * n * 2 ^ shift + 2 ^ shift) : roundShift m shift = n := by
  have hdiv := Nat.div_add_mod m (2 ^ shift)
  have hmod := Nat.mod_lt m (Nat.two_pow_pos shift)
  rw [roundShift, twoTo_eq]
  generalize 2 ^ shift = unit at *
  generalize m / unit = whole at *
  generalize m % unit = rest at *
  subst hdiv
  have hle : whole ≤ n := by
    by_contra hlt
    have hmul := Nat.mul_le_mul_left unit (Nat.not_le.mp hlt)
    linarith
  have hge : n ≤ whole + 1 := by
    by_contra hlt
    have hmul := Nat.mul_le_mul_left unit (Nat.not_le.mp hlt)
    linarith
  rcases Nat.le_add_one_iff.mp hge with hle' | rfl
  · obtain rfl := Nat.le_antisymm hle' hle
    have hrest : 2 * rest ≤ unit := by linarith
    refine if_neg ?_
    rintro (habove | ⟨htie, hwhole⟩)
    · omega
    · have hstrict := (hodd hwhole).2
      linarith
  · have hrest : unit ≤ 2 * rest := by linarith
    refine if_pos ?_
    rcases Nat.lt_or_eq_of_le hrest with habove | htie
    · exact Or.inl habove
    · refine Or.inr ⟨htie, ?_⟩
      by_contra heven
      have hstrict := (hodd (by omega)).1
      linarith

/-! ## Numbers that round to a pattern -/

/-- The significand and the exponent of a finite 64-bit number other than zero. -/
structure Canonical (m : Nat) (q : Int) : Prop where
  pos : 0 < m
  lt : m < 2 ^ 53
  least_le : -1074 ≤ q
  le_most : q ≤ 971
  normal : 2 ^ 52 ≤ m ∨ q = -1074

/-- Where the numbers begin that are nearest to `m · 2 ^ q`, in quarters of a step. Below a power of
two the steps are half as wide. -/
def lowest (m : Nat) (q : Int) : Nat := if m = 2 ^ 52 ∧ -1074 < q then 4 * m - 1 else 4 * m - 2

/-- The numbers that are nearest to `m · 2 ^ q`, with those half-way to the next one if the
significand is even. -/
structure Rounds (m : Nat) (q : Int) (x : ℚ) : Prop where
  lower : lowest m q * (2 : ℚ) ^ (q - 2) ≤ x
  upper : x ≤ (4 * m + 2 : Nat) * (2 : ℚ) ^ (q - 2)
  odd : m % 2 = 1 → lowest m q * (2 : ℚ) ^ (q - 2) < x ∧ x < (4 * m + 2 : Nat) * (2 : ℚ) ^ (q - 2)

/-- Powers of two in quarters of a step. -/
theorem two_zpow_quarters (q : Int) (k : Nat) : (2 : ℚ) ^ (q - 2 + k) = 2 ^ k * 2 ^ (q - 2) := by
  rw [zpow_add₀ two_ne_zero, zpow_natCast, mul_comm]

theorem step_eq_quarters (q : Int) : (2 : ℚ) ^ q = 4 * 2 ^ (q - 2) := by
  conv_lhs => rw [show q = q - 2 + (2 : Nat) by omega, two_zpow_quarters]
  norm_num

theorem value_eq_quarters (m : Nat) (q : Int) :
    (m : ℚ) * 2 ^ q = (4 * m : Nat) * 2 ^ (q - 2) := by
  rw [step_eq_quarters q]
  push_cast
  ring

theorem half_step_eq_quarters (q : Int) : (2 : ℚ) ^ (q - 1) = 2 * 2 ^ (q - 2) := by
  rw [show q - 1 = q - 2 + (1 : Nat) by omega, two_zpow_quarters, pow_one]

/-- Numbers on the same side of every quarter step round alike. -/
theorem Rounds.of_same_side {m : Nat} {q : Int} {x y : ℚ} (h : Rounds m q x)
    (hside : ∀ a : Nat, ((a : ℚ) * 2 ^ (q - 2) ≤ y ↔ (a : ℚ) * 2 ^ (q - 2) ≤ x) ∧
      (y ≤ (a : ℚ) * 2 ^ (q - 2) ↔ x ≤ (a : ℚ) * 2 ^ (q - 2))) : Rounds m q y where
  lower := (hside _).1.mpr h.lower
  upper := (hside _).2.mpr h.upper
  odd hm := ⟨(lt_iff_lt_of_le_iff_le (hside _).2).mpr (h.odd hm).1,
    (lt_iff_lt_of_le_iff_le (hside _).1).mpr (h.odd hm).2⟩

theorem Rounds.pos {m : Nat} {q : Int} {x : ℚ} (hc : Canonical m q) (h : Rounds m q x) :
    2 * (2 : ℚ) ^ (q - 2) ≤ x := by
  have hm := hc.pos
  have hlowest : 2 ≤ lowest m q := by
    rw [lowest]
    split <;> omega
  have hlowest' : (2 : ℚ) ≤ lowest m q := by exact_mod_cast hlowest
  exact (mul_le_mul_of_nonneg_right hlowest' (by positivity)).trans h.lower

theorem Rounds.lt {m : Nat} {q : Int} {x : ℚ} (hc : Canonical m q) (h : Rounds m q x) :
    x < 2 ^ (q - 2 + (55 : Nat)) := by
  have hlt : ((4 * m + 2 : Nat) : ℚ) < 2 ^ 55 := by
    have hm := hc.lt
    exact_mod_cast (by omega : 4 * m + 2 < 2 ^ 55)
  rw [two_zpow_quarters]
  exact h.upper.trans_lt (mul_lt_mul_of_pos_right hlt (by positivity))

/-- The pattern of `m · 2 ^ q`. -/
def pattern (m : Nat) (q : Int) : Nat := (q + 1074).toNat * 2 ^ 52 + m

/-! ## Rounding what is nearest -/

/-- A number in its binary width. -/
theorem width_bounds {m : Nat} (hm : 0 < m) (q : Int) :
    (2 : ℚ) ^ (q + m.log2) ≤ m * (2 : ℚ) ^ q ∧ m * (2 : ℚ) ^ q < (2 : ℚ) ^ (q + m.log2 + 1) := by
  have hpos : (0 : ℚ) < 2 ^ q := by positivity
  have hlo : (2 : ℚ) ^ m.log2 ≤ m := by exact_mod_cast Nat.log2_self_le hm.ne'
  have hhi : (m : ℚ) < 2 ^ (m.log2 + 1) := by exact_mod_cast Nat.lt_log2_self
  have hstep : (2 : ℚ) ^ (q + m.log2 + 1) = 2 ^ (m.log2 + 1) * 2 ^ q := by
    rw [← zpow_natCast, ← zpow_add₀ two_ne_zero]
    congr 1
    push_cast
    ring
  constructor
  · rw [zpow_add₀ two_ne_zero, mul_comm, zpow_natCast]
    exact mul_le_mul_of_nonneg_right hlo hpos.le
  · rw [hstep]
    exact mul_lt_mul_of_pos_right hhi hpos

/-- However a number is written, its width is the same. -/
theorem width_eq {m n : Nat} {q e : Int} (hm : 0 < m) (hn : 0 < n)
    (h : (n : ℚ) * 2 ^ e = m * 2 ^ q) : e + n.log2 = q + m.log2 := by
  obtain ⟨hlo, hhi⟩ := width_bounds hn e
  obtain ⟨hlo', hhi'⟩ := width_bounds hm q
  rw [h] at hlo hhi
  have hle := (zpow_lt_zpow_iff_right₀ (one_lt_two (α := ℚ))).mp (hlo.trans_lt hhi')
  have hge := (zpow_lt_zpow_iff_right₀ (one_lt_two (α := ℚ))).mp (hlo'.trans_lt hhi)
  omega

/-- The significand of what is nearest to `n` steps of size `2 ^ e` is `n`. -/
theorem significand_eq {m n : Nat} {q e : Int}
    (hlo : (2 * n - 1) * (2 : ℚ) ^ e ≤ 2 * (m * (2 : ℚ) ^ q))
    (hhi : 2 * (m * (2 : ℚ) ^ q) ≤ (2 * n + 1) * (2 : ℚ) ^ e)
    (hodd : n % 2 = 1 → (2 * n - 1) * (2 : ℚ) ^ e < 2 * (m * (2 : ℚ) ^ q) ∧
      2 * (m * (2 : ℚ) ^ q) < (2 * n + 1) * (2 : ℚ) ^ e) :
    (if e ≤ q then m * twoTo (q - e).toNat else roundShift m (e - q).toNat) = n := by
  split
  next hle =>
    obtain ⟨k, rfl⟩ : ∃ k : Nat, q = e + k := ⟨(q - e).toNat, by omega⟩
    have hpos : (0 : ℚ) < 2 ^ e := by positivity
    have hq : (m : ℚ) * 2 ^ (e + (k : Int)) = ((m * 2 ^ k : Nat) : ℚ) * 2 ^ e := by
      rw [zpow_add₀ two_ne_zero, zpow_natCast]
      push_cast
      ring
    rw [hq, ← mul_assoc] at hlo hhi
    have hlo' := le_of_mul_le_mul_right hlo hpos
    have hhi' := le_of_mul_le_mul_right hhi hpos
    rw [show (e + (k : Int) - e).toNat = k by omega, twoTo_eq]
    have hlow : 2 * n ≤ 2 * (m * 2 ^ k) + 1 := by
      have : (2 * n : ℚ) ≤ 2 * (m * 2 ^ k : Nat) + 1 := by linarith
      exact_mod_cast this
    have hhigh : 2 * (m * 2 ^ k) ≤ 2 * n + 1 := by exact_mod_cast hhi'
    omega
  next hlt =>
    obtain ⟨k, rfl⟩ : ∃ k : Nat, e = q + k := ⟨(e - q).toNat, by omega⟩
    have hpos : (0 : ℚ) < 2 ^ q := by positivity
    have he : ∀ a : ℚ, a * 2 ^ (q + (k : Int)) = a * ((2 ^ k : Nat) : ℚ) * 2 ^ q := by
      intro a
      rw [zpow_add₀ two_ne_zero, zpow_natCast]
      push_cast
      ring
    simp only [he, ← mul_assoc] at hlo hhi hodd
    rw [show (q + (k : Int) - q).toNat = k by omega]
    refine roundShift_eq ?_ ?_ fun h ↦ ⟨?_, ?_⟩
    · have := le_of_mul_le_mul_right hlo hpos
      have : (2 * n * (2 ^ k : Nat) : ℚ) ≤ 2 * m + (2 ^ k : Nat) := by linarith
      exact_mod_cast this
    · have := le_of_mul_le_mul_right hhi hpos
      have : (2 * m : ℚ) ≤ 2 * n * (2 ^ k : Nat) + (2 ^ k : Nat) := by linarith
      exact_mod_cast this
    · have := lt_of_mul_lt_mul_right (hodd h).1 hpos.le
      have : (2 * n * (2 ^ k : Nat) : ℚ) < 2 * m + (2 ^ k : Nat) := by linarith
      exact_mod_cast this
    · have := lt_of_mul_lt_mul_right (hodd h).2 hpos.le
      have : (2 * m : ℚ) < 2 * n * (2 ^ k : Nat) + (2 ^ k : Nat) := by linarith
      exact_mod_cast this

theorem lowest_ge (m : Nat) (q : Int) : (4 * m - 2 : ℚ) ≤ lowest m q := by
  have h : 4 * m ≤ lowest m q + 2 := by
    rw [lowest]
    split <;> omega
  have h' : (4 * m : ℚ) ≤ lowest m q + 2 := by exact_mod_cast h
  linarith

/-- The exponent at which the digits of `n · 2 ^ p` end when they are rounded. -/
def lastExponent (n : Nat) (p : Int) : Int := max (p + (n.log2 + 1 : Int) - 53) (-1074)

/-- A number has the pattern that its last exponent and its significand make up. -/
theorem encode_eq_of_significand {m n s : Nat} {q p e : Int} (hn : 0 < n) (hc : Canonical m q)
    (he : lastExponent n p = e)
    (hs : (if e ≤ p then n * twoTo (p - e).toNat else roundShift n (e - p).toNat) = s)
    (hpattern : (e + 1074).toNat * 2 ^ 52 + s = pattern m q) :
    double.encode n p = pattern m q := by
  have hfinite : pattern m q ≤ double.infinity := by
    have hlt := hc.lt
    have hmost := hc.le_most
    have hinfinity : double.infinity = 2047 * 2 ^ 52 := rfl
    rw [pattern, hinfinity]
    omega
  rw [encode, if_neg hn.ne']
  change min ((lastExponent n p - -1074).toNat * 2 ^ 52
    + if lastExponent n p ≤ p then n * twoTo (p - lastExponent n p).toNat
      else roundShift n (lastExponent n p - p).toNat) double.infinity = _
  rw [he, hs, Int.sub_neg, hpattern, Nat.min_eq_left hfinite]

/-- The digits of what rounds to `m · 2 ^ q` end at `q`, unless this is a power of two and what
rounds to it lies below: then the width is less by one. -/
theorem Rounds.lastExponent_eq {m n : Nat} {q p : Int} (h : Rounds m q (n * 2 ^ p)) (hn : 0 < n)
    (hc : Canonical m q) :
    lastExponent n p = q ∨
      (lastExponent n p = q - 1 ∧ (m = 2 ^ 52 ∧ -1074 < q) ∧ n * (2 : ℚ) ^ p < m * 2 ^ q) := by
  obtain ⟨hwide, hnarrow⟩ := width_bounds hn p
  have hlower := h.lower
  have hunit : (0 : ℚ) < 2 ^ (q - 2) := by positivity
  have hlowest := mul_le_mul_of_nonneg_right (lowest_ge m q) hunit.le
  have hwidth : p + n.log2 < q - 2 + (55 : Nat) :=
    (zpow_lt_zpow_iff_right₀ (one_lt_two (α := ℚ))).mp (hwide.trans_lt (h.lt hc))
  have hleast := hc.least_le
  rw [lastExponent]
  by_cases hsame : max (p + (n.log2 + 1 : Int) - 53) (-1074) = q
  · exact Or.inl hsame
  · have hpower : (2 : ℚ) ^ (p + n.log2 + 1) ≤ 2 ^ 54 * 2 ^ (q - 2) := by
      rw [← two_zpow_quarters]
      exact zpow_le_zpow_right₀ one_le_two (by omega)
    have hm : m = 2 ^ 52 := by
      have hle : 2 ^ 52 ≤ m := hc.normal.resolve_right (by omega)
      by_contra hne
      have hlt : (2 ^ 52 + 1 : ℚ) ≤ m := by exact_mod_cast (by omega : 2 ^ 52 + 1 ≤ m)
      have hmul := mul_le_mul_of_nonneg_right hlt hunit.le
      linarith
    have hbound : (lowest m q : ℚ) = 2 ^ 54 - 1 := by
      rw [lowest, if_pos ⟨hm, by omega⟩, hm]
      norm_num
    rw [hbound] at hlower
    have hwidth' : q - 2 + (53 : Nat) < p + n.log2 + 1 := by
      refine (zpow_lt_zpow_iff_right₀ (one_lt_two (α := ℚ))).mp ?_
      rw [two_zpow_quarters]
      linarith
    refine Or.inr ⟨by omega, ⟨hm, by omega⟩, hnarrow.trans_le (hpower.trans_eq ?_)⟩
    rw [hm, step_eq_quarters q]
    norm_num
    ring

/-- What rounds to a number has its pattern. -/
theorem encode_eq_pattern {m n : Nat} {q p : Int} (hn : 0 < n) (hc : Canonical m q)
    (h : Rounds m q (n * 2 ^ p)) : double.encode n p = pattern m q := by
  have hend := h.lastExponent_eq hn hc
  obtain ⟨hlower, hupper, hodd⟩ := h
  push_cast at hupper hodd
  have hunit : (0 : ℚ) < 2 ^ (q - 2) := by positivity
  have hlowest := mul_le_mul_of_nonneg_right (lowest_ge m q) hunit.le
  rcases hend with hsame | ⟨hlast, hpower, hbelow⟩
  · refine encode_eq_of_significand hn hc hsame (significand_eq (n := m) ?_ ?_ fun h ↦ ⟨?_, ?_⟩) rfl
    · rw [step_eq_quarters q]
      linarith
    · rw [step_eq_quarters q]
      linarith
    · have := (hodd h).1
      rw [step_eq_quarters q]
      linarith
    · have := (hodd h).2
      rw [step_eq_quarters q]
      linarith
  · -- the steps are half as wide there, so the significand is twice as large
    have hbound : (lowest m q : ℚ) = 2 ^ 54 - 1 := by
      rw [lowest, if_pos hpower, hpower.1]
      norm_num
    rw [hbound] at hlower
    rw [hpower.1, step_eq_quarters q] at hbelow
    push_cast at hbelow
    refine encode_eq_of_significand hn hc hlast
      (significand_eq (n := 2 ^ 53) ?_ ?_ fun h ↦ absurd h (by decide)) ?_
    · rw [half_step_eq_quarters]
      push_cast
      linarith
    · rw [half_step_eq_quarters]
      push_cast
      linarith
    · rw [pattern, hpower.1]
      omega

/-! ## Rounding ratios -/

/-- What is not cut is at most a cut ratio if it is at most the ratio. -/
theorem two_mul_le_cut_iff {den : Nat} (hden : 0 < den) (num shift a : Nat) :
    2 * a ≤ cut num den shift ↔ a * den ≤ num * 2 ^ shift := by
  rw [← Nat.le_div_iff_mul_le hden, cut, twoTo_eq]
  split <;> omega

/-- A cut ratio is at most what is not cut if the ratio is: the bit behind the cut says whether there
is a remainder. -/
theorem cut_le_two_mul_iff {den : Nat} (hden : 0 < den) (num shift a : Nat) :
    cut num den shift ≤ 2 * a ↔ num * 2 ^ shift ≤ a * den := by
  rw [cut, twoTo_eq]
  generalize num * 2 ^ shift = scaled
  split
  next hrest =>
    obtain ⟨whole, rfl⟩ := Nat.dvd_of_mod_eq_zero hrest
    rw [Nat.mul_div_cancel_left whole hden, mul_comm a, Nat.mul_le_mul_left_iff hden]
    omega
  next hrest =>
    have hne : scaled ≠ a * den := by
      rintro rfl
      exact hrest (Nat.mul_mod_left a den)
    have hle : scaled ≤ a * den ↔ scaled / den < a := by
      rw [Nat.div_lt_iff_lt_mul hden, Nat.le_iff_lt_or_eq, or_iff_left hne]
    rw [hle]
    omega

/-- What a cut ratio stands for. -/
def cutValue (num den shift : Nat) : ℚ := cut num den shift * 2 ^ (-(shift + 1 : Nat) : Int)

/-- A ratio and what is left of it when it is cut lie on the same side of every number that is not
cut itself. -/
theorem cut_le_iff {num den : Nat} (hden : 0 < den) (shift a : Nat) :
    (a * (2 : ℚ) ^ (-shift : Int) ≤ cutValue num den shift ↔
      a * (2 : ℚ) ^ (-shift : Int) ≤ num / den) ∧
    (cutValue num den shift ≤ a * (2 : ℚ) ^ (-shift : Int) ↔
      (num : ℚ) / den ≤ a * (2 : ℚ) ^ (-shift : Int)) := by
  have hden' : (0 : ℚ) < den := by exact_mod_cast hden
  have hunit : (0 : ℚ) < 2 ^ shift := by positivity
  have hgrid : (a : ℚ) * 2 ^ (-shift : Int) = a / 2 ^ shift := by
    rw [zpow_neg, zpow_natCast, div_eq_mul_inv]
  have hcut : cutValue num den shift = (cut num den shift / 2 : ℚ) / 2 ^ shift := by
    rw [cutValue, zpow_neg, zpow_natCast, pow_succ]
    field_simp
  rw [hgrid, hcut, div_le_div_iff_of_pos_right hunit, div_le_div_iff_of_pos_right hunit,
    le_div_iff₀ (two_pos (α := ℚ)), div_le_iff₀ (two_pos (α := ℚ)), div_le_div_iff₀ hunit hden',
    div_le_div_iff₀ hden' hunit, mul_comm (a : ℚ) 2]
  constructor
  · exact_mod_cast two_mul_le_cut_iff hden num shift a
  · exact_mod_cast cut_le_two_mul_iff hden num shift a

/-- What rounds to a number goes on to do so when it is cut finely enough. -/
theorem encodeRatio_eq_pattern {num den m : Nat} {q : Int} (hnum : 0 < num) (hden : 0 < den)
    (hc : Canonical m q) (h : Rounds m q (num / den)) :
    double.encodeRatio num den = pattern m q := by
  have hden' : (0 : ℚ) < den := by exact_mod_cast hden
  -- a quarter of a step is not cut
  obtain ⟨k, hk⟩ : ∃ k : Nat, q - 2 = -(den.log2 + 61 : Nat) + (k : Int) := by
    have hsmall : (2 : ℚ) ^ (-(den.log2 + 1 : Nat) : Int) < num / den := by
      have hlog : (den : ℚ) < 2 ^ (den.log2 + 1) := by exact_mod_cast Nat.lt_log2_self
      have hone : (1 : ℚ) ≤ num := by exact_mod_cast hnum
      rw [zpow_neg, zpow_natCast, inv_lt_iff_one_lt_mul₀ (by positivity), div_mul_eq_mul_div,
        lt_div_iff₀ hden']
      nlinarith
    have hexp := (zpow_lt_zpow_iff_right₀ (one_lt_two (α := ℚ))).mp (hsmall.trans (h.lt hc))
    exact ⟨(q - 2 + (den.log2 + 61 : Nat)).toNat, by omega⟩
  have hgrid : ∀ a : Nat, (a : ℚ) * 2 ^ (q - 2)
      = (a * 2 ^ k : Nat) * 2 ^ (-(den.log2 + 61 : Nat) : Int) := by
    intro a
    rw [hk, zpow_add₀ two_ne_zero, zpow_natCast]
    push_cast
    ring
  have hcut : Rounds m q (cutValue num den (den.log2 + 61)) := by
    refine h.of_same_side fun a ↦ ?_
    rw [hgrid]
    exact cut_le_iff hden _ _
  have hpos : 0 < cut num den (den.log2 + 61) := by
    have hvalue : 0 < cutValue num den (den.log2 + 61) :=
      lt_of_lt_of_le (by positivity) (hcut.pos hc)
    refine Nat.pos_of_ne_zero fun hzero ↦ ?_
    rw [cutValue, hzero, Nat.cast_zero, zero_mul] at hvalue
    exact lt_irrefl _ hvalue
  exact encode_eq_pattern hpos hc hcut

/-! ## Patterns -/

/-- The pattern of a finite number above zero is that of its significand and exponent. -/
theorem canonical_of_decode {bits m : Nat} {q : Int} (h : double.decode bits = (m, q))
    (hpos : 0 < bits) (hlt : bits < double.infinity) : Canonical m q ∧ pattern m q = bits := by
  have hinfinity : double.infinity = 2047 * 2 ^ 52 := rfl
  have hdecode : double.decode bits = if bits / 2 ^ 52 = 0 then (bits % 2 ^ 52, -1074)
      else (bits % 2 ^ 52 + 2 ^ 52, -1074 + ((bits / 2 ^ 52 - 1 : Nat) : Int)) := rfl
  rw [hinfinity] at hlt
  rw [hdecode] at h
  split at h <;> obtain ⟨rfl, rfl⟩ := Prod.mk.inj h <;> rw [pattern]
  · exact ⟨⟨by omega, by omega, by omega, by omega, Or.inr rfl⟩, by omega⟩
  · exact ⟨⟨by omega, by omega, by omega, by omega, Or.inl (by omega)⟩, by omega⟩

end BinaryFormat

namespace Double

variable {x : Float}

/-- The significand and the exponent of a finite number above zero, and the pattern that they have
together. -/
theorem IsPositive.canonical (hx : IsPositive x) :
    BinaryFormat.Canonical (parts x).1 (parts x).2 ∧
      BinaryFormat.pattern (parts x).1 (parts x).2 = x.toBits.toNat := by
  obtain ⟨hpos, hlt⟩ := hx.toBits
  have hinfinity : BinaryFormat.double.infinity = 2047 * 2 ^ 52 := rfl
  have hsign : signBit = 2 ^ 63 := rfl
  have hparts : parts x = BinaryFormat.double.decode x.toBits.toNat := by
    rw [parts, hsign, Nat.mod_eq_of_lt (by omega)]
  exact BinaryFormat.canonical_of_decode hparts.symm hpos hlt

/-- **A ratio that rounds to a finite number above zero is read as this number.** -/
theorem ofRatio_eq (hx : IsPositive x) {num den : Nat} (hnum : 0 < num) (hden : 0 < den)
    (h : BinaryFormat.Rounds (parts x).1 (parts x).2 (num / den)) : ofRatio num den = x := by
  obtain ⟨hc, hpattern⟩ := hx.canonical
  rw [ofRatio, BinaryFormat.encodeRatio_eq_pattern hnum hden hc h, hpattern]
  exact (congrArg Float.ofBits (UInt64.ofNat_toNat)).trans (Float.ofBits_toBits x)

end Double

end StackSynth
