import StackSynth.Number.Shortest
import StackSynth.Proofs.Number.Rounding

/-!
# The shortest decimal rounds to its number

The search for the shortest decimal tests candidates against the interval of what rounds to the
number (`has_around_iff`), so whatever it finds is right, and what has to be shown is that it finds
something. On the grid of seventeen digits it does: a point of the grid is at most half a step away
from the number, and half a step is shorter than the way to the ends of the interval
(`onGrid_seventeen`). Leaving out trailing zeros does not change the value (`value_strip`).
-/

namespace StackSynth.Decimal

open BinaryFormat

/-! ## Values -/

/-- The value of a decimal. -/
def value (d : Decimal) : ℚ := d.digits * 10 ^ d.exponent

/-- The value of a ratio. -/
def Ratio.value (r : Ratio) : ℚ := r.num / r.den

namespace Ratio

theorem lt_iff {a b : Ratio} (ha : 0 < a.den) (hb : 0 < b.den) :
    a.lt b = true ↔ a.value < b.value := by
  have ha' : (0 : ℚ) < a.den := by exact_mod_cast ha
  have hb' : (0 : ℚ) < b.den := by exact_mod_cast hb
  rw [lt, decide_eq_true_iff, value, value, div_lt_div_iff₀ ha' hb']
  exact_mod_cast Iff.rfl

theorem den_ofBinary (m : Nat) (q : Int) : 0 < (ofBinary m q).den := by
  rw [ofBinary]
  split
  next => exact Nat.one_pos
  next => exact Nat.two_pow_pos _

theorem value_ofBinary (m : Nat) (q : Int) : (ofBinary m q).value = m * 2 ^ q := by
  rw [ofBinary, value]
  split
  next h =>
    obtain ⟨k, rfl⟩ := Int.eq_ofNat_of_zero_le h
    simp [twoTo_eq]
  next h =>
    obtain ⟨k, rfl⟩ : ∃ k : Nat, q = -k := ⟨(-q).toNat, by omega⟩
    simp [twoTo_eq, div_eq_mul_inv]

theorem den_ofDecimal (d : Decimal) : 0 < (ofDecimal d).den := by
  rw [ofDecimal]
  split
  next => exact Nat.one_pos
  next => exact Nat.pow_pos (by decide)

theorem value_ofDecimal (d : Decimal) : (ofDecimal d).value = d.value := by
  rw [ofDecimal, value, Decimal.value]
  split
  next h =>
    obtain ⟨k, hk⟩ := Int.eq_ofNat_of_zero_le h
    simp [hk, tenTo]
  next h =>
    obtain ⟨k, hk⟩ : ∃ k : Nat, d.exponent = -k := ⟨(-d.exponent).toNat, by omega⟩
    simp [hk, tenTo, div_eq_mul_inv]

end Ratio

/-- The interval of a number holds what rounds to it. -/
theorem has_around_iff {m : Nat} {q : Int} {d : Decimal} :
    (Interval.around m q).has (.ofDecimal d) = true ↔ Rounds m q d.value := by
  have hlo : (Interval.around m q).lo = .ofBinary (lowest m q) (q - 2) := by
    rw [lowest, Interval.around, twoTo_eq]
    split <;> rfl
  have hhi : (Interval.around m q).hi = .ofBinary (4 * m + 2) (q - 2) := rfl
  have hclosed : (Interval.around m q).closed = decide (m % 2 = 0) := rfl
  have hbelow : ∀ n : Nat, (Ratio.ofDecimal d).lt (.ofBinary n (q - 2)) = true ↔
      d.value < n * 2 ^ (q - 2) := by
    intro n
    rw [Ratio.lt_iff (Ratio.den_ofDecimal d) (Ratio.den_ofBinary _ _), Ratio.value_ofDecimal,
      Ratio.value_ofBinary]
  have habove : ∀ n : Nat, (Ratio.ofBinary n (q - 2)).lt (.ofDecimal d) = true ↔
      n * 2 ^ (q - 2) < d.value := by
    intro n
    rw [Ratio.lt_iff (Ratio.den_ofBinary _ _) (Ratio.den_ofDecimal d), Ratio.value_ofDecimal,
      Ratio.value_ofBinary]
  rw [Interval.has, hlo, hhi, hclosed]
  by_cases heven : m % 2 = 0
  · rw [if_pos (decide_eq_true heven), Bool.and_eq_true, Bool.not_eq_true', Bool.not_eq_true',
      ← Bool.not_eq_true, ← Bool.not_eq_true, hbelow, habove, not_lt, not_lt]
    exact ⟨fun h ↦ ⟨h.1, h.2, fun hodd ↦ by omega⟩, fun h ↦ ⟨h.lower, h.upper⟩⟩
  · rw [if_neg (by rw [decide_eq_true_iff]; exact heven), Bool.and_eq_true, hbelow, habove]
    exact ⟨fun h ↦ ⟨h.1.le, h.2.le, fun _ ↦ h⟩, fun h ↦ h.odd (by omega)⟩

/-! ## The grids -/

theorem width_bounds {n : Nat} (hn : 0 < n) : 10 ^ (width n - 1) ≤ n ∧ n < 10 ^ width n := by
  have hwidth : 0 < width n := Nat.length_toDigits_pos
  refine ⟨Nat.not_lt.mp fun hlt ↦ ?_, (Nat.length_toDigits_le_iff (by decide) hwidth).mp le_rfl⟩
  rcases Nat.eq_zero_or_pos (width n - 1) with hone | hmore
  · rw [hone] at hlt
    omega
  · have hle := (Nat.length_toDigits_le_iff (by decide) hmore).mpr hlt
    change width n ≤ width n - 1 at hle
    omega

/-- The leading digit is not above the ratio. -/
theorem ten_pow_leading_le {r : Ratio} (hnum : 0 < r.num) (hden : 0 < r.den) :
    (10 : ℚ) ^ leading r ≤ r.value := by
  have hden' : (0 : ℚ) < r.den := by exact_mod_cast hden
  have hpower : ∀ e : Int, (Ratio.ofDecimal ⟨1, e⟩).value = 10 ^ e := fun e ↦ by
    rw [Ratio.value_ofDecimal, value, Nat.cast_one, one_mul]
  rw [leading]
  split
  next =>
    have hlow : ((10 ^ (width r.num - 1) : Nat) : ℚ) ≤ r.num := by
      exact_mod_cast (width_bounds hnum).1
    have hhigh : (r.den : ℚ) ≤ (10 ^ width r.den : Nat) := by
      exact_mod_cast (width_bounds hden).2.le
    have hwidth : 0 < width r.num := Nat.length_toDigits_pos
    have hexp : (width r.num : Int) - width r.den - 1 = (width r.num - 1 : Nat) - width r.den := by
      omega
    rw [hexp, zpow_sub₀ (by norm_num), zpow_natCast, zpow_natCast, Ratio.value]
    push_cast at hlow hhigh
    exact div_le_div₀ (by positivity) hlow hden' hhigh
  next h =>
    rw [Ratio.lt_iff hden (Ratio.den_ofDecimal _), hpower, not_lt] at h
    exact h

/-- A grid is searched at the two points around the value, the nearer one first. The value is
measured in steps of the grid. -/
theorem onGrid_eq {value : Ratio} (hden : 0 < value.den) (inside : Interval) (e : Int) :
    ∃ num den : Nat, 0 < den ∧ value.value = (num : ℚ) / den * 10 ^ e ∧
      onGrid value inside e = (if 2 * (num % den) < den then
        [(⟨num / den, e⟩ : Decimal), ⟨num / den + 1, e⟩]
        else [⟨num / den + 1, e⟩, ⟨num / den, e⟩]).find? fun d ↦ inside.has (.ofDecimal d) := by
  rw [onGrid, Ratio.value]
  by_cases he : 0 ≤ e
  · obtain ⟨k, rfl⟩ := Int.eq_ofNat_of_zero_le he
    rw [if_pos he]
    refine ⟨_, _, Nat.mul_pos hden (Nat.pow_pos (by decide : 0 < 10)), ?_, rfl⟩
    rw [Int.toNat_natCast, zpow_natCast]
    push_cast
    field_simp
  · obtain ⟨k, rfl⟩ : ∃ k : Nat, e = -k := ⟨(-e).toNat, by omega⟩
    rw [if_neg he]
    refine ⟨_, _, hden, ?_, rfl⟩
    rw [neg_neg, Int.toNat_natCast, zpow_neg, zpow_natCast, tenTo, Nat.pow_eq]
    push_cast
    field_simp

/-- A ratio is at most one half away from the nearer of the two whole numbers around it. -/
theorem abs_sub_nearer_le {num den : Nat} (hden : 0 < den) :
    |((if 2 * (num % den) < den then num / den else num / den + 1 : Nat) : ℚ) - num / den|
      ≤ 1 / 2 := by
  have hden' : (0 : ℚ) < den := by exact_mod_cast hden
  have hdiv : (num : ℚ) / den = (num / den : Nat) + (num % den : Nat) / den := by
    rw [eq_comm, ← eq_sub_iff_add_eq', div_eq_iff hden'.ne', sub_mul, div_mul_cancel₀ _ hden'.ne',
      eq_sub_iff_add_eq']
    exact_mod_cast Nat.div_add_mod' num den
  have hmod : ((num % den : Nat) : ℚ) / den < 1 := by
    rw [div_lt_iff₀ hden', one_mul]
    exact_mod_cast Nat.mod_lt num hden
  have hmod' : (0 : ℚ) ≤ ((num % den : Nat) : ℚ) / den := by positivity
  rw [hdiv, abs_le]
  split
  next hbelow =>
    have hhalf : ((num % den : Nat) : ℚ) / den ≤ 1 / 2 := by
      rw [div_le_div_iff₀ hden' two_pos]
      exact_mod_cast (by omega : num % den * 2 ≤ 1 * den)
    constructor <;> linarith
  next habove =>
    have hhalf : 1 / 2 ≤ ((num % den : Nat) : ℚ) / den := by
      rw [div_le_div_iff₀ two_pos hden']
      exact_mod_cast (by omega : 1 * den ≤ num % den * 2)
    push_cast
    constructor <;> linarith

/-- Some point of a grid is at most half a step away from the value; if it lies inside, a point of
the grid is found. -/
theorem exists_near {value : Ratio} (hden : 0 < value.den) (inside : Interval) (e : Int) :
    ∃ n : Nat, |n * 10 ^ e - value.value| ≤ 10 ^ e / 2 ∧
      (inside.has (.ofDecimal ⟨n, e⟩) = true → (onGrid value inside e).isSome) := by
  obtain ⟨num, den, hden', hscaled, hgrid⟩ := onGrid_eq hden inside e
  have hpos : (0 : ℚ) < 10 ^ e := by positivity
  refine ⟨if 2 * (num % den) < den then num / den else num / den + 1, ?_, fun hhas ↦ ?_⟩
  · rw [hscaled, ← sub_mul, abs_mul, abs_of_pos hpos]
    exact (mul_le_mul_of_nonneg_right (abs_sub_nearer_le hden') hpos.le).trans_eq (by ring)
  · have hsome : ∀ {a b : Decimal}, inside.has (.ofDecimal a) = true →
        ([a, b].find? fun d ↦ inside.has (.ofDecimal d)).isSome := fun h ↦ by
      rw [List.find?_cons_of_pos (p := fun d ↦ inside.has (.ofDecimal d)) h, Option.isSome_some]
    rw [hgrid]
    split
    next hbelow =>
      rw [if_pos hbelow] at hhas
      exact hsome hhas
    next habove =>
      rw [if_neg habove] at hhas
      exact hsome hhas

theorem has_of_onGrid {value : Ratio} {inside : Interval} {e : Int} {d : Decimal}
    (h : onGrid value inside e = some d) : inside.has (.ofDecimal d) = true :=
  List.find?_some (p := fun d ↦ inside.has (.ofDecimal d)) h

/-- What is near enough to a number rounds to it. -/
theorem rounds_of_near {m : Nat} {q : Int} {x : ℚ}
    (h : |x - m * 2 ^ q| < (4 * m - lowest m q : Nat) * 2 ^ (q - 2)) : Rounds m q x := by
  have hlowest : lowest m q ≤ 4 * m := by
    rw [lowest]
    split <;> omega
  have hnear : 4 * m - lowest m q ≤ 2 := by
    rw [lowest]
    split <;> omega
  have hnear' : ((4 * m - lowest m q : Nat) : ℚ) ≤ 2 := by exact_mod_cast hnear
  have hunit : (0 : ℚ) < 2 ^ (q - 2) := by positivity
  have habove := mul_le_mul_of_nonneg_right hnear' hunit.le
  rw [abs_lt, value_eq_quarters m q, Nat.cast_mul, Nat.cast_ofNat] at h
  have hlower : lowest m q * (2 : ℚ) ^ (q - 2) < x := by
    have := h.1
    push_cast [Nat.cast_sub hlowest] at this
    linarith
  have hupper : x < (4 * m + 2 : Nat) * (2 : ℚ) ^ (q - 2) := by
    push_cast
    linarith [h.2]
  exact ⟨hlower.le, hupper.le, fun _ ↦ ⟨hlower, hupper⟩⟩

/-- Seventeen digits suffice. -/
theorem onGrid_seventeen {m : Nat} {q : Int} (hc : Canonical m q) :
    (onGrid (.ofBinary m q) (.around m q) (leading (.ofBinary m q) - 16)).isSome := by
  have hnum : 0 < (Ratio.ofBinary m q).num := by
    rw [Ratio.ofBinary]
    split
    next => exact Nat.mul_pos hc.pos (Nat.two_pow_pos _)
    next => exact hc.pos
  obtain ⟨n, hn, hfound⟩ := exists_near (Ratio.den_ofBinary m q) (.around m q)
    (leading (.ofBinary m q) - 16)
  rw [Ratio.value_ofBinary] at hn
  refine hfound (has_around_iff.mpr (rounds_of_near (hn.trans_lt ?_)))
  have htop := ten_pow_leading_le hnum (Ratio.den_ofBinary m q)
  rw [Ratio.value_ofBinary, value_eq_quarters m q] at htop
  push_cast at htop
  have hunit : (0 : ℚ) < 2 ^ (q - 2) := by positivity
  have hsteps : (4 * m : ℚ) / 10 ^ 16 / 2 < (4 * m - lowest m q : Nat) := by
    rw [lowest]
    split
    next h =>
      rw [h.1]
      norm_num
    next =>
      have hlt : (m : ℚ) < 2 ^ 53 := by exact_mod_cast hc.lt
      rw [show 4 * m - (4 * m - 2) = 2 by have := hc.pos; omega]
      push_cast
      linarith
  calc (10 : ℚ) ^ (leading (.ofBinary m q) - 16) / 2
      = 10 ^ leading (.ofBinary m q) / 10 ^ 16 / 2 := by
        rw [zpow_sub₀ (by norm_num)]
        rfl
    _ ≤ 4 * m * 2 ^ (q - 2) / 10 ^ 16 / 2 := by gcongr
    _ = 4 * m / 10 ^ 16 / 2 * 2 ^ (q - 2) := by ring
    _ < _ := mul_lt_mul_of_pos_right hsteps hunit

/-! ## The shortest decimal -/

theorem value_strip (n : Nat) (d : Decimal) : (strip n d).value = d.value := by
  induction n generalizing d with
  | zero => rfl
  | succ n ih =>
    rw [strip]
    split
    next h =>
      have hdigits : (d.digits : ℚ) = (d.digits / 10 : Nat) * 10 := by
        exact_mod_cast (Nat.div_mul_cancel (Nat.dvd_of_mod_eq_zero h)).symm
      rw [ih, value, value, hdigits, zpow_add₀ (by norm_num), zpow_one]
      ring
    next => rfl

/-- **The shortest decimal of a number rounds to it.** -/
theorem rounds_shortest {m : Nat} {q : Int} (hc : Canonical m q) :
    Rounds m q (shortest m q).value := by
  obtain ⟨d, hd⟩ : ∃ d, ((List.range 17).findSome? fun (n : Nat) ↦
      onGrid (.ofBinary m q) (.around m q) (leading (.ofBinary m q) - n)) = some d := by
    rw [← Option.isSome_iff_exists, List.findSome?_isSome_iff]
    exact ⟨16, by decide, onGrid_seventeen hc⟩
  obtain ⟨n, -, hgrid⟩ := List.exists_of_findSome?_eq_some hd
  rw [shortest, hd, Option.getD_some, value_strip]
  exact has_around_iff.mp (has_of_onGrid hgrid)

end StackSynth.Decimal
