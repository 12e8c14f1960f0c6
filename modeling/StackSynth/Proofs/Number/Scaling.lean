import StackSynth.Proofs.Number.Overflow
import StackSynth.Proofs.Number.Product

/-!
# Exact products and quotients

A product that is a number is multiplied exactly (`HasValue.mul`), and a quotient that is a number
is divided exactly (`HasValue.div`): the division goes on until the quotient is complete, and
nothing is left of it. So numbers are scaled by powers of two without rounding, as long as they stay
in range.

The integer part of a number is that of its value, cut off towards zero
(`HasValue.truncate_cases`).
-/

namespace StackSynth

open Float.Model Float.Model.UnpackedFloat BinaryFormat

/-- The sign of a number as a factor. -/
theorem exactValue_eq_mul (s : Sign) {m : Nat} {e : ℤ} (hm : 0 < m) :
    exactValue (.finite s m e hm) = (s.apply 1 : ℤ) * ((m : ℚ) * 2 ^ e) := by
  cases s with
  | positive => rw [exactValue_positive, Sign.apply, Int.cast_one, one_mul]
  | negative => rw [exactValue_negative, Sign.apply, Int.cast_neg, Int.cast_one, neg_one_mul]

theorem apply_one_mul (s s' : Sign) :
    (((s * s').apply 1 : ℤ) : ℚ) = (s.apply 1 : ℤ) * (s'.apply 1 : ℤ) := by
  have h : (s * s').apply 1 = s.apply 1 * s'.apply 1 := by cases s <;> cases s' <;> rfl
  rw [h, Int.cast_mul]

theorem apply_one_div (s s' : Sign) :
    (((s / s').apply 1 : ℤ) : ℚ) = (s.apply 1 : ℤ) / (s'.apply 1 : ℤ) := by
  have h : (s / s').apply 1 = s.apply 1 * s'.apply 1 := by cases s <;> cases s' <;> rfl
  rw [h, Int.cast_mul]
  cases s' with
  | positive => rw [Sign.apply, Int.cast_one, mul_one, div_one]
  | negative => rw [Sign.apply, Int.cast_neg, Int.cast_one, mul_neg_one, div_neg, div_one]

/-- A significand that fills its width has the lowest exponent for its value. -/
theorem BinaryFormat.Canonical.le_exponent {k c : Nat} {t j : ℤ} (hc : Canonical k j)
    (hwide : 2 ^ 52 ≤ c) (hle : (c : ℚ) * 2 ^ t ≤ k * 2 ^ j) : t ≤ j := by
  have hwide' : (2 : ℚ) ^ (52 : ℤ) ≤ c := by exact_mod_cast hwide
  have hk : (k : ℚ) < 2 ^ (53 : ℤ) := by exact_mod_cast hc.lt
  have hlt : (2 : ℚ) ^ (52 + t) < 2 ^ (53 + j) := by
    rw [zpow_add₀ two_ne_zero, zpow_add₀ two_ne_zero]
    calc (2 : ℚ) ^ (52 : ℤ) * 2 ^ t ≤ c * 2 ^ t :=
          mul_le_mul_of_nonneg_right hwide' (by positivity)
      _ ≤ k * 2 ^ j := hle
      _ < 2 ^ (53 : ℤ) * 2 ^ j := mul_lt_mul_of_pos_right hk (by positivity)
  have hexp := (zpow_lt_zpow_iff_right₀ (one_lt_two (α := ℚ))).mp hlt
  omega

/-- A quotient that is a number leaves nothing behind when it is divided out. -/
theorem BinaryFormat.Canonical.divCore_exact {m n k : Nat} {p q j : ℤ} (hc : Canonical k j)
    (hm : 0 < m) (hn : 0 < n) (h : (m : ℚ) * 2 ^ p = n * 2 ^ q * (k * 2 ^ j)) (s : Sign) :
    roundWithAccuracy .binary64 s (divCore .binary64 m p n q).1 (divCore .binary64 m p n q).2.1
      (divCore .binary64 m p n q).2.2 = .finite s k j hc.pos := by
  obtain ⟨c, r, t, hcore, hr, hvalue, hbits⟩ := exists_divCore_eq hm hn p q
  have hpos : (0 : ℚ) < 2 ^ t := by positivity
  have hquotient : ((n * c + r : Nat) : ℚ) * 2 ^ t = n * (k * 2 ^ j) := by
    have hscale : (2 : ℚ) ^ q ≠ 0 := by positivity
    rw [zpow_add₀ two_ne_zero, ← mul_assoc, h] at hvalue
    refine mul_right_cancel₀ hscale (hvalue.trans ?_)
    ring
  -- The quotient is divided out at least as far as it goes.
  have hle : t ≤ j := by
    rcases hbits with hleast | hwide
    · exact hleast.trans hc.least_le
    · refine hc.le_exponent hwide (le_of_mul_le_mul_left ?_ (by exact_mod_cast hn : (0 : ℚ) < n))
      rw [← hquotient, ← mul_assoc]
      exact mul_le_mul_of_nonneg_right (by push_cast; linarith) hpos.le
  obtain ⟨i, rfl⟩ : ∃ i : Nat, j = t + i := ⟨(j - t).toNat, by omega⟩
  have hwhole : n * c + r = n * (k * 2 ^ i) := by
    have hscaled : ((n * c + r : Nat) : ℚ) * 2 ^ t = (n * (k * 2 ^ i) : Nat) * 2 ^ t := by
      rw [hquotient, zpow_add₀ two_ne_zero, zpow_natCast]
      push_cast
      ring
    exact_mod_cast mul_right_cancel₀ hpos.ne' hscaled
  have hzero : r = 0 := by
    have hdvd : n ∣ n * c + r := hwhole ▸ Dvd.intro _ rfl
    exact Nat.eq_zero_of_dvd_of_lt ((Nat.dvd_add_right (Dvd.intro _ rfl)).mp hdvd) hr
  subst hzero
  obtain rfl : c = k * 2 ^ i := Nat.eq_of_mul_eq_mul_left hn hwhole
  rw [hcore]
  refine roundWithAccuracy_exact s hc ?_ hle
  rw [zpow_add₀ two_ne_zero, zpow_natCast]
  push_cast
  ring

namespace Stands

variable {u v : UnpackedFloat} {a b : ℚ}

theorem mul (hu : Stands u a) (hv : Stands v b) (h : Representable (a * b)) :
    Stands (UnpackedFloat.mul .binary64 u v) (a * b) := by
  obtain ⟨hcu, hfu, rfl⟩ := hu
  obtain ⟨hcv, hfv, rfl⟩ := hv
  cases u with
  | notANumber | infinity s => cases hfu
  | zero s =>
    rw [exactValue_zero, zero_mul]
    cases v with
    | notANumber | infinity s' => cases hfv
    | zero s' | finite s' n q hn => exact ⟨trivial, rfl, rfl⟩
  | finite s m p hm =>
    cases v with
    | notANumber | infinity s' => cases hfv
    | zero s' =>
      rw [exactValue_zero, MulZeroClass.mul_zero]
      exact ⟨trivial, rfl, rfl⟩
    | finite s' n q hn =>
      have habs : |exactValue (.finite s m p hm) * exactValue (.finite s' n q hn)|
          = (m * n : Nat) * 2 ^ (p + q) := by
        rw [abs_mul, abs_exactValue, abs_exactValue, zpow_add₀ two_ne_zero]
        push_cast
        ring
      have hpos : (0 : ℚ) < (m * n : Nat) * 2 ^ (p + q) := by positivity
      obtain ⟨k, j, hc, hvalue⟩ := h.resolve_left (abs_pos.mp (habs ▸ hpos))
      rw [habs] at hvalue
      obtain ⟨i, hi⟩ := hcu.exists_targetExponent_mul hcv
      rw [hc.targetExponent hvalue] at hi
      rw [UnpackedFloat.mul, roundWithAccuracy_exact _ hc hvalue (by omega)]
      refine ⟨hc, rfl, ?_⟩
      rw [exactValue_eq_mul, exactValue_eq_mul, exactValue_eq_mul, apply_one_mul, ← hvalue,
        zpow_add₀ two_ne_zero]
      push_cast
      ring

theorem div (hu : Stands u a) (hv : Stands v b) (hb : b ≠ 0) (h : Representable (a / b)) :
    Stands (UnpackedFloat.div .binary64 u v) (a / b) := by
  obtain ⟨hcu, hfu, rfl⟩ := hu
  obtain ⟨hcv, hfv, rfl⟩ := hv
  cases v with
  | notANumber | infinity s => cases hfv
  | zero s => exact absurd (exactValue_zero s) hb
  | finite s' n q hn =>
    cases u with
    | notANumber | infinity s => cases hfu
    | zero s =>
      rw [exactValue_zero, zero_div]
      exact ⟨trivial, rfl, rfl⟩
    | finite s m p hm =>
      have hdivisor : (0 : ℚ) < n * 2 ^ q := by positivity
      have habs : |exactValue (.finite s m p hm) / exactValue (.finite s' n q hn)|
          = m * 2 ^ p / (n * 2 ^ q) := by
        rw [abs_div, abs_exactValue, abs_exactValue]
      have hpos : (0 : ℚ) < m * 2 ^ p / (n * 2 ^ q) := by positivity
      obtain ⟨k, j, hc, hvalue⟩ := h.resolve_left (abs_pos.mp (habs ▸ hpos))
      rw [habs] at hvalue
      have hproduct : (m : ℚ) * 2 ^ p = n * 2 ^ q * (k * 2 ^ j) := by
        rw [← hvalue, mul_div_cancel₀ _ hdivisor.ne']
      have hround : UnpackedFloat.div .binary64 (.finite s m p hm) (.finite s' n q hn)
          = .finite (s / s') k j hc.pos := hc.divCore_exact hm hn hproduct (s / s')
      rw [hround]
      refine ⟨hc, rfl, ?_⟩
      rw [exactValue_eq_mul, exactValue_eq_mul, exactValue_eq_mul, apply_one_div, ← hvalue]
      exact (mul_div_mul_comm ..).symm

end Stands

namespace Double

variable {x y : Float} {a b : ℚ}

/-- A product that is a number is multiplied exactly. -/
theorem HasValue.mul (hx : HasValue x a) (hy : HasValue y b) (h : Representable (a * b)) :
    HasValue (x * y) (a * b) :=
  hasValue_pack (hx.stands.mul hy.stands h)

/-- A quotient that is a number is divided exactly. -/
theorem HasValue.div (hx : HasValue x a) (hy : HasValue y b) (hb : b ≠ 0)
    (h : Representable (a / b)) : HasValue (x / y) (a / b) :=
  hasValue_pack (hx.stands.div hy.stands hb h)

theorem hasValue_ofInt {n : ℤ} (h : n.natAbs ≤ 2 ^ 53) : HasValue (ofInt n) n := by
  have hone : (n.natAbs : ℚ) * 2 ^ (0 : ℤ) = n.natAbs := by rw [zpow_zero, mul_one]
  have hparts := hasValue_ofParts (n < 0) (m := n.natAbs) (q := 0)
    (by rw [hone]; exact representable_natCast h)
  have hvalue : (if decide (n < 0) then -((n.natAbs : ℚ) * 2 ^ (0 : ℤ))
      else (n.natAbs : ℚ) * 2 ^ (0 : ℤ)) = n := by
    rw [hone, Nat.cast_natAbs]
    by_cases hn : n < 0
    · rw [if_pos (decide_eq_true hn), abs_of_neg hn]
      push_cast
      ring
    · rw [if_neg (by simpa using hn), abs_of_nonneg (not_lt.mp hn)]
  rw [hvalue] at hparts
  exact hparts

/-- The integer part of a number is cut off towards zero. -/
theorem HasValue.truncate_cases (hx : HasValue x a) :
    (0 ≤ a ∧ Double.truncate x = ⌊a⌋₊) ∨ (a ≤ 0 ∧ Double.truncate x = -(⌊-a⌋₊ : ℤ)) := by
  obtain ⟨hparts, hneg, hpos⟩ := hx.parts
  rcases Bool.eq_false_or_eq_true (isNegative x) with hsign | hsign
  · have ha := hneg hsign
    rw [abs_of_nonpos ha] at hparts
    right
    rw [truncate_eq, if_pos hx.finite, if_pos hsign, wholeOf_fst, ← hparts]
    exact ⟨ha, rfl⟩
  · exact .inl ⟨hpos hsign, hx.truncate (hpos hsign)⟩

/-- It stays between whole numbers around the value, if zero is between them too. -/
theorem HasValue.truncate_between (hx : HasValue x a) {lo hi : ℤ} (hlo : lo ≤ a) (hhi : a ≤ hi)
    (hlo' : lo ≤ 0) (hhi' : 0 ≤ hi) : lo ≤ Double.truncate x ∧ Double.truncate x ≤ hi := by
  rcases hx.truncate_cases with ⟨ha, htrunc⟩ | ⟨ha, htrunc⟩ <;> rw [htrunc]
  · have hle : ((⌊a⌋₊ : ℤ) : ℚ) ≤ hi := by
      rw [Int.cast_natCast]
      exact (Nat.floor_le ha).trans hhi
    exact ⟨hlo'.trans (Int.natCast_nonneg _), by exact_mod_cast hle⟩
  · have hle : ((⌊-a⌋₊ : ℤ) : ℚ) ≤ -lo := by
      rw [Int.cast_natCast]
      exact (Nat.floor_le (by linarith)).trans (by linarith)
    have hle' : (⌊-a⌋₊ : ℤ) ≤ -lo := by exact_mod_cast hle
    omega

/-- Less than one is cut off. -/
theorem HasValue.abs_truncate_sub_lt (hx : HasValue x a) :
    |(Double.truncate x : ℚ) - a| < 1 := by
  rcases hx.truncate_cases with ⟨ha, htrunc⟩ | ⟨ha, htrunc⟩ <;> rw [htrunc, abs_lt]
  · have hle := Nat.floor_le ha
    have hlt := Nat.lt_floor_add_one a
    push_cast
    constructor <;> linarith
  · have hle := Nat.floor_le (neg_nonneg.mpr ha)
    have hlt := Nat.lt_floor_add_one (-a)
    push_cast
    constructor <;> linarith

end Double

end StackSynth
