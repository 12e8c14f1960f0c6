import StackSynth.Proofs.Number.Exact

/-!
# Remainders

The remainder of a division is exact, and what it takes off is a multiple of the divisor
(`HasValue.remainder`). What is smaller than the divisor is its own remainder, down to the sign of a
zero (`HasValue.remainder_eq`).

The remainder that is never negative is a sum where the division leaves a negative one, and a sum is
rounded. Rounding does not pass a number (`HasValue.add_le`): the sum is at most the divisor, but it
may be the divisor itself. Between whole numbers the sum is a number, and the remainder is that of
the integers (`HasValue.euclid_intCast`).
-/

namespace StackSynth

open Float.Model Float.Model.UnpackedFloat BinaryFormat

/-! ## Rounding does not pass a number -/

theorem mantissa_shiftRight (em : ExtendedMantissa) (k : Nat) :
    (em >>> k).mantissa = em.mantissa / 2 ^ k := by
  induction k with
  | zero => rw [pow_zero, Nat.div_one]; rfl
  | succ k ih =>
    change (em >>> k).mantissa / 2 = _
    rw [ih, Nat.div_div_eq_div_mul, ← Nat.pow_succ]

/-- A significand is rounded down, or up by one. -/
theorem roundedMantissa_bounds (em : ExtendedMantissa) :
    em.mantissa ≤ em.roundedMantissa ∧ em.roundedMantissa ≤ em.mantissa + 1 := by
  rw [ExtendedMantissa.roundedMantissa]
  generalize em.accuracy = accuracy
  cases accuracy with
  | exact => exact ⟨le_rfl, Nat.le_succ _⟩
  | inexact side =>
    cases side <;> simp only [Accuracy.roundToNearestEven] <;> omega

@[simp] theorem mantissa_ofMantissaAndAccuracy (m : Nat) (acc : Accuracy) :
    (ExtendedMantissa.ofMantissaAndAccuracy m acc).mantissa = m := by
  cases acc with
  | exact => rfl
  | inexact side => cases side <;> rfl

/-- A significand without its lowest bits, rounded. It may have been cut off before. -/
def rounded (m : Nat) (acc : Accuracy) (k : Nat) : Nat :=
  (ExtendedMantissa.ofMantissaAndAccuracy m acc >>> k).roundedMantissa

theorem rounded_le_of_lt {m n k : Nat} {acc : Accuracy} (h : m < n * 2 ^ k) :
    rounded m acc k ≤ n := by
  refine (roundedMantissa_bounds _).2.trans ?_
  rw [mantissa_shiftRight, mantissa_ofMantissaAndAccuracy]
  exact Nat.succ_le_of_lt ((Nat.div_lt_iff_lt_mul (Nat.two_pow_pos k)).mpr h)

theorem rounded_exact (n k : Nat) : rounded (n * 2 ^ k) .exact k = n :=
  congrArg ExtendedMantissa.roundedMantissa (shiftRight_exact n k)

theorem rounded_le {m n k : Nat} (h : m ≤ n * 2 ^ k) : rounded m .exact k ≤ n := by
  rcases Nat.lt_or_eq_of_le h with hlt | rfl
  · exact rounded_le_of_lt hlt
  · exact (rounded_exact n k).le

theorem le_rounded {m n k : Nat} {acc : Accuracy} (h : n * 2 ^ k ≤ m) : n ≤ rounded m acc k := by
  refine le_trans ?_ (roundedMantissa_bounds _).1
  rw [mantissa_shiftRight, mantissa_ofMantissaAndAccuracy]
  exact (Nat.le_div_iff_mul_le (Nat.two_pow_pos k)).mpr h

section

variable {m k : Nat} {e : ℤ} {acc : Accuracy}
  (htarget : Format.binary64.targetExponent (totalExponent m e) = e + k)

include htarget

theorem shiftToTargetExponent_eq : shiftToTargetExponent .binary64 m e acc
    = (ExtendedMantissa.ofMantissaAndAccuracy m acc >>> k, e + (k : ℤ)) := by
  rw [shiftToTargetExponent, htarget, shiftToExponent, add_sub_cancel_left, Int.toNat_natCast]

/-- The width of what is rounded fills the significand, unless the exponent is the least one. -/
theorem rounded_normal (hm : 0 < m) :
    rounded m acc k ≤ 2 ^ 53 ∧ (2 ^ 52 ≤ rounded m acc k ∨ e + k = -1074) := by
  rw [targetExponent_eq] at htarget
  refine ⟨rounded_le_of_lt (Nat.lt_log2_self.trans_le ?_), ?_⟩
  · rw [← Nat.pow_add]
    exact Nat.pow_le_pow_right two_pos (by omega)
  · rw [or_iff_not_imp_right]
    intro hleast
    refine le_rounded (le_trans ?_ (Nat.log2_self_le hm.ne'))
    rw [← Nat.pow_add]
    exact Nat.pow_le_pow_right two_pos (by omega)

/-- Rounding gives the number that the rounded significand makes at the exponent aimed at. -/
theorem roundWithAccuracy_eq (s : Sign) {n : Nat} {q : ℤ} (hc : Canonical n q)
    (h : (rounded m acc k : ℚ) * 2 ^ (e + (k : ℤ)) = n * 2 ^ q) (hle : e + k ≤ q) :
    roundWithAccuracy .binary64 s m e acc = .finite s n q hc.pos := by
  have hfinal := shiftToTargetExponent_exact hc h hle
  rw [rounded] at hfinal
  rw [roundWithAccuracy, shiftToTargetExponent_eq htarget]
  simp only [hfinal, dif_neg hc.pos.ne']

theorem roundWithAccuracy_zero (s : Sign) (h : rounded m acc k = 0) :
    roundWithAccuracy .binary64 s m e acc = .zero s := by
  have hfinal :
      (shiftToTargetExponent .binary64 (rounded m acc k) (e + k) .exact).1.mantissa = 0 := by
    rw [h]
    exact (mantissa_shiftRight _ _).trans (Nat.zero_div _)
  rw [rounded] at hfinal
  rw [roundWithAccuracy, shiftToTargetExponent_eq htarget]
  exact dif_pos hfinal

/-- The rounded significand is the result unless that is too great for a number. -/
theorem stands_roundWithAccuracy (s : Sign) (hwidth : rounded m acc k ≤ 2 ^ 53)
    (hnormal : 2 ^ 52 ≤ rounded m acc k ∨ e + k = -1074) (hmost : e + k ≤ 971)
    (hcarry : rounded m acc k = 2 ^ 53 → e + k < 971) :
    Stands (roundWithAccuracy .binary64 s m e acc)
      ((s.apply (rounded m acc k) : ℤ) * 2 ^ (e + (k : ℤ))) := by
  have hleast : -1074 ≤ e + (k : ℤ) := by
    rw [← htarget, targetExponent_eq]
    exact le_max_right _ _
  rcases Nat.eq_zero_or_pos (rounded m acc k) with hzero | hpos
  · have hsign : s.apply ((0 : Nat) : ℤ) = 0 := by cases s <;> rfl
    rw [roundWithAccuracy_zero htarget _ hzero, hzero, hsign, Int.cast_zero, zero_mul]
    exact ⟨trivial, rfl, rfl⟩
  rcases Nat.lt_or_eq_of_le hwidth with hlt | htop
  · have hc : Canonical (rounded m acc k) (e + k) := ⟨hpos, hlt, hleast, hmost, hnormal⟩
    rw [roundWithAccuracy_eq htarget _ hc rfl le_rfl]
    exact ⟨hc, rfl, rfl⟩
  · -- A carry out of the highest bit moves the significand by one place.
    have hc : Canonical (2 ^ 52) (e + k + 1) :=
      ⟨by decide, by decide, by omega, by have := hcarry htop; omega, .inl le_rfl⟩
    have hvalue : ∀ {a b : ℚ}, a = 2 * b → a * 2 ^ (e + (k : ℤ)) = b * 2 ^ (e + (k : ℤ) + 1) := by
      rintro a b rfl
      rw [zpow_add₀ two_ne_zero _ 1]
      ring
    rw [roundWithAccuracy_eq htarget _ hc (by rw [htop]; exact hvalue (by norm_num)) (by omega),
      htop]
    refine ⟨hc, rfl, ?_⟩
    cases s with
    | positive => exact (hvalue (by norm_num [Sign.apply])).symm
    | negative => exact (hvalue (by norm_num [Sign.apply])).symm

end

/-- A number stands at no lower exponent than what is rounded below it. -/
theorem BinaryFormat.Canonical.targetExponent_le {m n : Nat} {q e : ℤ} (hc : Canonical n q)
    (hm : 0 < m) (h : (m : ℚ) * 2 ^ e ≤ n * 2 ^ q) :
    Format.binary64.targetExponent (totalExponent m e) ≤ q := by
  obtain ⟨hlo, -⟩ := width_bounds hm e
  obtain ⟨-, hhi⟩ := width_bounds hc.pos q
  have hlt := (zpow_lt_zpow_iff_right₀ (one_lt_two (α := ℚ))).mp (hlo.trans_lt (h.trans_lt hhi))
  have hlog : n.log2 < 53 := (Nat.log2_lt hc.pos.ne').mpr hc.lt
  have hleast := hc.least_le
  rw [targetExponent_eq]
  omega

/-- What is not above a number rounds to its significand, and that is not above the number. -/
theorem stands_roundWithAccuracy_le {m n k : Nat} {e q : ℤ} (hc : Canonical n q) (hm : 0 < m)
    (hk : Format.binary64.targetExponent (totalExponent m e) = e + k)
    (h : (m : ℚ) * 2 ^ e ≤ n * 2 ^ q) :
    Stands (roundWithAccuracy .binary64 .positive m e .exact)
        (rounded m .exact k * 2 ^ (e + (k : ℤ))) ∧
      (rounded m .exact k : ℚ) * 2 ^ (e + (k : ℤ)) ≤ n * 2 ^ q := by
  have hq := hc.targetExponent_le hm h
  have hlt := hc.lt
  have hmost := hc.le_most
  rw [hk] at hq
  obtain ⟨j, rfl⟩ : ∃ j : Nat, q = e + k + j := ⟨(q - (e + k)).toNat, by omega⟩
  -- The number is a whole number of steps of the size that is rounded to.
  have hn : (n : ℚ) * 2 ^ (e + (k : ℤ) + j) = (n * 2 ^ j : Nat) * 2 ^ (e + (k : ℤ)) := by
    rw [zpow_add₀ two_ne_zero _ (j : ℤ), zpow_natCast]
    push_cast
    ring
  have hle : rounded m .exact k ≤ n * 2 ^ j := by
    refine rounded_le ?_
    have hscaled : (m : ℚ) * 2 ^ e ≤ (n * 2 ^ j * 2 ^ k : Nat) * 2 ^ e := by
      rw [hn, zpow_add₀ two_ne_zero, zpow_natCast] at h
      push_cast at h ⊢
      linarith
    exact_mod_cast le_of_mul_le_mul_right hscaled (by positivity)
  have hcarry : rounded m .exact k = 2 ^ 53 → e + k < 971 := by
    intro htop
    have hj : j ≠ 0 := by
      rintro rfl
      rw [pow_zero] at hle
      omega
    omega
  obtain ⟨hwidth, hnormal⟩ := rounded_normal hk hm
  have hstands := stands_roundWithAccuracy hk .positive hwidth hnormal (by omega) hcarry
  rw [Sign.apply, Int.cast_natCast] at hstands
  refine ⟨hstands, ?_⟩
  rw [hn]
  exact mul_le_mul_of_nonneg_right (by exact_mod_cast hle) (by positivity)

theorem roundWithAccuracy_le {m n k : Nat} {e q : ℤ} (hc : Canonical n q) (hm : 0 < m)
    (hk : Format.binary64.targetExponent (totalExponent m e) = e + k)
    (h : (m : ℚ) * 2 ^ e ≤ n * 2 ^ q) :
    ∃ w, Stands (roundWithAccuracy .binary64 .positive m e .exact) w ∧ 0 ≤ w ∧ w ≤ n * 2 ^ q := by
  obtain ⟨hstands, hle⟩ := stands_roundWithAccuracy_le hc hm hk h
  exact ⟨_, hstands, by positivity, hle⟩

/-- Before a number is rounded its exponent is lowered to the one aimed at, or below that. -/
theorem exists_round_eq (s : Sign) {m : Nat} (hm : 0 < m) (e : ℤ) : ∃ (m' k : Nat) (e' : ℤ),
    UnpackedFloat.round .binary64 s m e = roundWithAccuracy .binary64 s m' e' .exact ∧ 0 < m' ∧
    (m' : ℚ) * 2 ^ e' = m * 2 ^ e ∧
    Format.binary64.targetExponent (totalExponent m' e') = e' + k := by
  rw [UnpackedFloat.round]
  simp only [decreaseExponent, Nat.shiftLeft_eq]
  generalize hj : (e - Format.binary64.targetExponent (totalExponent m e)).toNat = j
  have hwidth : (m * 2 ^ j).log2 = m.log2 + j := by
    refine (Nat.log2_eq_iff (by positivity)).mpr ⟨?_, ?_⟩
    · rw [Nat.pow_add]
      exact Nat.mul_le_mul_right _ (Nat.log2_self_le hm.ne')
    · rw [Nat.add_right_comm, Nat.pow_add]
      exact Nat.mul_lt_mul_of_pos_right Nat.lt_log2_self (Nat.two_pow_pos j)
  have hle : e - j ≤ Format.binary64.targetExponent (totalExponent (m * 2 ^ j) (e - j)) := by
    rw [targetExponent_eq] at hj ⊢
    omega
  obtain ⟨k, hk⟩ := Int.eq_ofNat_of_zero_le (sub_nonneg.mpr hle)
  refine ⟨m * 2 ^ j, k, e - j, rfl, by positivity, ?_, by omega⟩
  rw [Nat.cast_mul, Nat.cast_pow, Nat.cast_ofNat, zpow_sub₀ two_ne_zero, zpow_natCast,
    mul_assoc, mul_div_cancel₀ _ (by positivity)]

theorem round_le {m n : Nat} {e q : ℤ} (hc : Canonical n q) (hm : 0 < m)
    (h : (m : ℚ) * 2 ^ e ≤ n * 2 ^ q) :
    ∃ w, Stands (UnpackedFloat.round .binary64 .positive m e) w ∧ 0 ≤ w ∧ w ≤ n * 2 ^ q := by
  obtain ⟨m', k, e', hround, hm', hvalue, hk⟩ := exists_round_eq .positive hm e
  rw [hround]
  exact roundWithAccuracy_le hc hm' hk (hvalue.trans_le h)

theorem normalize_le {m : ℤ} {n : Nat} {e q : ℤ} (hc : Canonical n q)
    (hnonneg : 0 ≤ (m : ℚ) * 2 ^ e) (h : (m : ℚ) * 2 ^ e ≤ n * 2 ^ q) :
    ∃ w, Stands (UnpackedFloat.normalize .binary64 m e .positive) w ∧ 0 ≤ w ∧ w ≤ n * 2 ^ q := by
  have hm : 0 ≤ m := by exact_mod_cast nonneg_of_mul_nonneg_left hnonneg (by positivity)
  rcases hm.eq_or_lt with rfl | hm
  · exact ⟨0, ⟨trivial, rfl, rfl⟩, le_rfl, by positivity⟩
  · rw [UnpackedFloat.normalize, compare_gt_iff_gt.mpr hm]
    refine round_le hc (by omega) ?_
    rwa [← Int.cast_natCast, Int.toNat_of_nonneg hm.le]

/-- A sum that is not negative and not above a number is not rounded to anything above it. -/
theorem Stands.add_le {u v : UnpackedFloat} {a b : ℚ} (hu : Stands u a) (hv : Stands v b)
    (hnonneg : 0 ≤ a + b) {n : Nat} {q : ℤ} (hc : Canonical n q) (h : a + b ≤ n * 2 ^ q) :
    ∃ w, Stands (UnpackedFloat.add .binary64 u v) w ∧ 0 ≤ w ∧ w ≤ n * 2 ^ q := by
  rcases hu.add_cases hv with hsum | ⟨m, e, hvalue, hsum⟩
  · exact ⟨_, hsum, hnonneg, h⟩
  · rw [hvalue] at hnonneg h
    rw [hsum]
    exact normalize_le hc hnonneg h

namespace Double

/-- A magnitude as a multiple of a smaller power of two. -/
theorem scale_eq {m : Nat} {q e : ℤ} (h : e ≤ q) :
    ((m * 2 ^ (q - e).toNat : Nat) : ℚ) * 2 ^ e = m * 2 ^ q := by
  obtain ⟨k, rfl⟩ : ∃ k : Nat, q = e + k := ⟨(q - e).toNat, by omega⟩
  rw [add_sub_cancel_left, Int.toNat_natCast, zpow_add₀ two_ne_zero, zpow_natCast]
  push_cast
  ring

/-- The dividend gives its sign to the rest, and the quotient takes what is left of the signs. -/
theorem exists_quotient {a b rest : ℚ} {d : Nat} {negative : Bool} (h : |a| = d * |b| + rest)
    (hneg : negative = true → a ≤ 0) (hpos : negative = false → 0 ≤ a) :
    ∃ q : ℤ, a = q * b + if negative then -rest else rest := by
  obtain ⟨q, hq⟩ : ∃ q : ℤ, (d : ℚ) * |b| = q * b := by
    rcases abs_choice b with hb | hb <;> rw [hb]
    · exact ⟨d, by rw [Int.cast_natCast]⟩
    · exact ⟨-d, by push_cast; ring⟩
  rw [hq] at h
  cases negative with
  | false =>
    rw [abs_of_nonneg (hpos rfl)] at h
    exact ⟨q, h⟩
  | true =>
    rw [abs_of_nonpos (hneg rfl)] at h
    exact ⟨-q, by rw [if_pos rfl, Int.cast_neg]; linarith only [h]⟩

namespace HasValue

variable {x y z : Float} {a b c : ℚ} (hx : HasValue x a) (hy : HasValue y b)

include hx

theorem add_le (hy : HasValue y b) (hz : HasValue z c) (hnonneg : 0 ≤ a + b) (hpos : 0 < c)
    (hle : a + b ≤ c) : ∃ w, HasValue (x + y) w ∧ 0 ≤ w ∧ w ≤ c := by
  obtain ⟨m, q, hc, hvalue⟩ := hz.representable.resolve_left hpos.ne'
  rw [abs_of_pos hpos] at hvalue
  rw [hvalue] at hle ⊢
  obtain ⟨w, hw, hbounds⟩ := hx.stands.add_le hy.stands hnonneg hc hle
  exact ⟨w, hasValue_pack hw, hbounds⟩

theorem abs : HasValue x.abs |a| := by
  refine hasValue_pack (u := x.toModel.unpack.abs) ?_
  rcases hx.unpack_cases with ⟨s, hu, rfl⟩ | ⟨s, m, e, hm, hu, hc, rfl⟩
  · rw [hu, abs_zero]
    exact ⟨trivial, rfl, rfl⟩
  · rw [hu, abs_exactValue]
    exact ⟨hc, rfl, exactValue_positive hm⟩

theorem sub_same : x - x = 0 := by
  have hdiff : UnpackedFloat.sub .binary64 x.toModel.unpack x.toModel.unpack = .zero .positive := by
    rcases hx.unpack_cases with ⟨s, hu, -⟩ | ⟨s, m, e, hm, hu, -, -⟩
    · rw [hu]
      cases s <;> rfl
    · rw [hu]
      change UnpackedFloat.normalize .binary64 (_ - _) _ .positive = _
      rw [Int.sub_self]
      rfl
  exact congrArg (Float.ofModel ∘ Float.Model.pack) hdiff

theorem parts_bounds :
    (Double.parts x).1 < 2 ^ 53 ∧ -1074 ≤ (Double.parts x).2 ∧ (Double.parts x).2 ≤ 971 := by
  rcases hx.unpack_cases with ⟨s, hu, -⟩ | ⟨s, m, e, hm, hu, hc, -⟩
  · rw [(parts_of_unpack_zero hu).1]
    decide
  · rw [(parts_of_unpack hu).1]
    exact ⟨hc.lt, hc.least_le, hc.le_most⟩

include hy

/-- Both operands are written as multiples of the smaller of their units, and the whole numbers are
divided. -/
theorem exists_remainder_eq (hb : b ≠ 0) : ∃ (m n : Nat) (unit : ℤ), |a| = m * 2 ^ unit ∧
    |b| = n * 2 ^ unit ∧ Representable ((m % n : Nat) * 2 ^ unit) ∧
    Double.remainder x y = ofParts (isNegative x) (m % n) unit := by
  obtain ⟨hm, hq, hq'⟩ := hx.parts_bounds
  obtain ⟨hn, hr, hr'⟩ := hy.parts_bounds
  have ha := hx.parts.1
  have hb' := hy.parts.1
  rcases hpx : Double.parts x with ⟨m, q⟩
  rcases hpy : Double.parts y with ⟨n, r⟩
  rw [hpx] at hm hq hq' ha
  rw [hpy] at hn hr hr' hb'
  dsimp only at hm hq hq' ha hn hr hr' hb'
  have hrest : Double.remainder x y = ofParts (isNegative x)
      (m * 2 ^ (q - min q r).toNat % (n * 2 ^ (r - min q r).toNat)) (min q r) := by
    have hzero : (y == 0) = false := by
      rw [Bool.eq_false_iff, ne_eq, hy.beq_iff hasValue_zero]
      exact hb
    rw [Double.remainder, if_neg, if_neg, hpx, hpy]
    · rfl
    · rw [hy.finite]
      decide
    · rw [hx.isNaN, hy.isNaN, hx.finite, hzero]
      decide
  refine ⟨_, _, _, ?_, ?_, ?_, hrest⟩
  · rw [ha, scale_eq (min_le_left q r)]
  · rw [hb', scale_eq (min_le_right q r)]
  -- The rest is no wider than the operand of the smaller unit.
  · generalize hrest : m * 2 ^ (q - min q r).toNat % (n * 2 ^ (r - min q r).toNat) = rest
    have hpos : (0 : ℚ) ≤ rest * 2 ^ min q r := by positivity
    have hlt : rest < 2 ^ 53 := by
      rcases le_total q r with hle | hle
      · rw [min_eq_left hle, sub_self, Int.toNat_zero, pow_zero, Nat.mul_one] at hrest
        exact (hrest ▸ Nat.mod_le _ _).trans_lt hm
      · have hpos : 0 < n := by
          refine Nat.pos_of_ne_zero ?_
          rintro rfl
          simp [hb] at hb'
        rw [min_eq_right hle, sub_self, Int.toNat_zero, pow_zero, Nat.mul_one] at hrest
        exact (hrest ▸ Nat.mod_lt _ hpos).trans hn
    exact representable_of_lt (abs_of_nonneg hpos) hlt (by omega) (by omega)

/-- What the remainder takes off is a multiple of the divisor. -/
theorem remainder (hb : b ≠ 0) : ∃ r, HasValue (Double.remainder x y) r ∧ |r| < |b| ∧
    (0 ≤ a → 0 ≤ r) ∧ ∃ q : ℤ, a = q * b + r := by
  obtain ⟨m, n, unit, ha, hb', hrest, heq⟩ := hx.exists_remainder_eq hy hb
  have hpos : (0 : ℚ) < 2 ^ unit := by positivity
  have hn : 0 < n := by
    refine Nat.pos_of_ne_zero ?_
    rintro rfl
    simp [hb] at hb'
  have hlt : ((m % n : Nat) : ℚ) * 2 ^ unit < |b| := by
    rw [hb']
    exact mul_lt_mul_of_pos_right (by exact_mod_cast Nat.mod_lt m hn) hpos
  have hquotient : |a| = (m / n : Nat) * |b| + (m % n : Nat) * 2 ^ unit := by
    rw [ha, hb', ← mul_assoc, ← add_mul, ← Nat.cast_mul, ← Nat.cast_add,
      Nat.div_add_mod']
  rw [heq]
  refine ⟨_, hasValue_ofParts _ hrest, ?_, fun hnonneg ↦ ?_, ?_⟩
  · rw [← abs_of_nonneg (by positivity : 0 ≤ ((m % n : Nat) : ℚ) * 2 ^ unit)] at hlt
    split
    next => rwa [abs_neg]
    next => exact hlt
  · split
    next hnegative =>
      obtain rfl : a = 0 := le_antisymm (hx.parts.2.1 hnegative) hnonneg
      obtain rfl : m = 0 := by simpa [hpos.ne'] using ha
      simp
    next => positivity
  · exact exists_quotient hquotient hx.parts.2.1 hx.parts.2.2

/-- What is smaller than the divisor is its own remainder. -/
theorem remainder_eq (h : |a| < |b|) : Double.remainder x y = x := by
  have hb : b ≠ 0 := abs_pos.mp ((abs_nonneg a).trans_lt h)
  obtain ⟨m, n, unit, ha, hb', -, heq⟩ := hx.exists_remainder_eq hy hb
  have hlt : m < n := by
    rw [ha, hb'] at h
    exact_mod_cast lt_of_mul_lt_mul_right h (by positivity)
  rw [heq, Nat.mod_eq_of_lt hlt]
  exact hx.ofParts_eq ha.symm

end HasValue

/-! ## Remainders that are not negative -/

section

variable {x y : Float} {a b : ℚ} (hx : HasValue x a) (hy : HasValue y b)

include hx hy

/-- The remainder lies between zero and the divisor, and reaches it only from below zero. -/
theorem HasValue.euclid (hb : 0 < b) :
    ∃ r, HasValue (Double.euclid x y) r ∧ 0 ≤ r ∧ r ≤ b ∧ (0 ≤ a → r < b) := by
  obtain ⟨r, hr, hlt, hnonneg, -⟩ := hx.remainder hy hb.ne'
  rw [abs_of_pos hb, abs_lt] at hlt
  rw [Double.euclid]
  by_cases hneg : r < 0
  · rw [if_pos ((hr.lt_iff hasValue_zero).mpr hneg)]
    have hy' := hy.abs
    rw [abs_of_pos hb] at hy'
    obtain ⟨w, hw, hw0, hwb⟩ := hr.add_le hy' hy (by linarith) hb (by linarith)
    exact ⟨w, hw, hw0, hwb, fun ha ↦ absurd (hnonneg ha) hneg.not_ge⟩
  · rw [if_neg (by rwa [hr.lt_iff hasValue_zero])]
    exact ⟨r, hr, not_lt.mp hneg, hlt.2.le, fun _ ↦ hlt.2⟩

/-- What lies between zero and the divisor stays as it is, down to the sign of a zero. -/
theorem HasValue.euclid_eq (ha : 0 ≤ a) (hlt : a < b) : Double.euclid x y = x := by
  have hremainder : Double.remainder x y = x := by
    refine hx.remainder_eq hy ?_
    rwa [abs_of_nonneg ha, abs_of_nonneg (ha.trans hlt.le)]
  rw [Double.euclid, hremainder]
  exact if_neg (by rw [hx.lt_iff hasValue_zero]; exact not_lt.mpr ha)

omit hx in
/-- The divisor leaves no remainder. -/
theorem HasValue.euclid_self (hb : 0 < b) : Double.euclid y y = 0 := by
  have hremainder : Double.remainder y y = 0 := by
    obtain ⟨m, n, unit, hm, hn, -, heq⟩ := hy.exists_remainder_eq hy hb.ne'
    obtain rfl : m = n := by
      rw [hm] at hn
      exact_mod_cast mul_right_cancel₀ (by positivity) hn
    have hpositive : isNegative y = false :=
      Bool.eq_false_iff.mpr fun hnegative ↦ hb.not_ge (hy.parts.2.1 hnegative)
    rw [heq, Nat.mod_self, hpositive]
    exact hasValue_zero.ofParts_eq (by simp)
  rw [Double.euclid, hremainder]
  rfl

end

/-- Between whole numbers it is the remainder of the division of integers, if all the remainders are
numbers. -/
theorem HasValue.euclid_intCast {x y : Float} {n : ℤ} {size : Nat} (hx : HasValue x n)
    (hy : HasValue y size) (hpos : 0 < size) (hle : size ≤ 2 ^ 53) :
    HasValue (Double.euclid x y) (n % size : ℤ) := by
  have hsize : (size : ℚ) ≠ 0 := by exact_mod_cast hpos.ne'
  obtain ⟨r, hr, hlt, -, q, hq⟩ := hx.remainder hy hsize
  obtain ⟨k, rfl⟩ : ∃ k : ℤ, r = k := ⟨n - q * size, by push_cast; linarith⟩
  have hn : n = q * size + k := by exact_mod_cast hq
  have hk : |k| < size := by
    rw [Nat.abs_cast] at hlt
    exact_mod_cast hlt
  rw [abs_lt] at hk
  rw [Double.euclid]
  split
  next hneg =>
    rw [hr.lt_iff hasValue_zero, Int.cast_lt_zero] at hneg
    have hmod : n % size = k + size :=
      ((Int.ediv_emod_unique (q := q - 1) (by omega)).mpr ⟨by rw [hn]; ring, by omega, by omega⟩).2
    obtain ⟨j, hj⟩ : ∃ j : Nat, k + size = j := ⟨(k + size).toNat, by omega⟩
    have hsum : (k : ℚ) + |(size : ℚ)| = j := by
      rw [Nat.abs_cast]
      exact_mod_cast hj
    have hadd := hr.add hy.abs (by rw [hsum]; exact representable_natCast (by omega))
    rwa [hsum, ← Int.cast_natCast, ← hj, ← hmod] at hadd
  next hnonneg =>
    rw [hr.lt_iff hasValue_zero, Int.cast_lt_zero] at hnonneg
    have hmod : n % size = k :=
      ((Int.ediv_emod_unique (q := q) (by omega)).mpr ⟨by rw [hn]; ring, by omega, by omega⟩).2
    rwa [hmod]

end Double

end StackSynth
