import StackSynth.Proofs.Number.Remainder

/-!
# Results that stay finite

Rounding leaves the finite numbers from half a step above the greatest one on (`overflowBound`), so
that a finite number and a fraction have a finite sum, however great the number is
(`HasValue.exists_add_fraction`). A quotient by what is at least one is not above its dividend. The
significand it is rounded from was cut off, but a division that reaches the greatest number leaves
nothing behind, so that no quotient is rounded up to an infinity (`isFinite_div`).

What is not finite stays so.
-/

namespace StackSynth

open Float.Model Float.Model.UnpackedFloat BinaryFormat

/-! ## Below half-way -/

theorem roundedMantissa_of_roundBit {em : ExtendedMantissa} (h : em.roundBit = false) :
    em.roundedMantissa = em.mantissa := by
  obtain ⟨m, r, s⟩ := em
  obtain rfl : r = false := h
  cases s <;> rfl

/-- What is below half a step above a significand is not rounded to anything above it. -/
theorem rounded_le_of_lt_half {m n k : Nat} (h : 2 * m < (2 * n + 1) * 2 ^ k) :
    rounded m .exact k ≤ n := by
  cases k with
  | zero => exact rounded_le (by omega)
  | succ k =>
    rcases Nat.lt_or_ge m (n * 2 ^ (k + 1)) with hlt | hge
    · exact rounded_le_of_lt hlt
    · rw [Nat.pow_succ, ← Nat.mul_assoc, Nat.mul_comm 2 m] at h
      rw [Nat.pow_succ', ← Nat.mul_assoc, Nat.mul_comm n] at hge
      have hbits : m / 2 ^ k = 2 * n :=
        Nat.div_eq_of_lt_le hge (Nat.lt_of_mul_lt_mul_right h)
      -- The bit behind the significand is zero.
      have hshift : ((⟨m, false, false⟩ : ExtendedMantissa) >>> k).mantissa = 2 * n := by
        rw [mantissa_shiftRight, hbits]
      have hbit : ((⟨m, false, false⟩ : ExtendedMantissa) >>> (k + 1)).roundBit = false := by
        change (((⟨m, false, false⟩ : ExtendedMantissa) >>> k).mantissa % 2 != 0) = false
        rw [hshift, Nat.mul_mod_right]
        rfl
      refine (roundedMantissa_of_roundBit hbit).trans_le ?_
      rw [mantissa_shiftRight, Nat.pow_succ, ← Nat.div_div_eq_div_mul, hbits,
        Nat.mul_div_cancel_left n two_pos]

/-! ## Overflow -/

/-- The greatest finite number. -/
def largestFinite : ℚ := (2 ^ 53 - 1) * 2 ^ (971 : ℤ)

/-- Where rounding leaves the finite numbers, half a step above the greatest one. -/
def overflowBound : ℚ := (2 ^ 54 - 1) * 2 ^ (970 : ℤ)

theorem overflowBound_eq : overflowBound = largestFinite + 2 ^ (970 : ℤ) := by
  rw [overflowBound, largestFinite, show (971 : ℤ) = 970 + 1 by rfl, zpow_add_one₀ two_ne_zero]
  ring

theorem largestFinite_lt : largestFinite < 2 ^ (1024 : ℤ) := by
  have hpos : (0 : ℚ) < 2 ^ (971 : ℤ) := by positivity
  rw [largestFinite, show (1024 : ℤ) = 53 + 971 by rfl, zpow_add₀ two_ne_zero]
  exact mul_lt_mul_of_pos_right (by norm_num) hpos

theorem overflowBound_lt : overflowBound < 2 ^ (1024 : ℤ) := by
  have hpos : (0 : ℚ) < 2 ^ (970 : ℤ) := by positivity
  rw [overflowBound, show (1024 : ℤ) = 54 + 970 by rfl, zpow_add₀ two_ne_zero]
  exact mul_lt_mul_of_pos_right (by norm_num) hpos

theorem BinaryFormat.Canonical.le_largestFinite {m : Nat} {q : ℤ} (hc : Canonical m q) :
    (m : ℚ) * 2 ^ q ≤ largestFinite := by
  have hm : (m : ℚ) ≤ 2 ^ 53 - 1 := by
    rw [le_sub_iff_add_le]
    exact_mod_cast hc.lt
  exact mul_le_mul hm (zpow_le_zpow_right₀ one_le_two hc.le_most) (by positivity) (by norm_num)

/-- Rounding ends at a number if the highest bit stays below `2 ^ 1024` and nothing is carried out
of the significand at the greatest exponent. -/
theorem exists_stands_of_carry (s : Sign) {m k : Nat} {e : ℤ} {acc : Accuracy}
    (hk : Format.binary64.targetExponent (totalExponent m e) = e + k)
    (hwide : 0 < m → e + m.log2 < 1024) (hzero : m = 0 → e + k = -1074)
    (hcarry : e + k = 971 → rounded m acc k ≤ 2 ^ 53 - 1) :
    ∃ w, Stands (roundWithAccuracy .binary64 s m e acc) w := by
  have hfits : rounded m acc k ≤ 2 ^ 53 ∧ (2 ^ 52 ≤ rounded m acc k ∨ e + k = -1074) := by
    rcases Nat.eq_zero_or_pos m with rfl | hm
    · exact ⟨rounded_le_of_lt (by positivity), .inr (hzero rfl)⟩
    · exact rounded_normal hk hm
  have hmost : e + k ≤ 971 := by
    rcases Nat.eq_zero_or_pos m with hm | hm
    · rw [hzero hm]
      decide
    · have hlt := hwide hm
      rw [← hk, targetExponent_eq]
      omega
  refine ⟨_, stands_roundWithAccuracy hk s hfits.1 hfits.2 hmost fun htop ↦ ?_⟩
  refine lt_of_le_of_ne hmost fun hlast ↦ ?_
  have hle := hcarry hlast
  omega

theorem exists_stands_roundWithAccuracy (s : Sign) {m k : Nat} {e : ℤ} (hm : 0 < m)
    (hk : Format.binary64.targetExponent (totalExponent m e) = e + k)
    (h : (m : ℚ) * 2 ^ e < overflowBound) :
    ∃ w, Stands (roundWithAccuracy .binary64 s m e .exact) w := by
  have hlt : e + m.log2 < 1024 := (zpow_lt_zpow_iff_right₀ (one_lt_two (α := ℚ))).mp
    ((width_bounds hm e).1.trans_lt (h.trans overflowBound_lt))
  refine exists_stands_of_carry s hk (fun _ ↦ hlt) (fun hzero ↦ absurd hzero hm.ne') fun hlast ↦ ?_
  obtain rfl : e = 971 - k := by omega
  refine rounded_le_of_lt_half ?_
  have hpos : (0 : ℚ) < 2 ^ (971 - k : ℤ) := by positivity
  have hstep : (2 : ℚ) ^ k * 2 ^ (971 - k : ℤ) = 2 * 2 ^ (970 : ℤ) := by
    rw [← zpow_natCast, ← zpow_add₀ two_ne_zero, ← zpow_one_add₀ two_ne_zero]
    congr 1
    omega
  have hscaled : ((2 * m : Nat) : ℚ) * 2 ^ (971 - k : ℤ)
      < ((2 * (2 ^ 53 - 1) + 1) * 2 ^ k : Nat) * 2 ^ (971 - k : ℤ) := by
    rw [overflowBound] at h
    push_cast
    rw [mul_assoc _ ((2 : ℚ) ^ k), hstep]
    linarith only [h]
  exact_mod_cast lt_of_mul_lt_mul_right hscaled hpos.le

theorem exists_stands_normalize {m e : ℤ} (h : |(m : ℚ) * 2 ^ e| < overflowBound) :
    ∃ w, Stands (UnpackedFloat.normalize .binary64 m e .positive) w := by
  have hround : ∀ (s : Sign) {n : Nat}, 0 < n → |(m : ℚ)| = n →
      ∃ w, Stands (UnpackedFloat.round .binary64 s n e) w := by
    intro s n hn habs
    obtain ⟨n', k, e', hround, hn', hvalue, hk⟩ := exists_round_eq s hn e
    rw [abs_mul, abs_of_pos (by positivity : (0 : ℚ) < 2 ^ e), habs, ← hvalue] at h
    rw [hround]
    exact exists_stands_roundWithAccuracy s hn' hk h
  rw [UnpackedFloat.normalize]
  rcases lt_trichotomy m 0 with hm | rfl | hm
  · rw [compare_lt_iff_lt.mpr hm]
    refine hround .negative (by omega) ?_
    rw [abs_of_neg (by exact_mod_cast hm)]
    exact_mod_cast (Int.toNat_of_nonneg (by omega : 0 ≤ -m)).symm
  · exact ⟨0, trivial, rfl, rfl⟩
  · rw [compare_gt_iff_gt.mpr hm]
    refine hround .positive (by omega) ?_
    rw [abs_of_pos (by exact_mod_cast hm)]
    exact_mod_cast (Int.toNat_of_nonneg hm.le).symm

theorem Stands.exists_add {u v : UnpackedFloat} {a b : ℚ} (hu : Stands u a) (hv : Stands v b)
    (h : |a + b| < overflowBound) : ∃ w, Stands (UnpackedFloat.add .binary64 u v) w := by
  rcases hu.add_cases hv with hsum | ⟨m, e, hvalue, hsum⟩
  · exact ⟨_, hsum⟩
  · rw [hvalue] at h
    rw [hsum]
    exact exists_stands_normalize h

/-! ## Quotients -/

/-- A quotient is divided out as far as its significand needs it, and what is left decides about the
bits behind. -/
theorem exists_divCore_eq {m n : Nat} (hm : 0 < m) (hn : 0 < n) (p q : ℤ) :
    ∃ (c r : Nat) (t : ℤ), divCore .binary64 m p n q = (c, t, accuracyOfFraction r n) ∧
      r < n ∧ ((n * c + r : Nat) : ℚ) * 2 ^ (t + q) = m * 2 ^ p ∧ (t ≤ -1074 ∨ 2 ^ 52 ≤ c) := by
  have htarget : Format.binary64.targetExponent (totalExponent m p - totalExponent n q)
      = max ((m.log2 + 1 + p) - (n.log2 + 1 + q) - 53) (-1074) := rfl
  simp only [divCore, Nat.shiftLeft_eq, htarget]
  generalize ht : min (p - q) (max ((m.log2 + 1 + p) - (n.log2 + 1 + q) - 53) (-1074)) = t
  obtain ⟨d, hd⟩ : ∃ d : Nat, p - q - t = d := ⟨(p - q - t).toNat, by omega⟩
  rw [hd, Int.toNat_natCast]
  refine ⟨_, _, _, rfl, Nat.mod_lt _ hn, ?_, or_iff_not_imp_left.mpr fun hgreat ↦ ?_⟩
  · obtain rfl : p = d + (t + q) := by omega
    rw [Nat.div_add_mod, zpow_add₀ two_ne_zero (d : ℤ), zpow_natCast]
    push_cast
    ring
  · have hshift : n.log2 + 1 + 52 ≤ m.log2 + d := by omega
    rw [Nat.le_div_iff_mul_le hn]
    calc 2 ^ 52 * n ≤ 2 ^ 52 * 2 ^ (n.log2 + 1) := Nat.mul_le_mul_left _ Nat.lt_log2_self.le
      _ = 2 ^ (n.log2 + 1 + 52) := by rw [← Nat.pow_add, Nat.add_comm]
      _ ≤ 2 ^ (m.log2 + d) := Nat.pow_le_pow_right two_pos hshift
      _ = 2 ^ m.log2 * 2 ^ d := Nat.pow_add ..
      _ ≤ m * 2 ^ d := Nat.mul_le_mul_right _ (Nat.log2_self_le hm.ne')

section

variable {n c r k : Nat} {t : ℤ} (hn : 0 < n)
  (hmost : ((n * c + r : Nat) : ℚ) * 2 ^ t ≤ n * largestFinite)

include hn hmost

theorem quotient_le : (c : ℚ) * 2 ^ t ≤ largestFinite := by
  refine le_of_mul_le_mul_left ?_ (by exact_mod_cast hn : (0 : ℚ) < n)
  refine le_trans ?_ hmost
  rw [← mul_assoc]
  exact mul_le_mul_of_nonneg_right (by push_cast; linarith) (by positivity)

/-- A division that reaches the greatest number leaves nothing behind. -/
theorem rounded_quotient_le (hk : t + k = 971) :
    rounded c (accuracyOfFraction r n) k ≤ 2 ^ 53 - 1 := by
  obtain rfl : t = 971 - k := by omega
  have hle : n * c + r ≤ n * ((2 ^ 53 - 1) * 2 ^ k) := by
    have hstep : (2 : ℚ) ^ (971 : ℤ) = 2 ^ k * 2 ^ (971 - k : ℤ) := by
      rw [← zpow_natCast, ← zpow_add₀ two_ne_zero, add_sub_cancel]
    have hscaled : ((n * c + r : Nat) : ℚ) * 2 ^ (971 - k : ℤ)
        ≤ (n * ((2 ^ 53 - 1) * 2 ^ k) : Nat) * 2 ^ (971 - k : ℤ) := by
      refine hmost.trans_eq ?_
      rw [largestFinite, hstep]
      push_cast
      ring
    exact_mod_cast le_of_mul_le_mul_right hscaled (by positivity)
  rcases Nat.lt_or_ge c ((2 ^ 53 - 1) * 2 ^ k) with hlt | hge
  · exact rounded_le_of_lt hlt
  · have hreached := Nat.mul_le_mul_left n hge
    obtain rfl : r = 0 := by omega
    obtain rfl : c = (2 ^ 53 - 1) * 2 ^ k :=
      Nat.le_antisymm (Nat.le_of_mul_le_mul_left hle hn) hge
    rw [accuracyOfFraction, if_pos rfl, rounded_exact]

end

/-- A quotient of numbers is finite if the divisor is at least one. -/
theorem exists_stands_divCore (s : Sign) {m n : Nat} {p q : ℤ} (hm : Canonical m p)
    (hn : Canonical n q) (hone : 1 ≤ (n : ℚ) * 2 ^ q) :
    ∃ w, Stands (roundWithAccuracy .binary64 s (divCore .binary64 m p n q).1
      (divCore .binary64 m p n q).2.1 (divCore .binary64 m p n q).2.2) w := by
  obtain ⟨c, r, t, hcore, -, hvalue, hbits⟩ := exists_divCore_eq hm.pos hn.pos p q
  rw [hcore]
  dsimp only
  have hmost : ((n * c + r : Nat) : ℚ) * 2 ^ t ≤ n * largestFinite := by
    have hpos : 0 ≤ largestFinite := le_trans (by positivity) hm.le_largestFinite
    refine le_of_mul_le_mul_right ?_ (by positivity : (0 : ℚ) < 2 ^ q)
    calc ((n * c + r : Nat) : ℚ) * 2 ^ t * 2 ^ q
        = ((n * c + r : Nat) : ℚ) * 2 ^ (t + q) := by rw [mul_assoc, zpow_add₀ two_ne_zero]
      _ ≤ largestFinite := hvalue.trans_le hm.le_largestFinite
      _ ≤ n * 2 ^ q * largestFinite := le_mul_of_one_le_left hpos hone
      _ = n * largestFinite * 2 ^ q := mul_right_comm ..
  have hwide : 0 < c → t + c.log2 < 1024 := fun hc ↦
    (zpow_lt_zpow_iff_right₀ (one_lt_two (α := ℚ))).mp ((width_bounds hc t).1.trans_lt
      ((quotient_le hn.pos hmost).trans_lt largestFinite_lt))
  have hzero : c = 0 → c.log2 = 0 ∧ t ≤ -1074 := by
    rintro rfl
    exact ⟨rfl, hbits.resolve_right (by decide)⟩
  have hlog : 2 ^ 52 ≤ c → 52 ≤ c.log2 := fun hc ↦ (Nat.le_log2 (by omega)).mpr hc
  obtain ⟨k, hk⟩ : ∃ k : Nat, Format.binary64.targetExponent (totalExponent c t) = t + k := by
    rw [targetExponent_eq]
    exact ⟨(max (c.log2 + 1 + t - 53) (-1074) - t).toNat, by omega⟩
  refine exists_stands_of_carry s hk hwide (fun hc ↦ ?_) (rounded_quotient_le hn.pos hmost)
  rw [← hk, targetExponent_eq]
  omega

theorem Stands.exists_div {u v : UnpackedFloat} {a b : ℚ} (hu : Stands u a) (hv : Stands v b)
    (hone : 1 ≤ |b|) : ∃ w, Stands (UnpackedFloat.div .binary64 u v) w := by
  obtain ⟨hcu, hfu, rfl⟩ := hu
  obtain ⟨hcv, hfv, rfl⟩ := hv
  cases v with
  | notANumber | infinity s => cases hfv
  | zero s =>
    rw [exactValue_zero, abs_zero] at hone
    exact absurd hone (by norm_num)
  | finite s n q hn =>
    rw [abs_exactValue] at hone
    cases u with
    | notANumber | infinity s' => cases hfu
    | zero s' => exact ⟨0, trivial, rfl, rfl⟩
    | finite s' m p hm => exact exists_stands_divCore (s' / s) hcu hcv hone

/-! ## What is not finite -/

theorem canonical_of_not_finite {u : UnpackedFloat} (h : u.isFinite = false) : IsCanonical u := by
  cases u with
  | finite s m e hm => cases h
  | _ => trivial

theorem add_not_finite {u v : UnpackedFloat} (h : u.isFinite = false ∨ v.isFinite = false) :
    (UnpackedFloat.add .binary64 u v).isFinite = false := by
  cases u with
  | notANumber => rfl
  | zero s | finite s m p hm =>
    have hv := h.resolve_left nofun
    cases v with
    | notANumber | infinity s' => rfl
    | zero s' | finite s' n q hn => cases hv
  | infinity s =>
    cases v with
    | infinity s' => cases s <;> cases s' <;> rfl
    | _ => rfl

theorem div_not_finite {u v : UnpackedFloat} (h : u.isFinite = false) (hv : v.isFinite = true) :
    (UnpackedFloat.div .binary64 u v).isFinite = false := by
  cases u with
  | zero s | finite s m p hm => cases h
  | notANumber => rfl
  | infinity s =>
    cases v with
    | notANumber | infinity s' => cases hv
    | zero s' | finite s' n q hn => rfl

namespace Double

variable {x y : Float} {a b : ℚ}

theorem isFinite_pack {u : UnpackedFloat} (h : IsCanonical u) :
    (Float.ofModel (Float.Model.pack u)).isFinite = u.isFinite := by
  change (Float.Model.pack u).unpack.isFinite = _
  rw [unpack_pack h]

theorem isFinite_of_isNaN (h : x.isNaN = true) : x.isFinite = false :=
  Bool.eq_false_iff.mpr fun hx ↦ Bool.false_ne_true ((hasValue_value hx).isNaN.symm.trans h)

theorem remainder_of_not_finite (h : x.isFinite = false) : remainder x y = 0.0 / 0.0 := by
  simp [remainder, h]

theorem euclid_of_not_finite (h : x.isFinite = false) : euclid x y = 0.0 / 0.0 := by
  rw [euclid, remainder_of_not_finite h]
  exact if_neg (by decide +kernel)

theorem isFinite_add_of_not (h : x.isFinite = false ∨ y.isFinite = false) :
    (x + y).isFinite = false := by
  have hsum := add_not_finite (u := x.toModel.unpack) (v := y.toModel.unpack) h
  exact (isFinite_pack (canonical_of_not_finite hsum)).trans hsum

theorem HasValue.abs_le_largestFinite (hx : HasValue x a) : |a| ≤ largestFinite := by
  rcases hx.representable with rfl | ⟨m, q, hc, h⟩
  · rw [abs_zero, largestFinite]
    exact mul_nonneg (by norm_num) (by positivity)
  · exact h.trans_le hc.le_largestFinite

/-- A fraction does not carry a finite number beyond the finite ones. -/
theorem HasValue.exists_add_fraction (hx : HasValue x a) (hy : HasValue y b) (h : |a| ≤ 1) :
    ∃ w, HasValue (x + y) w := by
  have hhalf : (1 : ℚ) < 2 ^ (970 : ℤ) := one_lt_zpow₀ one_lt_two (by decide)
  have hsum : |a + b| < overflowBound := by
    rw [overflowBound_eq, add_comm largestFinite]
    exact (abs_add_le a b).trans_lt
      (add_lt_add_of_lt_of_le (h.trans_lt hhalf) hy.abs_le_largestFinite)
  obtain ⟨w, hw⟩ := hx.stands.exists_add hy.stands hsum
  exact ⟨w, hasValue_pack hw⟩

/-- Dividing by what is at least one keeps finite numbers finite, and the others not finite. -/
theorem isFinite_div (hy : HasValue y b) (hone : 1 ≤ |b|) : (x / y).isFinite = x.isFinite := by
  cases hx : x.isFinite with
  | true =>
    obtain ⟨w, hw⟩ := (hasValue_value hx).stands.exists_div hy.stands hone
    exact (hasValue_pack hw).finite
  | false =>
    have hquotient := div_not_finite (u := x.toModel.unpack) hx hy.finite
    exact (isFinite_pack (canonical_of_not_finite hquotient)).trans hquotient

end Double

end StackSynth
