import StackSynth.Proofs.Number.Samples
import StackSynth.WaveFile.Writer

/-!
# Samples as integers

With fewer than 32 bits a sample becomes an integer. The integer is in range whatever the sample is,
infinities and what is no number included (`quantize_between`), and for a sample in range it is off
by less than one step (`abs_quantize_sub_lt`): scaling by a power of two is exact, the limits change
nothing, and cutting off the fraction takes less than one.

Reading is exact. An integer stands for a fraction of the full range, which is a number
(`hasValue_scaled`), and so is the mean of two of them (`hasValue_mean_scaled`).
-/

namespace StackSynth.WaveFile

open Double BinaryFormat

variable {bits : Nat}

/-! ## Writing -/

theorem quantize_eq (hlo : 2 ≤ bits) (hhi : bits ≤ 31) (s : Sample) : quantize bits s
    = truncate (clamp (-(.ofNat (2 ^ (bits - 1)))) (.ofNat (2 ^ (bits - 1) - 1))
        (s * .ofDouble (.ofNat (2 ^ (bits - 1)))).toDouble) := by
  rw [quantize, show max 2 (min bits 31) = bits by omega, twoTo_eq]

theorem hasValue_two_pow (h : bits ≤ 31) :
    HasValue (.ofNat (2 ^ (bits - 1))) (2 ^ (bits - 1)) ∧
      HasValue (.ofNat (2 ^ (bits - 1) - 1)) (2 ^ (bits - 1) - 1) := by
  have hle : 2 ^ (bits - 1) ≤ 2 ^ 53 := Nat.pow_le_pow_right two_pos (by omega)
  have hone : 1 ≤ 2 ^ (bits - 1) := Nat.one_le_two_pow
  have hmost := hasValue_ofNat hle
  have hlast := hasValue_ofNat (n := 2 ^ (bits - 1) - 1) (by omega)
  rw [Nat.cast_sub hone, Nat.cast_one] at hlast
  push_cast at hmost hlast
  exact ⟨hmost, hlast⟩

/-- **Every sample becomes an integer in range.** -/
theorem quantize_between (hlo : 2 ≤ bits) (hhi : bits ≤ 31) (s : Sample) :
    -2 ^ (bits - 1) ≤ quantize bits s ∧ quantize bits s ≤ 2 ^ (bits - 1) - 1 := by
  obtain ⟨hmost, hlast⟩ := hasValue_two_pow hhi
  have hone : (1 : ℤ) ≤ 2 ^ (bits - 1) := one_le_pow₀ one_le_two
  have hone' : (1 : ℚ) ≤ 2 ^ (bits - 1) := one_le_pow₀ one_le_two
  rw [quantize_eq hlo hhi]
  rcases clamp_cases hmost.neg hlast (by linarith)
      (s * .ofDouble (.ofNat (2 ^ (bits - 1)))).toDouble
    with hnan | ⟨c, hc, hge, hle⟩
  -- What is no number passes the limits and becomes zero.
  · have hfinite : (clamp (-(.ofNat (2 ^ (bits - 1)))) (.ofNat (2 ^ (bits - 1) - 1))
        (s * .ofDouble (.ofNat (2 ^ (bits - 1)))).toDouble).isFinite = false := by
      change (clamp _ _ _).toModel.unpack.isFinite = false
      rw [hnan]
      rfl
    rw [truncate_eq, hfinite, if_neg (by decide)]
    omega
  · exact hc.truncate_between (by push_cast; exact hge) (by push_cast; exact hle) (by omega)
      (by omega)

/-- A sample of at most full range can be scaled within 32 bits. -/
theorem exact_mul_two_pow (h : bits ≤ 31) {v : ℚ} (hv : Sample.Exact v) (hle : |v| ≤ 1) :
    Sample.Exact (v * 2 ^ (bits - 1)) := by
  obtain ⟨m, q, hlt, hleast, -, habs⟩ := hv
  have hscaled : |v * 2 ^ (bits - 1)| = m * 2 ^ (q + (bits - 1 : Nat)) := by
    rw [abs_mul, habs, abs_of_pos (by positivity : (0 : ℚ) < 2 ^ (bits - 1)),
      zpow_add₀ two_ne_zero, zpow_natCast, mul_assoc]
  rcases Nat.eq_zero_or_pos m with rfl | hm
  · refine ⟨0, 0, by decide, by decide, by decide, ?_⟩
    rw [hscaled, Nat.cast_zero, zero_mul, zero_mul]
  · have hq : (2 : ℚ) ^ q ≤ 2 ^ (0 : ℤ) := by
      have hone : (1 : ℚ) ≤ m := by exact_mod_cast hm
      rw [zpow_zero]
      calc (2 : ℚ) ^ q ≤ m * 2 ^ q := le_mul_of_one_le_left (by positivity) hone
        _ ≤ 1 := habs ▸ hle
    have hq' := (zpow_le_zpow_iff_right₀ (one_lt_two (α := ℚ))).mp hq
    exact ⟨m, q + (bits - 1 : Nat), hlt, by omega, by omega, hscaled⟩

/-- **A sample in range is off by less than one step.** -/
theorem abs_quantize_sub_lt (hlo : 2 ≤ bits) (hhi : bits ≤ 31) {s : Sample} {v : ℚ}
    (hs : HasValue s.toDouble v) (hge : -1 ≤ v) (hle : v ≤ 1 - 1 / 2 ^ (bits - 1)) :
    |(quantize bits s : ℚ) - v * 2 ^ (bits - 1)| < 1 := by
  obtain ⟨hmost, hlast⟩ := hasValue_two_pow hhi
  have hpos : (0 : ℚ) < 2 ^ (bits - 1) := by positivity
  have hpos' : (0 : ℚ) < 1 / 2 ^ (bits - 1) := by positivity
  have hfactor : Sample.Exact (2 ^ (bits - 1)) := by
    refine ⟨1, (bits - 1 : Nat), by decide, by omega, by omega, ?_⟩
    rw [abs_of_pos hpos, Nat.cast_one, one_mul, zpow_natCast]
  have hscaled := Sample.hasValue_mul hs (Sample.hasValue_ofDouble hmost hfactor)
    (exact_mul_two_pow hhi (Sample.exact_of_hasValue hs) (abs_le.mpr ⟨hge, by linarith⟩))
  have hupper : v * 2 ^ (bits - 1) ≤ 2 ^ (bits - 1) - 1 := by
    calc v * 2 ^ (bits - 1) ≤ (1 - 1 / 2 ^ (bits - 1)) * 2 ^ (bits - 1) :=
          mul_le_mul_of_nonneg_right hle hpos.le
      _ = 2 ^ (bits - 1) - 1 := by rw [sub_mul, one_mul, div_mul_cancel₀ _ hpos.ne']
  have hlower : -2 ^ (bits - 1) ≤ v * 2 ^ (bits - 1) := by
    calc -2 ^ (bits - 1) = (-1 : ℚ) * 2 ^ (bits - 1) := (neg_one_mul _).symm
      _ ≤ v * 2 ^ (bits - 1) := mul_le_mul_of_nonneg_right hge hpos.le
  rw [quantize_eq hlo hhi, clamp_of_le hmost.neg hlast hscaled hlower hupper]
  exact hscaled.abs_truncate_sub_lt

/-! ## Reading -/

theorem representable_div_two_pow {n : ℤ} {k : Nat} (hn : n.natAbs < 2 ^ 53) (hk : k ≤ 1074) :
    Representable (n / 2 ^ k) := by
  refine representable_of_lt (m := n.natAbs) (q := -(k : ℤ)) ?_ hn (by omega) (by omega)
  rw [abs_div, abs_of_pos (by positivity : (0 : ℚ) < 2 ^ k), Nat.cast_natAbs, Int.cast_abs,
    zpow_neg, zpow_natCast, div_eq_mul_inv]

/-- An integer is read as a fraction of the full range. -/
theorem hasValue_scaled (h : bits ≤ 32) {n : ℤ} (hn : n.natAbs ≤ 2 ^ 31) :
    HasValue (readSample.scaled bits n) (n / 2 ^ (bits - 1)) := by
  have hle : 2 ^ (bits - 1) ≤ 2 ^ 53 := Nat.pow_le_pow_right two_pos (by omega)
  have hfull : HasValue (ofInt (twoTo (bits - 1) : Nat)) (2 ^ (bits - 1)) := by
    have hvalue := hasValue_ofInt (n := ((2 ^ (bits - 1) : Nat) : ℤ)) (by rwa [Int.natAbs_natCast])
    push_cast at hvalue
    exact hvalue
  exact (hasValue_ofInt (by omega)).div hfull (by positivity)
    (representable_div_two_pow (by omega) (by omega))

/-- The mean of two integers takes one more bit, and is exact too. -/
theorem hasValue_mean_scaled (h : bits ≤ 32) {n n' : ℤ} (hn : n.natAbs ≤ 2 ^ 31)
    (hn' : n'.natAbs ≤ 2 ^ 31) :
    HasValue ((readSample.scaled bits n + readSample.scaled bits n') / 2)
      ((n + n') / 2 ^ (bits - 1) / 2) := by
  have htwo : HasValue 2 2 := by
    have hvalue := hasValue_ofNat (n := 2) (by decide)
    rwa [Nat.cast_ofNat] at hvalue
  have hsum : Representable ((n : ℚ) / 2 ^ (bits - 1) + n' / 2 ^ (bits - 1)) := by
    rw [← add_div]
    have hvalue := representable_div_two_pow (n := n + n') (k := bits - 1) (by omega) (by omega)
    push_cast at hvalue
    exact hvalue
  have hmean : Representable (((n : ℚ) / 2 ^ (bits - 1) + n' / 2 ^ (bits - 1)) / 2) := by
    rw [← add_div, div_div, ← pow_succ]
    have hvalue := representable_div_two_pow (n := n + n') (k := bits - 1 + 1) (by omega) (by omega)
    push_cast at hvalue
    exact hvalue
  rw [add_div]
  exact ((hasValue_scaled h hn).add (hasValue_scaled h hn') hsum).div htwo two_ne_zero hmean

/-- What two samples are read back as differs from their mean by less than a step. -/
theorem exists_mean_scaled (hlo : 2 ≤ bits) (hhi : bits ≤ 31) {l r : Sample} {a b : ℚ}
    (hl : HasValue l.toDouble a) (hr : HasValue r.toDouble b) (ha : -1 ≤ a)
    (ha' : a ≤ 1 - 1 / 2 ^ (bits - 1)) (hb : -1 ≤ b) (hb' : b ≤ 1 - 1 / 2 ^ (bits - 1)) :
    ∃ w, HasValue ((readSample.scaled bits (quantize bits l)
        + readSample.scaled bits (quantize bits r)) / 2) w ∧
      |w - (a + b) / 2| < 1 / 2 ^ (bits - 1) := by
  have hsmall : ∀ s : Sample, (quantize bits s).natAbs ≤ 2 ^ 31 := by
    intro s
    have hbetween := quantize_between hlo hhi s
    have hle : (2 : ℤ) ^ (bits - 1) ≤ 2 ^ 31 := pow_le_pow_right₀ one_le_two (by omega)
    omega
  refine ⟨_, hasValue_mean_scaled (by omega) (hsmall l) (hsmall r), ?_⟩
  have hleft := abs_quantize_sub_lt hlo hhi hl ha ha'
  have hright := abs_quantize_sub_lt hlo hhi hr hb hb'
  have hpos : (0 : ℚ) < 2 ^ (bits - 1) := by positivity
  have hdiff : ((quantize bits l + quantize bits r : ℚ) / 2 ^ (bits - 1) / 2 - (a + b) / 2)
      = ((quantize bits l - a * 2 ^ (bits - 1)) + (quantize bits r - b * 2 ^ (bits - 1)))
        / (2 * 2 ^ (bits - 1)) := by
    field_simp
    ring
  rw [hdiff, abs_div, abs_of_pos (by positivity : (0 : ℚ) < 2 * 2 ^ (bits - 1)),
    div_lt_div_iff₀ (by positivity) hpos]
  have hsum := (abs_add_le _ _).trans_lt (add_lt_add hleft hright)
  have hscaled := mul_lt_mul_of_pos_right hsum hpos
  linarith

end StackSynth.WaveFile
