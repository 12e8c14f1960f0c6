import StackSynth.Proofs.Number.Remainder

/-!
# Products and ceilings

A product is rounded, and rounding passes no number in either direction: between two numbers the
rounded product is between them too (`HasValue.mul_between`). The whole numbers next to a product
that is not too great are such numbers, so rounding does not carry a product beyond them, and its
ceiling is off by one at most.

The ceiling of a number is the ceiling of its value (`HasValue.ceil`).
-/

namespace StackSynth

open Float.Model Float.Model.UnpackedFloat BinaryFormat

/-- A number that is not above what is rounded is not above what it is rounded to. -/
theorem BinaryFormat.Canonical.le_rounding {m n k : Nat} {e q : ℤ} (hc : Canonical n q) (hm : 0 < m)
    (hk : Format.binary64.targetExponent (totalExponent m e) = e + k)
    (h : (n : ℚ) * 2 ^ q ≤ m * 2 ^ e) :
    (n : ℚ) * 2 ^ q ≤ rounded m .exact k * 2 ^ (e + (k : ℤ)) := by
  rcases lt_or_ge q (e + k) with hlt | hle
  -- Above the exponent of the number the significand fills its width.
  · have hleast := hc.least_le
    have hwide : 2 ^ 52 ≤ rounded m .exact k :=
      (rounded_normal hk hm).2.resolve_right (by omega)
    have hn : (n : ℚ) ≤ 2 ^ 53 := by exact_mod_cast hc.lt.le
    calc (n : ℚ) * 2 ^ q
        ≤ 2 ^ 53 * 2 ^ q := mul_le_mul_of_nonneg_right hn (by positivity)
      _ = 2 ^ 52 * 2 ^ (q + 1) := by
        rw [zpow_add_one₀ two_ne_zero]
        ring
      _ ≤ 2 ^ 52 * 2 ^ (e + (k : ℤ)) :=
        mul_le_mul_of_nonneg_left (zpow_le_zpow_right₀ one_le_two hlt) (by positivity)
      _ ≤ rounded m .exact k * 2 ^ (e + (k : ℤ)) :=
        mul_le_mul_of_nonneg_right (by exact_mod_cast hwide) (by positivity)
  -- At it or below, the number is a whole number of steps of the size that is rounded to.
  · have hscaled : n * 2 ^ (q - (e + k)).toNat * 2 ^ k ≤ m := by
      rw [← Double.scale_eq hle, zpow_add₀ two_ne_zero, zpow_natCast] at h
      have hcast : ((n * 2 ^ (q - (e + k)).toNat * 2 ^ k : Nat) : ℚ) * 2 ^ e ≤ m * 2 ^ e := by
        rw [Nat.cast_mul _ (2 ^ k), Nat.cast_pow, Nat.cast_ofNat, mul_assoc, mul_comm ((2 : ℚ) ^ k)]
        exact h
      exact_mod_cast le_of_mul_le_mul_right hcast (by positivity)
    rw [← Double.scale_eq hle]
    exact mul_le_mul_of_nonneg_right (by exact_mod_cast le_rounded hscaled) (by positivity)

/-- A product is never written finer than what it is rounded to. -/
theorem BinaryFormat.Canonical.exists_targetExponent_mul {m n : Nat} {p q : ℤ}
    (hm : Canonical m p) (hn : Canonical n q) :
    ∃ k : Nat, Format.binary64.targetExponent (totalExponent (m * n) (p + q)) = p + q + k := by
  have hpos : 0 < m * n := Nat.mul_pos hm.pos hn.pos
  have hwide : p + q ≤ -1074 ∨ 52 ≤ (m * n).log2 := by
    have hmul : ∀ {a b : Nat}, 2 ^ 52 ≤ a → 0 < b → 2 ^ 52 ≤ a * b := fun ha hb ↦
      ha.trans (Nat.le_mul_of_pos_right _ hb)
    rcases hm.normal with hnormal | rfl
    · exact .inr ((Nat.le_log2 hpos.ne').mpr (hmul hnormal hn.pos))
    rcases hn.normal with hnormal | rfl
    · exact .inr ((Nat.le_log2 hpos.ne').mpr (Nat.mul_comm m n ▸ hmul hnormal hm.pos))
    · exact .inl (by omega)
  rw [targetExponent_eq]
  exact ⟨(max ((m * n).log2 + 1 + (p + q) - 53) (-1074) - (p + q)).toNat, by omega⟩

namespace Stands

variable {u v : UnpackedFloat} {a b : ℚ}

/-- A number above zero is finite, and its sign is the positive one. -/
theorem exists_eq_positive (hu : Stands u a) (ha : 0 < a) :
    ∃ m e hm, u = .finite .positive m e hm ∧ Canonical m e ∧ a = m * 2 ^ e := by
  obtain ⟨hc, hfinite, rfl⟩ := hu
  cases u with
  | notANumber | infinity s => cases hfinite
  | zero s => exact absurd ha (lt_irrefl 0)
  | finite s m e hm =>
    cases s with
    | positive => exact ⟨m, e, hm, rfl, hc, rfl⟩
    | negative =>
      rw [exactValue_negative] at ha
      have hpos : (0 : ℚ) < m * 2 ^ e := by positivity
      exact absurd ha (by linarith)

theorem mul_between (hu : Stands u a) (hv : Stands v b) (ha : 0 < a) (hb : 0 < b) {lo hi : ℚ}
    (hlo : Representable lo) (hhi : Representable hi) (hlo' : lo ≤ a * b) (hhi' : a * b ≤ hi)
    (hzero : 0 ≤ lo) :
    ∃ w, Stands (UnpackedFloat.mul .binary64 u v) w ∧ lo ≤ w ∧ w ≤ hi := by
  obtain ⟨m, p, hm, rfl, hcm, rfl⟩ := hu.exists_eq_positive ha
  obtain ⟨n, q, hn, rfl, hcn, rfl⟩ := hv.exists_eq_positive hb
  have hvalue : (m : ℚ) * 2 ^ p * (n * 2 ^ q) = (m * n : Nat) * 2 ^ (p + q) := by
    rw [zpow_add₀ two_ne_zero]
    push_cast
    ring
  rw [hvalue] at hlo' hhi'
  have hpos : 0 < m * n := Nat.mul_pos hm hn
  obtain ⟨k, hk⟩ := hcm.exists_targetExponent_mul hcn
  obtain ⟨n', q', hc', hhi⟩ := hhi.resolve_left (lt_of_lt_of_le (by positivity) hhi').ne'
  rw [abs_of_nonneg (le_trans (by positivity) hhi')] at hhi
  rw [hhi] at hhi' ⊢
  obtain ⟨hstands, hle⟩ := stands_roundWithAccuracy_le hc' hpos hk hhi'
  refine ⟨_, hstands, ?_, hle⟩
  rcases hlo with rfl | ⟨l, r, hc, hlo⟩
  · positivity
  · rw [abs_of_nonneg hzero] at hlo
    rw [hlo] at hlo' ⊢
    exact hc.le_rounding hpos hk hlo'

end Stands

namespace Double

variable {x y : Float} {a b : ℚ}

/-- A product of numbers above zero is finite if some number is above it, and between two numbers it
is rounded to what is between them. -/
theorem HasValue.mul_between (hx : HasValue x a) (hy : HasValue y b) (ha : 0 < a) (hb : 0 < b)
    {lo hi : ℚ} (hlo : Representable lo) (hhi : Representable hi) (hlo' : lo ≤ a * b)
    (hhi' : a * b ≤ hi) (hzero : 0 ≤ lo) : ∃ w, HasValue (x * y) w ∧ lo ≤ w ∧ w ≤ hi := by
  obtain ⟨w, hw, hbounds⟩ := hx.stands.mul_between hy.stands ha hb hlo hhi hlo' hhi' hzero
  exact ⟨w, hasValue_pack hw, hbounds⟩

theorem HasValue.neg (hx : HasValue x a) : HasValue (-x) (-a) := by
  refine hasValue_pack (u := x.toModel.unpack.neg) ?_
  rcases hx.unpack_cases with ⟨s, hu, rfl⟩ | ⟨s, m, e, hm, hu, hc, rfl⟩
  · rw [hu, neg_zero]
    exact ⟨trivial, rfl, rfl⟩
  · rw [hu]
    exact ⟨hc, rfl, exactValue_neg s hm⟩

/-- The ceiling of a number is found by the floor of its negative. -/
theorem HasValue.ceil (hx : HasValue x a) (ha : 0 ≤ a) (hlt : a < 2 ^ 53) :
    HasValue (Double.ceil x) ⌈a⌉₊ := by
  have hneg := hx.neg
  obtain ⟨hparts, -, hpos⟩ := hneg.parts
  rw [abs_neg, abs_of_nonneg ha] at hparts
  have hwhole : isWhole (-x) = true ↔ (⌊a⌋₊ : ℚ) = a := by
    rw [isWhole_eq, hneg.finite, Bool.true_and, Bool.not_eq_true', wholeOf_snd, ← hparts]
  have hfloor : HasValue (Double.floor (-x)) (-(⌈a⌉₊ : ℚ)) := by
    rw [floor_eq, hneg.finite, Bool.not_true, Bool.false_or]
    split
    next h =>
      have ha' : a = (⌊a⌋₊ : ℚ) := (hwhole.mp h).symm
      rw [ha', Nat.ceil_natCast, ← ha']
      exact hneg
    next h =>
      have hne : (⌊a⌋₊ : ℚ) ≠ a := mt hwhole.mpr h
      -- Only zero is not below zero when its sign is turned, and zero is whole.
      have hsign : isNegative (-x) = true := by
        by_contra hsign
        have hle := hpos (Bool.eq_false_of_not_eq_true hsign)
        obtain rfl : a = 0 := le_antisymm (neg_nonneg.mp hle) ha
        exact hne (by simp)
      have hceil : ⌈a⌉₊ = ⌊a⌋₊ + 1 := by
        refine le_antisymm (Nat.ceil_le_floor_add_one a) (Nat.lt_ceil.mpr ?_)
        exact lt_of_le_of_ne (Nat.floor_le ha) hne
      have hle : ⌊a⌋₊ + 1 ≤ 2 ^ 53 := (Nat.floor_lt ha).mpr (by exact_mod_cast hlt)
      have hvalue := hasValue_ofParts true (m := ⌊a⌋₊ + 1) (q := 0)
        (by rw [zpow_zero, mul_one]; exact representable_natCast hle)
      rw [if_pos rfl, zpow_zero, mul_one] at hvalue
      rwa [if_pos hsign, wholeOf_fst, ← hparts, hceil]
  have hceil := hfloor.neg
  rwa [neg_neg] at hceil

end Double

end StackSynth
