import StackSynth.Proofs.Number.Value

/-!
# Results that need no rounding

Arithmetic rounds the exact result to the nearest number. Where the exact result is a number itself
(`Representable`), rounding finds it (`round_exact`), and the operation is exact: a difference that
is representable is subtracted exactly (`HasValue.sub`), natural numbers up to `2 ^ 53` become the
numbers of their value (`hasValue_ofNat`), and the floor of a number is the floor of its value
(`HasValue.floor`). A number is put together from its sign and its magnitude, whatever power of two
the magnitude is written with (`HasValue.ofParts_eq`).
-/

namespace StackSynth

open Float.Model Float.Model.UnpackedFloat BinaryFormat

/-! ## Rounding -/

/-- No bits are lost where the lower ones are zero. -/
theorem shiftRight_exact (m k : Nat) :
    (⟨m * 2 ^ k, false, false⟩ : ExtendedMantissa) >>> k = ⟨m, false, false⟩ := by
  induction k generalizing m with
  | zero => rw [pow_zero, Nat.mul_one]; rfl
  | succ k ih =>
    have hlower := ih (m * 2)
    rw [Nat.mul_assoc, ← Nat.pow_succ'] at hlower
    change ((⟨m * 2 ^ (k + 1), false, false⟩ : ExtendedMantissa) >>> k).shiftRightOne = _
    rw [hlower, ExtendedMantissa.shiftRightOne]
    simp

theorem targetExponent_eq (m : Nat) (e : ℤ) :
    Format.binary64.targetExponent (totalExponent m e) = max (m.log2 + 1 + e - 53) (-1074) := rfl

/-- A canonical number stands at the exponent that rounding aims at, however it is written. -/
theorem BinaryFormat.Canonical.targetExponent {m n : Nat} {q e : ℤ} (hc : Canonical m q)
    (h : (n : ℚ) * 2 ^ e = m * 2 ^ q) :
    Format.binary64.targetExponent (totalExponent n e) = q := by
  have hpos : 0 < n := by
    have hm := hc.pos
    have hvalue : (0 : ℚ) < n * 2 ^ e := by
      rw [h]
      positivity
    exact_mod_cast pos_of_mul_pos_left hvalue (by positivity)
  -- Both ways to write the value give it the same width, and that is all the target depends on.
  have hwidth := width_eq hc.pos hpos h
  have hlog : m.log2 < 53 := (Nat.log2_lt hc.pos.ne').mpr hc.lt
  have hnormal : 52 ≤ m.log2 ∨ q = -1074 :=
    hc.normal.imp_left fun hm ↦ (Nat.le_log2 hc.pos.ne').mpr hm
  have hleast := hc.least_le
  rw [targetExponent_eq]
  omega

theorem shiftToTargetExponent_exact {m n : Nat} {q e : ℤ} (hc : Canonical m q)
    (h : (n : ℚ) * 2 ^ e = m * 2 ^ q) (hle : e ≤ q) :
    shiftToTargetExponent .binary64 n e .exact = (⟨m, false, false⟩, q) := by
  obtain ⟨k, rfl⟩ : ∃ k : Nat, q = e + k := ⟨(q - e).toNat, by omega⟩
  have hpos : (0 : ℚ) < 2 ^ e := by positivity
  have hn : n = m * 2 ^ k := by
    rw [zpow_add₀ two_ne_zero, zpow_natCast, mul_comm ((2 : ℚ) ^ e), ← mul_assoc] at h
    exact_mod_cast mul_right_cancel₀ hpos.ne' h
  rw [shiftToTargetExponent, hc.targetExponent h, shiftToExponent, add_sub_cancel_left,
    Int.toNat_natCast, hn]
  exact congrArg (·, e + (k : ℤ)) (shiftRight_exact m k)

theorem roundWithAccuracy_exact (s : Sign) {m n : Nat} {q e : ℤ} (hc : Canonical m q)
    (h : (n : ℚ) * 2 ^ e = m * 2 ^ q) (hle : e ≤ q) :
    roundWithAccuracy .binary64 s n e .exact = .finite s m q hc.pos := by
  have hrounded : (⟨m, false, false⟩ : ExtendedMantissa).roundedMantissa = m := rfl
  rw [roundWithAccuracy, shiftToTargetExponent_exact hc h hle]
  simp only [hrounded, shiftToTargetExponent_exact hc rfl le_rfl, dif_neg hc.pos.ne']

/-- A number rounds to itself. -/
theorem round_exact (s : Sign) {m n : Nat} {q e : ℤ} (hc : Canonical m q)
    (h : (n : ℚ) * 2 ^ e = m * 2 ^ q) :
    UnpackedFloat.round .binary64 s n e = .finite s m q hc.pos := by
  rw [UnpackedFloat.round, hc.targetExponent h]
  simp only [decreaseExponent]
  refine roundWithAccuracy_exact s hc ?_ (by omega)
  rw [← h, Nat.shiftLeft_eq, zpow_sub₀ two_ne_zero, zpow_natCast]
  push_cast
  field_simp

/-- A number is the nearest one to itself. -/
theorem rounds_self {m : Nat} {q : ℤ} (hc : Canonical m q) : Rounds m q (m * 2 ^ q) := by
  have hpos : (0 : ℚ) < 2 ^ (q - 2) := by positivity
  have hlowest : lowest m q < 4 * m := by
    have hm := hc.pos
    rw [lowest]
    split <;> omega
  have hlo : (lowest m q : ℚ) < (4 * m : Nat) := by exact_mod_cast hlowest
  have hhi : ((4 * m : Nat) : ℚ) < (4 * m + 2 : Nat) := by
    exact_mod_cast Nat.lt_add_of_pos_right two_pos
  rw [value_eq_quarters m q]
  exact ⟨(mul_lt_mul_of_pos_right hlo hpos).le, (mul_lt_mul_of_pos_right hhi hpos).le, fun _ ↦
    ⟨mul_lt_mul_of_pos_right hlo hpos, mul_lt_mul_of_pos_right hhi hpos⟩⟩

/-! ## Representable numbers -/

/-- What is the exact value of some number. -/
def Representable (v : ℚ) : Prop := v = 0 ∨ ∃ m q, Canonical m q ∧ |v| = m * 2 ^ q

theorem Representable.neg {v : ℚ} (h : Representable v) : Representable (-v) :=
  h.imp neg_eq_zero.mpr fun ⟨m, q, hc, hv⟩ ↦ ⟨m, q, hc, (abs_neg v).trans hv⟩

/-- The difference of two numbers each of which is `v` or zero. -/
theorem Representable.ite_sub_ite {v : ℚ} (h : Representable v) (p q : Prop) [Decidable p]
    [Decidable q] : Representable ((if p then v else 0) - if q then v else 0) := by
  by_cases hp : p <;> by_cases hq : q <;> simp only [hp, hq, if_true, if_false]
  · exact .inl (sub_self v)
  · rwa [sub_zero]
  · rw [zero_sub]
    exact h.neg
  · exact .inl (sub_self 0)

/-- A significand with too few bits is moved to the left, until it fills the width or the exponent
is the least one. -/
theorem exists_normal {m p : Nat} {q least : ℤ} (hm : 0 < m) (hlt : m < 2 ^ p)
    (hleast : least ≤ q) :
    ∃ k : Nat, m * 2 ^ k < 2 ^ p ∧ least ≤ q - k ∧ (2 ^ (p - 1) ≤ m * 2 ^ k ∨ q - k = least) := by
  have hlog : m.log2 < p := (Nat.log2_lt hm.ne').mpr hlt
  obtain ⟨k, hk, hleft⟩ : ∃ k : Nat, k ≤ p - 1 - m.log2 ∧ least ≤ q - k ∧
      (k = p - 1 - m.log2 ∨ q - k = least) :=
    ⟨min (p - 1 - m.log2) (q - least).toNat, by omega⟩
  refine ⟨k, ?_, hleft.1, hleft.2.imp_left ?_⟩
  · calc m * 2 ^ k < 2 ^ (m.log2 + 1) * 2 ^ k :=
          Nat.mul_lt_mul_of_pos_right Nat.lt_log2_self (Nat.two_pow_pos k)
      _ = 2 ^ (m.log2 + 1 + k) := (Nat.pow_add 2 _ _).symm
      _ ≤ 2 ^ p := Nat.pow_le_pow_right two_pos (by omega)
  · rintro rfl
    calc 2 ^ (p - 1) = 2 ^ m.log2 * 2 ^ (p - 1 - m.log2) := by rw [← Nat.pow_add]; congr 1; omega
      _ ≤ m * 2 ^ (p - 1 - m.log2) := Nat.mul_le_mul_right _ (Nat.log2_self_le hm.ne')

theorem mul_two_zpow_sub (m k : Nat) (q : ℤ) :
    ((m * 2 ^ k : Nat) : ℚ) * 2 ^ (q - (k : ℤ)) = m * 2 ^ q := by
  rw [zpow_sub₀ two_ne_zero, zpow_natCast]
  push_cast
  field_simp

theorem representable_of_lt {v : ℚ} {m : Nat} {q : ℤ} (hv : |v| = m * 2 ^ q) (hlt : m < 2 ^ 53)
    (hleast : -1074 ≤ q) (hmost : q ≤ 971) : Representable v := by
  rcases Nat.eq_zero_or_pos m with rfl | hm
  · left
    simpa using hv
  · obtain ⟨k, hhi, hleast', hnormal⟩ := exists_normal hm hlt hleast
    exact .inr ⟨m * 2 ^ k, q - k, ⟨by positivity, hhi, hleast', by omega, hnormal⟩,
      hv.trans (mul_two_zpow_sub m k q).symm⟩

theorem representable_natCast {n : Nat} (h : n ≤ 2 ^ 53) : Representable n := by
  rcases Nat.lt_or_eq_of_le h with hlt | rfl
  · have hv : |(n : ℚ)| = n * 2 ^ (0 : ℤ) := by simp
    exact representable_of_lt hv hlt (by decide) (by decide)
  · refine representable_of_lt (m := 2 ^ 52) (q := 1) ?_ (by decide) (by decide) (by decide)
    rw [Nat.abs_cast]
    norm_num

/-- Dropping the whole part needs no bits that were not there. -/
theorem Representable.sub_floor {v : ℚ} (h : Representable v) (hv : 0 ≤ v) :
    Representable (v - ⌊v⌋₊) := by
  rcases h with rfl | ⟨m, q, hc, h⟩
  · left
    simp
  rw [abs_of_nonneg hv] at h
  subst h
  have hlt := hc.lt
  by_cases hq : 0 ≤ q
  · obtain ⟨k, rfl⟩ := Int.eq_ofNat_of_zero_le hq
    left
    rw [Double.mul_two_zpow, Nat.floor_natCast, sub_self]
  · obtain ⟨k, rfl⟩ : ∃ k : Nat, q = -(k : ℤ) := ⟨(-q).toNat, by omega⟩
    have hpos : (0 : ℚ) < 2 ^ k := by positivity
    have hrest : (m : ℚ) * 2 ^ (-(k : ℤ)) - ⌊(m : ℚ) * 2 ^ (-(k : ℤ))⌋₊
        = (m % 2 ^ k : Nat) * 2 ^ (-(k : ℤ)) := by
      have hdiv : ((2 ^ k * (m / 2 ^ k) + m % 2 ^ k : Nat) : ℚ) = m :=
        congrArg Nat.cast (Nat.div_add_mod m (2 ^ k))
      rw [Double.mul_two_zpow_neg, Nat.floor_div_eq_div, zpow_neg, zpow_natCast, ← hdiv]
      push_cast
      field_simp
      ring
    have hmod := Nat.mod_le m (2 ^ k)
    refine representable_of_lt (m := m % 2 ^ k) (q := -(k : ℤ)) ?_ (by omega) hc.least_le (by omega)
    rw [hrest, abs_of_nonneg (by positivity)]

/-- An unpacked number is finite, canonical and has this exact value. -/
structure Stands (u : UnpackedFloat) (v : ℚ) : Prop where
  canonical : IsCanonical u
  finite : u.isFinite = true
  eq : exactValue u = v

theorem normalize_exact {m e : ℤ} (s : Sign) (h : Representable (m * 2 ^ e)) :
    Stands (UnpackedFloat.normalize .binary64 m e s) (m * 2 ^ e) := by
  have hpos : (0 : ℚ) < 2 ^ e := by positivity
  rcases h with h | ⟨n, q, hc, h⟩
  · obtain rfl : m = 0 := by exact_mod_cast (mul_eq_zero.mp h).resolve_right hpos.ne'
    rw [h]
    exact ⟨trivial, rfl, rfl⟩
  rw [abs_mul, abs_of_pos hpos] at h
  -- The sign goes to the number and the magnitude is rounded, which changes neither.
  rcases lt_trichotomy m 0 with hm | rfl | hm
  · have hcast : ((-m).toNat : ℚ) = |(m : ℚ)| := by
      rw [abs_of_neg (by exact_mod_cast hm)]
      exact_mod_cast Int.toNat_of_nonneg (by omega : 0 ≤ -m)
    rw [← hcast] at h
    rw [UnpackedFloat.normalize, compare_lt_iff_lt.mpr hm]
    simp only [round_exact .negative hc h]
    refine ⟨hc, rfl, ?_⟩
    rw [exactValue_negative, ← h, hcast, abs_of_neg (by exact_mod_cast hm)]
    ring
  · have hzero : (n : ℚ) * 2 ^ q ≠ 0 := by
      have hn := hc.pos
      positivity
    simp only [Int.cast_zero, abs_zero, zero_mul] at h
    exact absurd h.symm hzero
  · have hcast : (m.toNat : ℚ) = |(m : ℚ)| := by
      rw [abs_of_pos (by exact_mod_cast hm)]
      exact_mod_cast Int.toNat_of_nonneg hm.le
    rw [← hcast] at h
    rw [UnpackedFloat.normalize, compare_gt_iff_gt.mpr hm]
    simp only [round_exact .positive hc h]
    refine ⟨hc, rfl, ?_⟩
    rw [exactValue_positive, ← h, hcast, abs_of_pos (by exact_mod_cast hm)]

/-! ## Operations -/

/-- A number written at a lower exponent has the same value. -/
theorem exactValue_decreaseExponent (s : Sign) {m : Nat} {e target : ℤ} (hm : 0 < m)
    (h : target ≤ e) : (s.apply (decreaseExponent m e target).1 : ℤ) * (2 : ℚ) ^ target
      = exactValue (.finite s m e hm) := by
  obtain ⟨k, rfl⟩ : ∃ k : Nat, e = target + k := ⟨(e - target).toNat, by omega⟩
  have hshift : (decreaseExponent m (target + k) target).1 = m * 2 ^ k := by
    simp [decreaseExponent, Nat.shiftLeft_eq]
  rw [hshift, exactValue, zpow_add₀ two_ne_zero, zpow_natCast]
  cases s <;> simp only [Sign.apply] <;> push_cast <;> ring

theorem exactValue_neg (s : Sign) {m : Nat} {e : ℤ} (hm : 0 < m) :
    exactValue (.finite (-s) m e hm) = -exactValue (.finite s m e hm) := by
  cases s
  · change exactValue (.finite .positive m e hm) = _
    rw [exactValue_positive, exactValue_negative, neg_neg]
  · exact exactValue_negative hm

namespace Stands

variable {u v : UnpackedFloat} {a b : ℚ}

theorem sub (hu : Stands u a) (hv : Stands v b) (h : Representable (a - b)) :
    Stands (UnpackedFloat.sub .binary64 u v) (a - b) := by
  obtain ⟨hcu, hfu, rfl⟩ := hu
  obtain ⟨hcv, hfv, rfl⟩ := hv
  cases u with
  | notANumber | infinity s => cases hfu
  | zero s =>
    rw [exactValue_zero, zero_sub]
    cases v with
    | notANumber | infinity s' => cases hfv
    | zero s' =>
      rw [exactValue_zero, neg_zero]
      cases s <;> cases s' <;> exact ⟨trivial, rfl, rfl⟩
    | finite s' n q hn => exact ⟨hcv, rfl, exactValue_neg s' hn⟩
  | finite s m p hm =>
    cases v with
    | notANumber | infinity s' => cases hfv
    | zero s' =>
      rw [exactValue_zero, sub_zero]
      exact ⟨hcu, rfl, rfl⟩
    | finite s' n q hn =>
      have hdiff : exactValue (.finite s m p hm) - exactValue (.finite s' n q hn)
          = (s.apply (decreaseExponent m p (min p q)).1
              - s'.apply (decreaseExponent n q (min p q)).1 : ℤ) * 2 ^ min p q := by
        rw [← exactValue_decreaseExponent s hm (min_le_left p q),
          ← exactValue_decreaseExponent s' hn (min_le_right p q)]
        push_cast
        ring
      rw [hdiff] at h ⊢
      exact normalize_exact .positive h

/-- A sum is one of the operands if the other one is a zero, and else it is brought to the smaller
exponent and rounded. -/
theorem add_cases (hu : Stands u a) (hv : Stands v b) :
    Stands (UnpackedFloat.add .binary64 u v) (a + b) ∨ ∃ m e : ℤ, a + b = m * 2 ^ e ∧
      UnpackedFloat.add .binary64 u v = UnpackedFloat.normalize .binary64 m e .positive := by
  obtain ⟨hcu, hfu, rfl⟩ := hu
  obtain ⟨hcv, hfv, rfl⟩ := hv
  cases u with
  | notANumber | infinity s => cases hfu
  | zero s =>
    left
    rw [exactValue_zero, zero_add]
    cases v with
    | notANumber | infinity s' => cases hfv
    | zero s' => cases s <;> cases s' <;> exact ⟨trivial, rfl, rfl⟩
    | finite s' n q hn => exact ⟨hcv, rfl, rfl⟩
  | finite s m p hm =>
    cases v with
    | notANumber | infinity s' => cases hfv
    | zero s' =>
      left
      rw [exactValue_zero, add_zero]
      exact ⟨hcu, rfl, rfl⟩
    | finite s' n q hn =>
      right
      refine ⟨s.apply (decreaseExponent m p (min p q)).1
        + s'.apply (decreaseExponent n q (min p q)).1, min p q, ?_, rfl⟩
      rw [← exactValue_decreaseExponent s hm (min_le_left p q),
        ← exactValue_decreaseExponent s' hn (min_le_right p q)]
      push_cast
      ring

theorem add (hu : Stands u a) (hv : Stands v b) (h : Representable (a + b)) :
    Stands (UnpackedFloat.add .binary64 u v) (a + b) := by
  rcases hu.add_cases hv with hsum | ⟨m, e, hvalue, hsum⟩
  · exact hsum
  · rw [hvalue] at h ⊢
    rw [hsum]
    exact normalize_exact .positive h

/-- One changes no factor. -/
theorem mul_one (hu : Stands u a) :
    Stands (UnpackedFloat.mul .binary64 u (.finite .positive (2 ^ 52) (-52) (by decide))) a := by
  obtain ⟨hc, hfinite, rfl⟩ := hu
  cases u with
  | notANumber | infinity s => cases hfinite
  | zero s => exact ⟨trivial, rfl, rfl⟩
  | finite s m e hm =>
    have hvalue : ((m * 2 ^ 52 : Nat) : ℚ) * 2 ^ (e + -52) = m * 2 ^ e := by
      rw [zpow_add₀ two_ne_zero]
      push_cast
      ring
    have hround := roundWithAccuracy_exact (s * .positive) hc hvalue (by omega)
    have hsign : s * .positive = s := by cases s <;> rfl
    rw [UnpackedFloat.mul, hround, hsign]
    exact ⟨hc, rfl, rfl⟩

theorem mul_zero (hu : Stands u a) (s : Sign) :
    Stands (UnpackedFloat.mul .binary64 u (.zero s)) 0 := by
  obtain ⟨-, hfinite, -⟩ := hu
  cases u with
  | notANumber | infinity s' => cases hfinite
  | zero s' | finite s' m e hm => exact ⟨trivial, rfl, rfl⟩

end Stands

namespace Double

variable {x y : Float} {a b : ℚ}

theorem hasValue_pack {u : UnpackedFloat} (h : Stands u a) :
    HasValue (Float.ofModel (Float.Model.pack u)) a := by
  have hunpack := unpack_pack h.canonical
  constructor
  · change (Float.Model.pack u).unpack.isFinite = true
    rw [hunpack, h.finite]
  · change exactValue (Float.Model.pack u).unpack = a
    rw [hunpack, h.eq]

theorem HasValue.stands (hx : HasValue x a) : Stands x.toModel.unpack a :=
  ⟨canonical_unpack _, hx.finite, hx.eq⟩

theorem HasValue.representable (hx : HasValue x a) : Representable a := by
  rcases hx.unpack_cases with ⟨s, -, rfl⟩ | ⟨s, m, e, hm, -, hc, rfl⟩
  · exact .inl rfl
  exact .inr ⟨m, e, hc, abs_exactValue s hm⟩

/-- A difference that is a number is subtracted exactly. -/
theorem HasValue.sub (hx : HasValue x a) (hy : HasValue y b) (h : Representable (a - b)) :
    HasValue (x - y) (a - b) :=
  hasValue_pack (hx.stands.sub hy.stands h)

/-- A sum that is a number is added exactly. -/
theorem HasValue.add (hx : HasValue x a) (hy : HasValue y b) (h : Representable (a + b)) :
    HasValue (x + y) (a + b) :=
  hasValue_pack (hx.stands.add hy.stands h)

theorem HasValue.mul_zero (hx : HasValue x a) : HasValue (x * 0) 0 :=
  hasValue_pack (hx.stands.mul_zero .positive)

/-- Nothing of a finite number changes the value of a sum. -/
theorem HasValue.add_mul_zero (hx : HasValue x a) (hy : HasValue y b) : HasValue (x + y * 0) a := by
  have hsum := hx.add hy.mul_zero (by rw [add_zero]; exact hx.representable)
  rwa [add_zero] at hsum

theorem hasValue_ofNat {n : Nat} (h : n ≤ 2 ^ 53) : HasValue (.ofNat n) n := by
  rcases Nat.lt_or_eq_of_le h with hlt | rfl
  swap
  · have hunpack : (Float.ofNat (2 ^ 53)).toModel.unpack
        = .finite .positive (2 ^ 52) 1 (by decide) := rfl
    refine ⟨rfl, ?_⟩
    rw [value, hunpack, exactValue_positive]
    norm_num
  -- A natural number is read as a decimal without fraction: an integer times ten to the zero.
  have hofNat : Float.ofNat n = n.toUInt64.toFloat * Float.ofBits 0x3FF0000000000000 := by
    change Float.ofScientific n false 0 = _
    rw [Float.ofScientific, dif_pos ⟨hlt, by decide⟩]
    rfl
  have hone : (Float.ofBits 0x3FF0000000000000).toModel.unpack
      = .finite .positive (2 ^ 52) (-52) (by decide) := rfl
  have hinteger : HasValue n.toUInt64.toFloat n := by
    have hcast : ((n.toUInt64.toNat : ℤ) : ℚ) * 2 ^ (0 : ℤ) = n := by
      rw [UInt64.toNat_ofNat_of_lt' (hlt.trans (by decide))]
      simp
    have hstands := normalize_exact (m := n.toUInt64.toNat) (e := 0) .positive
      (by rw [hcast]; exact representable_natCast h)
    rw [hcast] at hstands
    exact hasValue_pack hstands
  have hmul := hinteger.stands.mul_one
  rw [← hone] at hmul
  rw [hofNat]
  exact hasValue_pack hmul

theorem hasValue_zero : HasValue 0 0 := by
  have hzero := hasValue_ofNat (n := 0) (by decide)
  rwa [Nat.cast_zero] at hzero

theorem hasValue_of_beq_zero (h : (x == 0) = true) : HasValue x 0 := by
  rcases exists_hasValue_or x with hx | ⟨s, hx⟩ | ⟨a, hx⟩
  · rw [beq_iff, hx] at h
    cases h
  · rw [beq_iff, hx, (hasValue_zero.compare_infinity s).2] at h
    cases s <;> cases h
  · rwa [(hx.beq_iff hasValue_zero).mp h] at hx

theorem hasValue_one : HasValue 1 1 := by
  have hone := hasValue_ofNat (n := 1) (by decide)
  rwa [Nat.cast_one] at hone

theorem toNat_of_hasValue {n : Nat} (hx : HasValue x n) (h : n ≤ 2 ^ 53) : toNat x = n := by
  have hlt : (n : ℚ) < 2 ^ 64 := by exact_mod_cast (by omega : n < 2 ^ 64)
  rw [hx.toNat (by positivity) hlt, Nat.floor_natCast]

/-- What is written as a multiple of some power of two has the pattern of the number. -/
theorem encode_of_eq {m n : Nat} {q e : ℤ} (hc : Canonical m q) (h : (n : ℚ) * 2 ^ e = m * 2 ^ q) :
    BinaryFormat.double.encode n e = pattern m q := by
  have hpos : (0 : ℚ) < n * 2 ^ e := by
    have hm := hc.pos
    rw [h]
    positivity
  refine encode_eq_pattern (by exact_mod_cast pos_of_mul_pos_left hpos (by positivity)) hc ?_
  rw [h]
  exact rounds_self hc

theorem encode_zero (e : ℤ) : BinaryFormat.double.encode 0 e = 0 := rfl

/-- A number is put together as the pattern of its magnitude behind the bit of its sign. -/
theorem ofParts_eq_ofBits {negative : Bool} {s : Sign} (hs : negative = true ↔ s = .negative)
    (m : Nat) (q : ℤ) : ofParts negative m q
      = Float.ofBits (s.toBitVec.toNat * 2 ^ 63 + BinaryFormat.double.encode m q).toUInt64 := by
  have hsign : signBit = 2 ^ 63 := rfl
  rw [ofParts]
  cases s with
  | negative =>
    rw [if_pos (hs.mpr rfl), Nat.add_comm, hsign]
    rfl
  | positive =>
    rw [if_neg (by simp [hs]), show Sign.positive.toBitVec.toNat = 0 from rfl,
      Nat.zero_mul, Nat.zero_add]

/-- A number is put together from its sign and its magnitude, however the magnitude is written. -/
theorem HasValue.ofParts_eq (hx : HasValue x a) {m : Nat} {q : ℤ} (h : (m : ℚ) * 2 ^ q = |a|) :
    ofParts (isNegative x) m q = x := by
  have hbits : ∀ {s : Sign}, (isNegative x = true ↔ s = .negative) →
      x.toBits.toNat = s.toBitVec.toNat * 2 ^ 63 + BinaryFormat.double.encode m q →
      ofParts (isNegative x) m q = x := by
    intro s hs hx
    rw [ofParts_eq_ofBits hs, ← hx, Nat.toUInt64, UInt64.ofNat_toNat, Float.ofBits_toBits]
  rcases hx.unpack_cases with ⟨s, hu, rfl⟩ | ⟨s, n, e, hn, hu, hc, rfl⟩
  · rw [abs_zero, mul_eq_zero, or_iff_left (by positivity)] at h
    obtain rfl : m = 0 := by exact_mod_cast h
    refine hbits (parts_of_unpack_zero hu).2 ?_
    rw [encode_zero, Nat.add_zero]
    exact toBits_of_unpack_zero hu
  · refine hbits (parts_of_unpack hu).2 ?_
    rw [encode_of_eq hc (h.trans (abs_exactValue s hn))]
    exact toBits_of_unpack hu

/-- Rounding to the nearest finds the number itself. -/
theorem hasValue_ofParts (negative : Bool) {m : Nat} {q : ℤ} (h : Representable (m * 2 ^ q)) :
    HasValue (ofParts negative m q) (if negative then -(m * 2 ^ q) else m * 2 ^ q) := by
  obtain ⟨s, hs⟩ : ∃ s : Sign, negative = true ↔ s = .negative := by
    cases negative
    · exact ⟨.positive, by simp⟩
    · exact ⟨.negative, by simp⟩
  rcases h with hzero | ⟨n, p, hc, hv⟩
  · rw [hzero, neg_zero, ite_self, ofParts_eq_ofBits hs]
    rw [mul_eq_zero, or_iff_left (by positivity)] at hzero
    obtain rfl : m = 0 := by exact_mod_cast hzero
    rw [encode_zero]
    cases s <;> exact ⟨rfl, rfl⟩
  rw [abs_of_nonneg (by positivity)] at hv
  have hbits : (s.toBitVec.toNat * 2 ^ 63 + pattern n p).toUInt64.toBitVec.toNat
      = s.toBitVec.toNat * 2 ^ 63 + pattern n p := by
    have hlt := hc.lt
    have hmost := hc.le_most
    have hsign : s.toBitVec.toNat < 2 ^ 1 := s.toBitVec.isLt
    have hsize : UInt64.size = 2 ^ 64 := rfl
    refine UInt64.toNat_ofNat_of_lt' ?_
    rw [pattern]
    omega
  have hunpack := unpack_of_toNat hc hbits
  rw [ofParts_eq_ofBits hs, encode_of_eq hc hv, hv]
  refine hasValue_pack ⟨canonical_unpack _, ?_, ?_⟩ <;> rw [hunpack]
  · rfl
  · cases s with
    | positive => rw [if_neg (by simp [hs]), exactValue_positive]
    | negative => rw [if_pos (hs.mpr rfl), exactValue_negative]

theorem HasValue.floor_natCast {n : Nat} (hx : HasValue x n) : Double.floor x = x :=
  HasValue.floor_intCast (n := n) (by exact_mod_cast hx)

theorem HasValue.floor (hx : HasValue x a) (ha : 0 ≤ a) (hlt : a < 2 ^ 53) :
    HasValue (floor x) ⌊a⌋₊ := by
  obtain ⟨hparts, hneg, -⟩ := hx.parts
  rw [abs_of_nonneg ha] at hparts
  rw [floor_eq, hx.finite, Bool.not_true, Bool.false_or]
  split
  next hwhole => rwa [(hx.isWhole_iff ha).mp hwhole]
  next hwhole =>
    split
    next hsign =>
      obtain rfl := le_antisymm (hneg hsign) ha
      exact absurd ((hx.isWhole_iff le_rfl).mpr (by simp)) hwhole
    next =>
      rw [wholeOf_fst, ← hparts]
      have hle : ⌊a⌋₊ ≤ 2 ^ 53 := ((Nat.floor_lt ha).mpr (by exact_mod_cast hlt)).le
      have hfloor := hasValue_ofParts false (m := ⌊a⌋₊) (q := 0)
        (by rw [zpow_zero, mul_one]; exact representable_natCast hle)
      rwa [zpow_zero, mul_one] at hfloor

end Double

end StackSynth
