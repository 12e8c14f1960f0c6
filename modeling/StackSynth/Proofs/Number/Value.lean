import StackSynth.Proofs.Number.Rounding

/-!
# The exact value of a number

A finite 64-bit number stands for a rational, and everything that is exact about numbers can be said
of these rationals. `Double.HasValue x v` says that `x` is finite and stands for `v`.

The link is the list of the three fields of a pattern. Unpacking gives a finite number in canonical
form (`canonical_unpack`), packing a canonical number and unpacking it again changes nothing
(`unpack_pack`), and the pattern of a canonical number is the one of its significand and exponent
behind the sign (`toNat_pack`). Canonical numbers are ordered by exponent first and significand
second, which is the order of their values (`compare_eq`).
-/

namespace StackSynth

open Float.Model Float.Model.UnpackedFloat BinaryFormat

/-- The rational that a finite number stands for, and zero for what is not finite. -/
def exactValue : UnpackedFloat → ℚ
  | .finite s m e _ => (s.apply m : ℤ) * (2 : ℚ) ^ e
  | _ => 0

/-- A number in the one form that every finite number has. -/
def IsCanonical : UnpackedFloat → Prop
  | .finite _ m e _ => Canonical m e
  | _ => True

/-! ## Packing and unpacking -/

theorem canonical_unpack (b : BitVec Format.binary64.numBits) :
    IsCanonical (UnpackedFloat.unpack .binary64 b) := by
  have hexponent : (unpackExponent b).toNat < 2 ^ 11 := (unpackExponent b).isLt
  have hmantissa : (unpackMantissa b).toNat < 2 ^ 52 := (unpackMantissa b).isLt
  rw [UnpackedFloat.unpack]
  dsimp only
  split
  next => split <;> trivial
  next hones =>
    have hfield : (unpackExponent b).toNat ≠ 2047 := fun heq ↦ hones (BitVec.toNat_inj.mp heq)
    split
    next hnone =>
      split
      next => trivial
      next hsome =>
        have hpos : (unpackMantissa b).toNat ≠ 0 := fun heq ↦ hsome (BitVec.toNat_inj.mp heq)
        have hleast : ((unpackExponent b).toNat : ℤ)
            - (Format.binary64.exponentBias + (52 : Nat)) + 1 = -1074 := by
          rw [hnone, exponentBias_eq]
          rfl
        -- Without a leading bit the exponent is the least one, where no width has to be filled.
        rw [hleast]
        exact ⟨by omega, by omega, le_rfl, by omega, Or.inr rfl⟩
    next hnormal =>
      have hpos : (unpackExponent b).toNat ≠ 0 := fun heq ↦ hnormal (BitVec.toNat_inj.mp heq)
      have hleading : (1#1 ++ unpackMantissa b).toNat = 2 ^ 52 + (unpackMantissa b).toNat := by
        rw [toNat_append]
        rfl
      change Canonical (1#1 ++ unpackMantissa b).toNat _
      rw [hleading, exponentBias_eq]
      exact ⟨by omega, by omega, by omega, by omega, Or.inl (by omega)⟩

/-- The pattern of a canonical number is that of its magnitude behind its sign. -/
theorem toNat_pack (s : Sign) {m : Nat} {e : ℤ} (hc : Canonical m e) :
    (UnpackedFloat.pack .binary64 (.finite s m e hc.pos)).toNat
      = s.toBitVec.toNat * 2 ^ 63 + pattern m e := by
  have hlt := hc.lt
  have hleast := hc.least_le
  have hmost := hc.le_most
  rw [pattern]
  by_cases hnormal : 2 ^ 52 ≤ m
  · obtain ⟨field, rfl⟩ : ∃ field : Nat, e = field - 1075 := ⟨(e + 1075).toNat, by omega⟩
    rw [pack_normal s hc.pos hnormal hlt (by omega), toNat_packComponents, BitVec.toNat_ofNat,
      BitVec.toNat_ofNat]
    omega
  · obtain rfl : e = -1074 := hc.normal.resolve_left hnormal
    rw [pack_subnormal s hc.pos (by omega), toNat_packComponents, BitVec.toNat_ofNat]
    change (s.toBitVec.toNat * 2 ^ 11 + 0) * 2 ^ 52 + m % 2 ^ 52 = _
    omega

/-- What stands behind the sign of a finite pattern says which number it is. -/
theorem unpack_of_toNat {b : BitVec Format.binary64.numBits} {s : Sign} {m : Nat} {e : ℤ}
    (hc : Canonical m e) (hb : b.toNat = s.toBitVec.toNat * 2 ^ 63 + pattern m e) :
    UnpackedFloat.unpack .binary64 b = .finite s m e hc.pos := by
  have heq : UnpackedFloat.pack .binary64 (.finite s m e hc.pos) = b :=
    BitVec.eq_of_toNat_eq ((toNat_pack s hc).trans hb.symm)
  have hlt := hc.lt
  have hleast := hc.least_le
  have hmost := hc.le_most
  have hpos := hc.pos
  subst heq
  by_cases hnormal : 2 ^ 52 ≤ m
  · obtain ⟨field, rfl⟩ : ∃ field : Nat, e = field - 1075 := ⟨(e + 1075).toNat, by omega⟩
    have hfield : (BitVec.ofNat 11 field).toNat = field := by
      rw [BitVec.toNat_ofNat]
      omega
    have hones : BitVec.ofNat 11 field ≠ -1#11 := fun h ↦ by
      have := congrArg BitVec.toNat h
      rw [hfield, show (-1#11).toNat = 2047 from rfl] at this
      omega
    have hnone : BitVec.ofNat 11 field ≠ 0#11 := fun h ↦ by
      have := congrArg BitVec.toNat h
      rw [hfield, show (0#11).toNat = 0 from rfl] at this
      omega
    have hmantissa : (1#1 ++ BitVec.ofNat 52 m).toNat = m := by
      rw [toNat_append, BitVec.toNat_ofNat]
      simp only [BitVec.toNat_ofNat]
      omega
    rw [pack_normal s hpos hnormal hlt (by omega), UnpackedFloat.unpack]
    simp only [unpackExponent_packComponents, unpackMantissa_packComponents,
      unpackSign_packComponents, Sign.ofBitVec_toBitVec, if_neg hones, if_neg hnone, hfield,
      hmantissa, exponentBias_eq, finite.injEq, true_and]
    omega
  · obtain rfl : e = -1074 := hc.normal.resolve_left hnormal
    have hmantissa : (BitVec.ofNat 52 m).toNat = m := by
      rw [BitVec.toNat_ofNat]
      omega
    have hnone : BitVec.ofNat 52 m ≠ 0#52 := fun h ↦ by
      have := congrArg BitVec.toNat h
      rw [hmantissa, show (0#52).toNat = 0 from rfl] at this
      omega
    rw [pack_subnormal s hpos (by omega), UnpackedFloat.unpack]
    simp only [unpackExponent_packComponents, unpackMantissa_packComponents,
      unpackSign_packComponents, Sign.ofBitVec_toBitVec, hmantissa, exponentBias_eq]
    rw [if_neg (by decide), if_pos (by rfl), dif_neg hnone]
    rfl

/-- Unpacking gives a canonical number back that was packed. -/
theorem unpack_pack {u : UnpackedFloat} (h : IsCanonical u) : (Float.Model.pack u).unpack = u := by
  cases u with
  | notANumber => rfl
  | infinity s => cases s <;> rfl
  | zero s => cases s <;> rfl
  | finite s m e hm => exact unpack_of_toNat h (toNat_pack s h)

/-! ## Order -/

/-- A number with a greater exponent is greater, because its significand fills the width. -/
theorem BinaryFormat.Canonical.mul_lt_mul {m n : Nat} {p q : ℤ} (hm : Canonical m p)
    (hn : Canonical n q) (h : p < q) : (m : ℚ) * 2 ^ p < n * 2 ^ q := by
  have hleast := hm.least_le
  have hwidth : (2 : ℚ) ^ 52 ≤ n := by exact_mod_cast hn.normal.resolve_right (by omega)
  have hlt : (m : ℚ) < 2 ^ 53 := by exact_mod_cast hm.lt
  calc (m : ℚ) * 2 ^ p
      < 2 ^ 53 * 2 ^ p := mul_lt_mul_of_pos_right hlt (by positivity)
    _ = 2 ^ 52 * 2 ^ (p + 1) := by
      rw [zpow_add₀ two_ne_zero]
      ring
    _ ≤ 2 ^ 52 * 2 ^ q :=
      mul_le_mul_of_nonneg_left (zpow_le_zpow_right₀ one_le_two h) (by positivity)
    _ ≤ n * 2 ^ q := mul_le_mul_of_nonneg_right hwidth (by positivity)

theorem compare_magnitude {m n : Nat} {p q : ℤ} (hm : Canonical m p) (hn : Canonical n q) :
    (compare p q).then (compare m n) = compare ((m : ℚ) * 2 ^ p) (n * 2 ^ q) := by
  rcases lt_trichotomy p q with h | rfl | h
  · rw [compare_lt_iff_lt.mpr h, compare_lt_iff_lt.mpr (hm.mul_lt_mul hn h)]
    rfl
  · have hpos : (0 : ℚ) < 2 ^ p := by positivity
    rw [compare_eq_iff_eq.mpr rfl, Ordering.eq_then]
    rcases lt_trichotomy m n with h | rfl | h
    · have hlt : (m : ℚ) < n := by exact_mod_cast h
      rw [compare_lt_iff_lt.mpr h, compare_lt_iff_lt.mpr (mul_lt_mul_of_pos_right hlt hpos)]
    · rw [compare_eq_iff_eq.mpr rfl, compare_eq_iff_eq.mpr rfl]
    · have hlt : (n : ℚ) < m := by exact_mod_cast h
      rw [compare_gt_iff_gt.mpr h, compare_gt_iff_gt.mpr (mul_lt_mul_of_pos_right hlt hpos)]
  · rw [compare_gt_iff_gt.mpr h, compare_gt_iff_gt.mpr (hn.mul_lt_mul hm h)]
    rfl

theorem compare_neg_neg (a b : ℚ) : compare (-a) (-b) = (compare a b).swap := by
  rcases lt_trichotomy a b with h | rfl | h
  · rw [compare_lt_iff_lt.mpr h, compare_gt_iff_gt.mpr (neg_lt_neg h)]
    rfl
  · rw [compare_eq_iff_eq.mpr rfl, compare_eq_iff_eq.mpr rfl]
    rfl
  · rw [compare_gt_iff_gt.mpr h, compare_lt_iff_lt.mpr (neg_lt_neg h)]
    rfl

@[simp] theorem exactValue_zero (s : Sign) : exactValue (.zero s) = 0 := rfl

@[simp] theorem exactValue_positive {m : Nat} {e : ℤ} (hm : 0 < m) :
    exactValue (.finite .positive m e hm) = m * 2 ^ e := rfl

@[simp] theorem exactValue_negative {m : Nat} {e : ℤ} (hm : 0 < m) :
    exactValue (.finite .negative m e hm) = -(m * 2 ^ e) := by
  simp [exactValue, Sign.apply]

theorem abs_exactValue (s : Sign) {m : Nat} {e : ℤ} (hm : 0 < m) :
    |exactValue (.finite s m e hm)| = m * 2 ^ e := by
  have hpos : (0 : ℚ) ≤ m * 2 ^ e := by positivity
  cases s with
  | positive => rw [exactValue_positive, abs_of_nonneg hpos]
  | negative => rw [exactValue_negative, abs_neg, abs_of_nonneg hpos]

/-- Finite numbers compare as their values do. -/
theorem compare_eq {u v : UnpackedFloat} (hu : IsCanonical u) (hv : IsCanonical v)
    (hfu : u.isFinite = true) (hfv : v.isFinite = true) :
    u.compare v = some (compare (exactValue u) (exactValue v)) := by
  have hpos : ∀ {m : Nat} (e : ℤ), 0 < m → (0 : ℚ) < m * 2 ^ e := fun e hm ↦ by positivity
  cases u with
  | notANumber | infinity s => cases hfu
  | zero s =>
    cases v with
    | notANumber | infinity s => cases hfv
    | zero s' => exact congrArg some (compare_eq_iff_eq.mpr rfl).symm
    | finite s' n q hn =>
      cases s' with
      | positive =>
        rw [exactValue_zero, exactValue_positive, compare_lt_iff_lt.mpr (hpos q hn)]
        rfl
      | negative =>
        rw [exactValue_zero, exactValue_negative,
          compare_gt_iff_gt.mpr (neg_lt_zero.mpr (hpos q hn))]
        rfl
  | finite s m p hm =>
    cases v with
    | notANumber | infinity s => cases hfv
    | zero s' =>
      cases s with
      | positive =>
        rw [exactValue_zero, exactValue_positive, compare_gt_iff_gt.mpr (hpos p hm)]
        rfl
      | negative =>
        rw [exactValue_zero, exactValue_negative,
          compare_lt_iff_lt.mpr (neg_lt_zero.mpr (hpos p hm))]
        rfl
    | finite s' n q hn =>
      -- Different signs decide at once, and equal ones leave it to the magnitudes.
      have hnegative := neg_lt_zero.mpr (hpos p hm)
      have hnegative' := neg_lt_zero.mpr (hpos q hn)
      cases s <;> cases s' <;> simp only [exactValue_positive, exactValue_negative]
      · rw [compare_neg_neg, ← compare_magnitude hu hv]
        rfl
      · rw [compare_lt_iff_lt.mpr (hnegative.trans (hpos q hn))]
        rfl
      · rw [compare_gt_iff_gt.mpr (hnegative'.trans (hpos p hm))]
        rfl
      · rw [← compare_magnitude hu hv]
        rfl

namespace Double

/-- The exact value of a finite number, and zero for what is not finite. -/
def value (x : Float) : ℚ := exactValue x.toModel.unpack

/-- A number is finite and has this exact value. -/
structure HasValue (x : Float) (v : ℚ) : Prop where
  finite : x.isFinite = true
  eq : value x = v

theorem hasValue_value {x : Float} (h : x.isFinite = true) : HasValue x (value x) := ⟨h, rfl⟩

theorem canonical_of_unpack {x : Float} {s : Sign} {m : Nat} {e : ℤ} {hm : 0 < m}
    (h : x.toModel.unpack = .finite s m e hm) : Canonical m e := by
  have hc : IsCanonical x.toModel.unpack := canonical_unpack _
  rwa [h] at hc

/-- A number with a value is a zero or a canonical number. -/
theorem HasValue.unpack_cases {x : Float} {a : ℚ} (hx : HasValue x a) :
    (∃ s, x.toModel.unpack = .zero s ∧ a = 0) ∨
      ∃ s m e hm, x.toModel.unpack = .finite s m e hm ∧ Canonical m e ∧
        a = exactValue (.finite s m e hm) := by
  obtain ⟨hfinite, rfl⟩ := hx
  change x.toModel.unpack.isFinite = true at hfinite
  rw [value]
  cases hu : x.toModel.unpack with
  | notANumber | infinity s =>
    rw [hu] at hfinite
    cases hfinite
  | zero s => exact .inl ⟨s, rfl, rfl⟩
  | finite s m e hm => exact .inr ⟨s, m, e, hm, rfl, canonical_of_unpack hu, rfl⟩

theorem lt_iff {x y : Float} :
    x < y ↔ x.toModel.unpack.compare y.toModel.unpack = some .lt := by
  rw [← beq_iff_eq]
  exact decide_eq_true_iff

theorem le_iff {x y : Float} :
    x ≤ y ↔ (x.toModel.unpack.compare y.toModel.unpack).any (·.isLE) = true :=
  decide_eq_true_iff

theorem beq_iff {x y : Float} :
    (x == y) = true ↔ x.toModel.unpack.compare y.toModel.unpack = some .eq := by
  change (x.toModel.unpack.compare y.toModel.unpack == some .eq) = true ↔ _
  exact beq_iff_eq

namespace HasValue

variable {x y lo hi : Float} {a b : ℚ}

theorem compare (hx : HasValue x a) (hy : HasValue y b) :
    x.toModel.unpack.compare y.toModel.unpack = some (compare a b) := by
  obtain ⟨hfx, rfl⟩ := hx
  obtain ⟨hfy, rfl⟩ := hy
  exact compare_eq (canonical_unpack _) (canonical_unpack _) hfx hfy

theorem lt_iff (hx : HasValue x a) (hy : HasValue y b) : x < y ↔ a < b := by
  rw [Double.lt_iff, hx.compare hy, Option.some_inj, compare_lt_iff_lt]

theorem le_iff (hx : HasValue x a) (hy : HasValue y b) : x ≤ y ↔ a ≤ b := by
  rw [Double.le_iff, hx.compare hy, Option.any_some, ← compare_le_iff_le, Ordering.isLE_iff_ne_gt]

theorem beq_iff (hx : HasValue x a) (hy : HasValue y b) : (x == y) = true ↔ a = b := by
  rw [Double.beq_iff, hx.compare hy, Option.some_inj, compare_eq_iff_eq]

/-- Finite numbers lie between the infinities. -/
theorem compare_infinity (hx : HasValue x a) (s : Sign) :
    x.toModel.unpack.compare (.infinity s)
        = some (match s with | .positive => .lt | .negative => .gt)
      ∧ (UnpackedFloat.infinity s).compare x.toModel.unpack
        = some (match s with | .positive => .gt | .negative => .lt) := by
  rcases hx.unpack_cases with ⟨s', hu, -⟩ | ⟨s', m, e, hm, hu, -, -⟩ <;> rw [hu] <;>
    cases s <;> exact ⟨rfl, rfl⟩

/-- Only zero has two forms. -/
theorem inj (hx : HasValue x a) (hy : HasValue y a) (ha : a ≠ 0) : x = y := by
  have hbeq := (hx.beq_iff hy).mpr rfl
  obtain ⟨-, -, h | ⟨rfl, -⟩ | ⟨rfl, -⟩⟩ := Float.beq_iff_ne_nan_and_eq.mp hbeq
  · exact h
  · exact absurd hx.eq.symm ha
  · exact absurd hx.eq.symm ha

end HasValue

/-! ## Parts -/

theorem decode_pattern {m : Nat} {e : ℤ} (hc : Canonical m e) :
    BinaryFormat.double.decode (pattern m e) = (m, e) := by
  have hlt := hc.lt
  have hleast := hc.least_le
  change (if pattern m e / 2 ^ 52 = 0 then (pattern m e % 2 ^ 52, -1074)
    else (pattern m e % 2 ^ 52 + 2 ^ 52, -1074 + ((pattern m e / 2 ^ 52 - 1 : Nat) : ℤ))) = (m, e)
  rw [pattern]
  by_cases hnormal : 2 ^ 52 ≤ m
  · rw [if_neg (by omega), Prod.mk.injEq]
    omega
  · have heq := hc.normal.resolve_left hnormal
    rw [if_pos (by omega), Prod.mk.injEq]
    omega

/-- The pattern of a finite number is that of its magnitude behind its sign. -/
theorem toBits_of_unpack {x : Float} {s : Sign} {m : Nat} {e : ℤ} {hm : 0 < m}
    (h : x.toModel.unpack = .finite s m e hm) :
    x.toBits.toNat = s.toBitVec.toNat * 2 ^ 63 + pattern m e := by
  rw [← toNat_pack s (canonical_of_unpack h), ← h]
  exact congrArg BitVec.toNat (pack_unpack_of_valid x.toModel.valid).symm

theorem toBits_of_unpack_zero {x : Float} {s : Sign} (h : x.toModel.unpack = .zero s) :
    x.toBits.toNat = s.toBitVec.toNat * 2 ^ 63 := by
  have hzero : (UnpackedFloat.pack .binary64 (.zero s)).toNat = s.toBitVec.toNat * 2 ^ 63 := by
    cases s <;> rfl
  rw [← hzero, ← h]
  exact congrArg BitVec.toNat (pack_unpack_of_valid x.toModel.valid).symm

theorem HasValue.isNaN {x : Float} {a : ℚ} (hx : HasValue x a) : x.isNaN = false := by
  change x.toModel.unpack.isNaN = false
  rcases hx.unpack_cases with ⟨s, hu, -⟩ | ⟨s, m, e, hm, hu, -, -⟩ <;> rw [hu] <;> rfl

/-- Parts and sign are read off the pattern, below its highest bit and at it. -/
theorem parts_of_toBits {x : Float} {s : Sign} {low : Nat} (hnan : x.isNaN = false)
    (hlow : low < 2 ^ 63) (h : x.toBits.toNat = s.toBitVec.toNat * 2 ^ 63 + low) :
    parts x = BinaryFormat.double.decode low ∧ (isNegative x = true ↔ s = .negative) := by
  have hsign : signBit = 2 ^ 63 := rfl
  rw [parts, isNegative, hnan, h, hsign]
  cases s with
  | positive =>
    rw [show Sign.positive.toBitVec.toNat = 0 from rfl, Nat.zero_mul, Nat.zero_add,
      Nat.mod_eq_of_lt hlow]
    simpa using hlow
  | negative =>
    rw [show Sign.negative.toBitVec.toNat = 1 from rfl, Nat.one_mul, Nat.add_mod_left,
      Nat.mod_eq_of_lt hlow]
    simp

theorem parts_of_unpack_zero {x : Float} {s : Sign} (h : x.toModel.unpack = .zero s) :
    parts x = (0, -1074) ∧ (isNegative x = true ↔ s = .negative) := by
  have hvalue : HasValue x 0 := by
    constructor
    · change x.toModel.unpack.isFinite = true
      rw [h]
      rfl
    · rw [value, h, exactValue_zero]
  have hdecode : BinaryFormat.double.decode 0 = (0, -1074) := rfl
  have hbits := toBits_of_unpack_zero h
  rw [← Nat.add_zero (_ * _)] at hbits
  rw [← hdecode]
  exact parts_of_toBits hvalue.isNaN (Nat.two_pow_pos 63) hbits

theorem parts_of_unpack {x : Float} {s : Sign} {m : Nat} {e : ℤ} {hm : 0 < m}
    (h : x.toModel.unpack = .finite s m e hm) :
    parts x = (m, e) ∧ (isNegative x = true ↔ s = .negative) := by
  have hc := canonical_of_unpack h
  have hlow : pattern m e < 2 ^ 63 := by
    have hlt := hc.lt
    have hmost := hc.le_most
    rw [pattern]
    omega
  have hnan : x.isNaN = false := by
    change x.toModel.unpack.isNaN = false
    rw [h]
    rfl
  rw [← decode_pattern hc]
  exact parts_of_toBits hnan hlow (toBits_of_unpack h)

namespace HasValue

variable {x : Float} {a : ℚ}

/-- The magnitude of a finite number is that of its parts, and its sign that of its pattern. -/
theorem parts (hx : HasValue x a) :
    |a| = (parts x).1 * 2 ^ (parts x).2 ∧ (isNegative x = true → a ≤ 0) ∧
      (isNegative x = false → 0 ≤ a) := by
  rcases hx.unpack_cases with ⟨s, hu, rfl⟩ | ⟨s, m, e, hm, hu, hc, rfl⟩
  · rw [(parts_of_unpack_zero hu).1]
    simp
  · obtain ⟨hparts, hnegative⟩ := parts_of_unpack hu
    have hpos : (0 : ℚ) ≤ m * 2 ^ e := by positivity
    rw [hparts]
    refine ⟨abs_exactValue s hm, fun h ↦ ?_, fun h ↦ ?_⟩
    · obtain rfl := hnegative.mp h
      rw [exactValue_negative]
      exact neg_nonpos.mpr hpos
    · cases s with
      | positive => exact hpos
      | negative => exact absurd (hnegative.mpr rfl) (by simp [h])

end HasValue

/-! ## Whole parts -/

/-- The whole part of `m · 2 ^ q`, and whether a fraction is dropped with it. -/
def wholeOf (m : Nat) (q : ℤ) : Nat × Bool :=
  if 0 ≤ q then (m * twoTo q.toNat, false)
  else (m / twoTo (-q).toNat, m % twoTo (-q).toNat ≠ 0)

theorem truncate_eq (x : Float) : truncate x = if x.isFinite then
    if isNegative x then -((wholeOf (parts x).1 (parts x).2).1 : ℤ)
    else (wholeOf (parts x).1 (parts x).2).1 else 0 := rfl

theorem isWhole_eq (x : Float) :
    isWhole x = (x.isFinite && !(wholeOf (parts x).1 (parts x).2).2) := rfl

theorem finite_of_isWhole {x : Float} (h : isWhole x = true) : x.isFinite = true := by
  rw [isWhole_eq, Bool.and_eq_true] at h
  exact h.1

theorem floor_eq (x : Float) : floor x = if !x.isFinite || isWhole x then x
    else if isNegative x then ofParts true ((wholeOf (parts x).1 (parts x).2).1 + 1) 0
    else ofParts false (wholeOf (parts x).1 (parts x).2).1 0 := rfl

theorem mul_two_zpow (m k : Nat) : (m : ℚ) * 2 ^ (k : ℤ) = (m * 2 ^ k : Nat) := by
  rw [zpow_natCast]
  push_cast
  rfl

theorem mul_two_zpow_neg (m k : Nat) : (m : ℚ) * 2 ^ (-(k : ℤ)) = m / (2 ^ k : Nat) := by
  rw [zpow_neg, zpow_natCast, div_eq_mul_inv]
  push_cast
  rfl

theorem wholeOf_fst (m : Nat) (q : ℤ) : (wholeOf m q).1 = ⌊(m : ℚ) * 2 ^ q⌋₊ := by
  rw [wholeOf]
  split
  next h =>
    obtain ⟨k, rfl⟩ := Int.eq_ofNat_of_zero_le h
    rw [mul_two_zpow, Nat.floor_natCast]
    rfl
  next h =>
    obtain ⟨k, rfl⟩ : ∃ k : Nat, q = -(k : ℤ) := ⟨(-q).toNat, by omega⟩
    rw [mul_two_zpow_neg, Nat.floor_div_eq_div, neg_neg]
    rfl

theorem wholeOf_snd (m : Nat) (q : ℤ) :
    (wholeOf m q).2 = false ↔ (⌊(m : ℚ) * 2 ^ q⌋₊ : ℚ) = m * 2 ^ q := by
  rw [← wholeOf_fst, wholeOf]
  split
  next h =>
    obtain ⟨k, rfl⟩ := Int.eq_ofNat_of_zero_le h
    simp [twoTo_eq]
  next h =>
    obtain ⟨k, rfl⟩ : ∃ k : Nat, q = -(k : ℤ) := ⟨(-q).toNat, by omega⟩
    have hpos : (0 : ℚ) < 2 ^ k := by positivity
    rw [neg_neg, Int.toNat_natCast, twoTo_eq, zpow_neg, zpow_natCast, ← div_eq_mul_inv,
      eq_div_iff hpos.ne']
    simp only [ne_eq, decide_not, Bool.not_eq_false', decide_eq_true_eq]
    have hdiv := Nat.div_add_mod m (2 ^ k)
    constructor
    · intro hzero
      rw [hzero, Nat.add_zero, Nat.mul_comm] at hdiv
      exact_mod_cast hdiv
    · intro heq
      have heq' : m / 2 ^ k * 2 ^ k = m := by exact_mod_cast heq
      rw [Nat.mul_comm] at heq'
      omega

namespace HasValue

variable {x : Float} {a : ℚ}

theorem truncate (hx : HasValue x a) (ha : 0 ≤ a) : truncate x = (⌊a⌋₊ : ℤ) := by
  obtain ⟨hparts, hneg, -⟩ := hx.parts
  rw [abs_of_nonneg ha] at hparts
  rw [truncate_eq, if_pos hx.finite, wholeOf_fst, ← hparts]
  split
  next h =>
    rw [le_antisymm (hneg h) ha, Nat.floor_zero]
    rfl
  next => rfl

theorem toNat (hx : HasValue x a) (ha : 0 ≤ a) (hlt : a < 2 ^ 64) : toNat x = ⌊a⌋₊ := by
  have hfloor : ⌊a⌋₊ < 2 ^ 64 := (Nat.floor_lt ha).mpr (by exact_mod_cast hlt)
  have hlast : (twoTo 64 : ℤ) = 2 ^ 64 := rfl
  rw [Double.toNat, toIntWithin, hx.isNaN, if_neg (by decide), if_pos hx.finite, hx.truncate ha,
    hlast]
  omega

theorem isWhole_iff (hx : HasValue x a) (ha : 0 ≤ a) : isWhole x = true ↔ (⌊a⌋₊ : ℚ) = a := by
  have hparts := hx.parts.1
  rw [abs_of_nonneg ha] at hparts
  rw [isWhole_eq, hx.finite, Bool.true_and, Bool.not_eq_true', wholeOf_snd, ← hparts]

/-- The parts of a whole number, of which nothing is dropped. -/
theorem wholeOf_parts {n : ℤ} (hx : HasValue x n) :
    wholeOf (Double.parts x).1 (Double.parts x).2 = (n.natAbs, false) := by
  have hparts := hx.parts.1
  rw [← Int.cast_abs, ← Int.natCast_natAbs, Int.cast_natCast] at hparts
  refine Prod.ext ?_ ?_
  · rw [wholeOf_fst, ← hparts, Nat.floor_natCast]
  · rw [wholeOf_snd, ← hparts, Nat.floor_natCast]

/-- A whole number is its own floor. -/
theorem floor_intCast {n : ℤ} (hx : HasValue x n) : floor x = x := by
  rw [floor_eq, isWhole_eq, hx.wholeOf_parts, hx.finite]
  rfl

theorem truncate_intCast {n : ℤ} (hx : HasValue x n) : Double.truncate x = n := by
  obtain ⟨-, hneg, hpos⟩ := hx.parts
  rw [truncate_eq, if_pos hx.finite, hx.wholeOf_parts]
  split
  next h =>
    have hle : n ≤ 0 := by exact_mod_cast hneg h
    omega
  next h =>
    have hge : 0 ≤ n := by exact_mod_cast hpos (Bool.eq_false_of_not_eq_true h)
    omega

theorem toInt64_intCast {n : ℤ} (hx : HasValue x n) :
    toInt64 x = max (-2 ^ 63) (min (2 ^ 63 - 1) n) := by
  rw [toInt64, toIntWithin, hx.isNaN, if_neg (by decide), if_pos hx.finite, hx.truncate_intCast]
  rfl

end HasValue

/-! ## Limits -/

theorem exists_hasValue_or (x : Float) : x.toModel.unpack = .notANumber ∨
    (∃ s, x.toModel.unpack = .infinity s) ∨ ∃ a, HasValue x a := by
  cases hu : x.toModel.unpack with
  | notANumber => exact .inl rfl
  | infinity s => exact .inr (.inl ⟨s, rfl⟩)
  | zero s | finite s m e hm =>
    refine .inr (.inr ⟨_, hasValue_value ?_⟩)
    change x.toModel.unpack.isFinite = true
    rw [hu]
    rfl

variable {x lo hi : Float} {a l h : ℚ}

theorem clamp_of_lt (hlt : x < lo) : clamp lo hi x = lo := if_pos hlt

/-- What is above the upper limit is not below the lower one. -/
theorem clamp_of_gt (hlo : HasValue lo l) (hhi : HasValue hi h) (hle : l ≤ h) (hlt : hi < x) :
    clamp lo hi x = hi := by
  rw [clamp, if_neg, if_pos hlt]
  rw [lt_iff] at hlt ⊢
  rcases exists_hasValue_or x with hx | ⟨s, hx⟩ | ⟨a, hx⟩
  · rw [hx]
    intro heq
    cases heq
  -- Only the positive infinity is above the upper limit.
  · cases s with
    | negative =>
      rw [hx, (hhi.compare_infinity .negative).1] at hlt
      cases hlt
    | positive =>
      rw [hx, (hlo.compare_infinity .positive).2]
      intro heq
      cases heq
  · rw [← lt_iff, hhi.lt_iff hx] at hlt
    rw [← lt_iff, hx.lt_iff hlo]
    exact not_lt.mpr (hle.trans hlt.le)

theorem clamp_of_le (hlo : HasValue lo l) (hhi : HasValue hi h) (hx : HasValue x a) (hl : l ≤ a)
    (hh : a ≤ h) : clamp lo hi x = x := by
  rw [clamp, if_neg, if_neg]
  · rw [hhi.lt_iff hx]
    exact not_lt.mpr hh
  · rw [hx.lt_iff hlo]
    exact not_lt.mpr hl

/-- Whatever is not a number stays so, and everything else ends up between the limits. -/
theorem clamp_cases (hlo : HasValue lo l) (hhi : HasValue hi h) (hle : l ≤ h) (x : Float) :
    (clamp lo hi x).toModel.unpack = .notANumber ∨
      ∃ c, HasValue (clamp lo hi x) c ∧ l ≤ c ∧ c ≤ h := by
  by_cases hbelow : x < lo
  · rw [clamp_of_lt hbelow]
    exact .inr ⟨l, hlo, le_rfl, hle⟩
  by_cases habove : hi < x
  · rw [clamp_of_gt hlo hhi hle habove]
    exact .inr ⟨h, hhi, hle, le_rfl⟩
  rw [clamp, if_neg hbelow, if_neg habove]
  rw [lt_iff] at hbelow habove
  rcases exists_hasValue_or x with hx | ⟨s, hx⟩ | ⟨a, hx⟩
  · exact .inl hx
  · cases s with
    | negative => exact absurd (hx ▸ (hlo.compare_infinity .negative).2) hbelow
    | positive => exact absurd (hx ▸ (hhi.compare_infinity .positive).1) habove
  · rw [← lt_iff, hx.lt_iff hlo, not_lt] at hbelow
    rw [← lt_iff, hhi.lt_iff hx, not_lt] at habove
    exact .inr ⟨a, hx, hbelow, habove⟩

/-- What lies between two finite numbers is finite. -/
theorem isFinite_of_le_of_lt (hlo : HasValue lo l) (hhi : HasValue hi h) (hle : lo ≤ x)
    (hlt : x < hi) : x.isFinite = true := by
  rw [le_iff] at hle
  rw [lt_iff] at hlt
  rcases exists_hasValue_or x with hx | ⟨s, hx⟩ | ⟨a, hx⟩
  · rw [hx] at hlt
    cases hlt
  · cases s with
    | negative =>
      rw [hx, (hlo.compare_infinity .negative).1] at hle
      cases hle
    | positive =>
      rw [hx, (hhi.compare_infinity .positive).2] at hlt
      cases hlt
  · exact hx.finite

theorem exists_hasValue_of_lt (hlo : HasValue lo l) (hhi : HasValue hi h) (hgt : lo < x)
    (hlt : x < hi) : ∃ a, HasValue x a ∧ l < a ∧ a < h := by
  have hle : lo ≤ x := by
    rw [lt_iff] at hgt
    rw [le_iff, hgt]
    rfl
  have hx := hasValue_value (isFinite_of_le_of_lt hlo hhi hle hlt)
  exact ⟨_, hx, (hlo.lt_iff hx).mp hgt, (hx.lt_iff hhi).mp hlt⟩

end Double

end StackSynth
