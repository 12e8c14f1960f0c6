import StackSynth.Number.Sample
import StackSynth.Proofs.Number.Scaling

/-!
# The exact value of a sample

A sample that is neither infinite nor a not-a-number has a significand of 24 bits at most, and an
exponent from `-149` to `104` (`Sample.exact_of_hasValue`). Numbers of this form are kept by 32
bits: the sample nearest to such a number has its value (`Sample.hasValue_ofDouble`).

Both rest on the form in which the significand fills its width or the exponent is the least one,
because the pattern of a sample is that of this form (`Sample.encode_eq`, `Sample.decode_eq`).
-/

namespace StackSynth

open BinaryFormat Double

/-- What 32 bits keep. -/
def Sample.Exact (v : ℚ) : Prop :=
  ∃ (m : Nat) (q : ℤ), m < 2 ^ 24 ∧ -149 ≤ q ∧ q ≤ 104 ∧ |v| = m * 2 ^ q

namespace Sample

/-- The significand and the exponent that a pattern has. -/
structure Normal (m : Nat) (q : ℤ) : Prop where
  lt : m < 2 ^ 24
  least_le : -149 ≤ q
  le_most : q ≤ 104
  normal : 2 ^ 23 ≤ m ∨ q = -149

/-- The pattern of `m · 2 ^ q`. -/
def pattern (m : Nat) (q : ℤ) : Nat := (q + 149).toNat * 2 ^ 23 + m

theorem Exact.exists_normal {v : ℚ} (h : Exact v) :
    ∃ m q, Normal m q ∧ |v| = m * 2 ^ q := by
  obtain ⟨m, q, hlt, hleast, hmost, hv⟩ := h
  rcases Nat.eq_zero_or_pos m with rfl | hm
  · refine ⟨0, -149, ⟨by decide, le_rfl, by decide, .inr rfl⟩, ?_⟩
    rw [hv, Nat.cast_zero, zero_mul, zero_mul]
  · obtain ⟨k, hhi, hleast', hnormal⟩ := StackSynth.exists_normal hm hlt hleast
    exact ⟨m * 2 ^ k, q - k, ⟨hhi, hleast', by omega, hnormal⟩,
      hv.trans (mul_two_zpow_sub m k q).symm⟩

theorem Exact.representable {v : ℚ} (h : Exact v) : Representable v := by
  obtain ⟨m, q, hlt, hleast, hmost, hv⟩ := h
  exact representable_of_lt hv (by omega) (by omega) (by omega)

theorem Normal.pattern_lt {m : Nat} {q : ℤ} (h : Normal m q) : pattern m q < single.infinity := by
  have hlt := h.lt
  have hmost := h.le_most
  have hinfinity : single.infinity = 255 * 2 ^ 23 := rfl
  rw [pattern, hinfinity]
  omega

theorem decode_eq {m : Nat} {q : ℤ} (h : Normal m q) : single.decode (pattern m q) = (m, q) := by
  have hlt := h.lt
  have hleast := h.least_le
  change (if pattern m q / 2 ^ 23 = 0 then (pattern m q % 2 ^ 23, -149)
    else (pattern m q % 2 ^ 23 + 2 ^ 23, -149 + ((pattern m q / 2 ^ 23 - 1 : Nat) : ℤ))) = (m, q)
  rw [pattern]
  by_cases hnormal : 2 ^ 23 ≤ m
  · rw [if_neg (by omega), Prod.mk.injEq]
    omega
  · have heq := h.normal.resolve_left hnormal
    rw [if_pos (by omega), Prod.mk.injEq]
    omega

/-- A number of this form has its pattern, however it is written. -/
theorem encode_eq {m n : Nat} {q e : ℤ} (h : Normal m q) (heq : (n : ℚ) * 2 ^ e = m * 2 ^ q) :
    single.encode n e = pattern m q := by
  have hpos : (0 : ℚ) < 2 ^ q := by positivity
  have hpos' : (0 : ℚ) < 2 ^ e := by positivity
  rcases Nat.eq_zero_or_pos m with rfl | hm
  · rw [Nat.cast_zero, zero_mul, mul_eq_zero, or_iff_left hpos'.ne'] at heq
    obtain rfl : n = 0 := by exact_mod_cast heq
    rw [h.normal.resolve_left (by decide)]
    rfl
  have hn : 0 < n := by
    have hvalue : (0 : ℚ) < n * 2 ^ e := by
      rw [heq]
      positivity
    exact_mod_cast pos_of_mul_pos_left hvalue hpos'.le
  have hexponent : max (e + (n.log2 + 1 : ℤ) - 24) (-149) = q := by
    have hwidth := width_eq hm hn heq
    have hlog : m.log2 < 24 := (Nat.log2_lt hm.ne').mpr h.lt
    have hnormal : 23 ≤ m.log2 ∨ q = -149 :=
      h.normal.imp_left fun hwide ↦ (Nat.le_log2 hm.ne').mpr hwide
    have hleast := h.least_le
    omega
  have hsignificand : (if q ≤ e then n * twoTo (e - q).toNat else roundShift n (q - e).toNat)
      = m := by
    refine significand_eq ?_ ?_ fun _ ↦ ⟨?_, ?_⟩ <;> rw [heq] <;> linarith
  rw [encode, if_neg hn.ne']
  change min ((max (e + (n.log2 + 1 : ℤ) - 24) (-149) - -149).toNat * 2 ^ 23
    + if max (e + (n.log2 + 1 : ℤ) - 24) (-149) ≤ e then
        n * twoTo (e - max (e + (n.log2 + 1 : ℤ) - 24) (-149)).toNat
      else roundShift n (max (e + (n.log2 + 1 : ℤ) - 24) (-149) - e).toNat) single.infinity = _
  rw [hexponent, hsignificand, Int.sub_neg]
  exact Nat.min_eq_left h.pattern_lt.le

/-! ## From 32 bits to 64 -/

/-- A sample with a finite pattern has the value that the pattern says. -/
theorem hasValue_toDouble {s : Sample} {m : Nat} {q : ℤ} (h : Normal m q)
    (hs : s.magnitude = pattern m q) :
    HasValue s.toDouble (if s.isNegative then -(m * 2 ^ q) else m * 2 ^ q) := by
  have hlt := h.pattern_lt
  have hnan : s.isNaN = false := by
    rw [isNaN, hs]
    exact decide_eq_false hlt.le.not_gt
  have hvalue : Exact (m * 2 ^ q) :=
    ⟨m, q, h.lt, h.least_le, h.le_most, abs_of_nonneg (by positivity)⟩
  rw [toDouble, hnan, if_neg (by decide), hs, if_neg hlt.ne, decode_eq h]
  exact hasValue_ofParts s.isNegative hvalue.representable

theorem exists_normal_of_lt {bits : Nat} (h : bits < single.infinity) :
    ∃ m q, Normal m q ∧ bits = pattern m q := by
  have hinfinity : single.infinity = 255 * 2 ^ 23 := rfl
  rw [hinfinity] at h
  by_cases hlow : bits < 2 ^ 23
  · refine ⟨bits, -149, ⟨by omega, le_rfl, by decide, .inr rfl⟩, ?_⟩
    rw [pattern]
    omega
  · refine ⟨bits % 2 ^ 23 + 2 ^ 23, bits / 2 ^ 23 - 150, ⟨by omega, by omega, by omega, ?_⟩, ?_⟩
    · exact .inl (by omega)
    · rw [pattern]
      omega

/-- The value of a sample is one that 32 bits keep. -/
theorem exact_of_hasValue {s : Sample} {v : ℚ} (h : HasValue s.toDouble v) : Exact v := by
  cases hnan : s.isNaN with
  | true =>
    rw [toDouble, hnan, if_pos rfl] at h
    exact absurd h.finite (by decide +kernel)
  | false =>
    have hle : s.magnitude ≤ single.infinity := not_lt.mp (of_decide_eq_false hnan)
    rcases Nat.lt_or_eq_of_le hle with hlt | heq
    · obtain ⟨m, q, hnormal, hs⟩ := exists_normal_of_lt hlt
      have hvalue := hasValue_toDouble hnormal hs
      refine ⟨m, q, hnormal.lt, hnormal.least_le, hnormal.le_most, ?_⟩
      rw [← h.eq, hvalue.eq]
      split
      next => rw [abs_neg, abs_of_nonneg (by positivity)]
      next => exact abs_of_nonneg (by positivity)
    · rw [toDouble, hnan, if_neg (by decide), if_pos heq] at h
      have hinfinite : ∀ negative, (ofParts negative 1 1024).isFinite = false := by decide +kernel
      exact absurd h.finite (by rw [hinfinite]; decide)

/-! ## From 64 bits to 32 -/

/-- A number that 32 bits keep is rounded to a sample with its value. -/
theorem hasValue_ofDouble {x : Float} {v : ℚ} (hx : HasValue x v) (hv : Exact v) :
    HasValue (ofDouble x).toDouble v := by
  obtain ⟨m, q, hnormal, habs⟩ := hv.exists_normal
  obtain ⟨hparts, hneg, hpos⟩ := hx.parts
  have hlt := hnormal.pattern_lt
  have hinfinity : single.infinity = 255 * 2 ^ 23 := rfl
  have hsign : ∀ s : Sample, s.magnitude = s.bits.toNat % 2 ^ 31 ∧
      s.isNegative = decide (2 ^ 31 ≤ s.bits.toNat) := fun _ ↦ ⟨rfl, rfl⟩
  have hbits : (ofDouble x).bits.toNat
      = if Double.isNegative x then pattern m q + 2 ^ 31 else pattern m q := by
    have hencode := encode_eq hnormal (hparts.symm.trans habs)
    have hdef : ofDouble x = ⟨(if Double.isNegative x then pattern m q + 2 ^ 31
        else pattern m q).toUInt32⟩ := by
      rw [ofDouble, hx.isNaN, if_neg (by decide), if_pos hx.finite, ← hencode]
      rfl
    rw [hdef]
    refine UInt32.toNat_ofNat_of_lt' ?_
    have hsize : UInt32.size = 2 ^ 32 := rfl
    split <;> omega
  have hmagnitude : (ofDouble x).magnitude = pattern m q := by
    rw [(hsign _).1, hbits]
    split <;> omega
  have hnegative : (ofDouble x).isNegative = Double.isNegative x := by
    rw [(hsign _).2, hbits]
    cases Double.isNegative x with
    | true => exact decide_eq_true (by rw [if_pos rfl]; omega)
    | false => exact decide_eq_false (by rw [if_neg (by decide)]; omega)
  have hvalue := hasValue_toDouble hnormal hmagnitude
  rw [hnegative, ← habs] at hvalue
  cases hs : Double.isNegative x with
  | true =>
    rw [hs, if_pos rfl, abs_of_nonpos (hneg hs), neg_neg] at hvalue
    exact hvalue
  | false =>
    rw [hs, if_neg (by decide), abs_of_nonneg (hpos hs)] at hvalue
    exact hvalue

/-- A product that 32 bits keep is exact. -/
theorem hasValue_mul {s t : Sample} {v w : ℚ} (hs : HasValue s.toDouble v)
    (ht : HasValue t.toDouble w) (h : Exact (v * w)) : HasValue (s * t).toDouble (v * w) :=
  hasValue_ofDouble (hs.mul ht h.representable) h

end Sample

end StackSynth
