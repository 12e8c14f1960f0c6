import Mathlib
import StackSynth.Number.Double

/-!
# Numbers and their bits
-/

namespace StackSynth

open Float.Model Float.Model.UnpackedFloat

/-! ## The three fields of a pattern -/

section Fields

variable (b : BitVec Format.binary64.numBits)

theorem toNat_unpackMantissa : (unpackMantissa b).toNat = b.toNat % 2 ^ 52 := by
  simp [unpackMantissa, BitVec.extractLsb]

theorem toNat_unpackExponent : (unpackExponent b).toNat = b.toNat / 2 ^ 52 % 2 ^ 11 := by
  simp [unpackExponent, BitVec.extractLsb, Nat.shiftRight_eq_div_pow]

theorem toNat_unpackSign : (unpackSign b).toNat = b.toNat / 2 ^ 63 := by
  have hlt : b.toNat < 2 ^ 64 := b.isLt
  simp [unpackSign, BitVec.extractLsb, Nat.shiftRight_eq_div_pow]
  omega

end Fields

theorem toNat_append {m n : Nat} (a : BitVec m) (b : BitVec n) :
    (a ++ b).toNat = a.toNat * 2 ^ n + b.toNat := by
  rw [BitVec.toNat_append, ← Nat.shiftLeft_add_eq_or_of_lt b.isLt, Nat.shiftLeft_eq]

theorem toNat_packComponents (s : Sign) (e : BitVec 11) (m : BitVec 52) :
    (packComponents .binary64 s e m).toNat
      = (s.toBitVec.toNat * 2 ^ 11 + e.toNat) * 2 ^ 52 + m.toNat := by
  rw [packComponents, toNat_append, toNat_append]

theorem exponentBias_eq : (Format.binary64.exponentBias : Int) = 1023 := rfl

theorem mantissaBits_eq : Format.binary64.mantissaBits = 53 := rfl

/-- A number below the least normal one has no leading bit and the exponent field zero. -/
theorem pack_subnormal (s : Sign) {m : Nat} (hm : 0 < m) (hlt : m < 2 ^ 52) :
    UnpackedFloat.pack .binary64 (.finite s m (-1074) hm)
      = packComponents .binary64 s 0 (BitVec.ofNat 52 m) := by
  have hlog : m.log2 < 52 := (Nat.log2_lt (Nat.ne_of_gt hm)).mpr hlt
  rw [UnpackedFloat.pack]
  dsimp only
  rw [exponentBias_eq, mantissaBits_eq, if_neg (by decide), if_neg (by omega)]
  rfl

/-- A normal number leaves out its leading bit. -/
theorem pack_normal (s : Sign) {m field : Nat} (hm : 0 < m) (hle : 2 ^ 52 ≤ m) (hlt : m < 2 ^ 53)
    (hfield : field < 2047) : UnpackedFloat.pack .binary64 (.finite s m (field - 1075) hm)
      = packComponents .binary64 s (BitVec.ofNat 11 field) (BitVec.ofNat 52 m) := by
  have hlog : m.log2 + 1 = 53 := by
    have h52 : 52 ≤ m.log2 := (Nat.le_log2 (Nat.ne_of_gt hm)).mpr hle
    have h53 : m.log2 < 53 := (Nat.log2_lt (Nat.ne_of_gt hm)).mpr hlt
    omega
  have hbiased : ((field : Int) - 1075 + 1023 + (52 : Nat)).toNat = field := by omega
  rw [UnpackedFloat.pack]
  dsimp only
  rw [exponentBias_eq, mantissaBits_eq, hbiased, if_neg (by omega), if_pos hlog]

/-- A finite number above zero has no sign bit, not all exponent bits, and some bit at all. -/
theorem toNat_of_unpack_eq {b : BitVec Format.binary64.numBits} {m : Nat} {e : Int} {hm : 0 < m}
    (h : UnpackedFloat.unpack .binary64 b = .finite .positive m e hm) :
    0 < b.toNat ∧ b.toNat < 2047 * 2 ^ 52 := by
  have hmantissa := toNat_unpackMantissa b
  have hexponent := toNat_unpackExponent b
  have hsign := toNat_unpackSign b
  have hpositive : Sign.ofBitVec (unpackSign b) = .positive → b.toNat < 2 ^ 63 := by
    intro hpos
    rcases BitVec.eq_zero_or_eq_one (unpackSign b) with hbit | hbit
    · rw [hbit, BitVec.toNat_zero] at hsign
      omega
    · rw [hbit] at hpos
      cases hpos
  rw [UnpackedFloat.unpack] at h
  dsimp only at h
  split at h
  next => split at h <;> cases h
  next hones =>
    have hfield : (unpackExponent b).toNat ≠ 2047 := fun heq ↦ hones (BitVec.toNat_inj.mp heq)
    split at h
    next hnone =>
      split at h
      next => cases h
      next hnonzero =>
        have hlt := hpositive (UnpackedFloat.finite.inj h).1
        have hlow : (unpackMantissa b).toNat ≠ 0 := fun heq ↦ hnonzero (BitVec.toNat_inj.mp heq)
        omega
    next hsome =>
      have hlt := hpositive (UnpackedFloat.finite.inj h).1
      have hnormal : (unpackExponent b).toNat ≠ 0 := fun heq ↦ hsome (BitVec.toNat_inj.mp heq)
      omega

/-- Packing gives a number back that was unpacked. -/
theorem pack_unpack (f : Float.Model) : Float.Model.pack f.unpack = f := by
  obtain ⟨bits, hvalid⟩ := f
  simp only [Float.Model.pack, Float.Model.unpack, pack_unpack_of_valid hvalid]

namespace Double

/-- A negative zero changes no number. -/
theorem negZero_add (x : Float) : -0.0 + x = x := by
  obtain ⟨f⟩ := x
  refine congrArg Float.ofModel ?_
  have hunpack : UnpackedFloat.add .binary64 (.zero .negative) f.unpack = f.unpack := by
    cases f.unpack with
    | zero s => cases s <;> rfl
    | _ => rfl
  exact (congrArg Float.Model.pack hunpack).trans (pack_unpack f)

/-! ## Finite numbers above zero -/

/-- A finite number above zero. -/
def IsPositive (x : Float) : Prop := ∃ m e hm, x.toModel.unpack = .finite .positive m e hm

theorem isPositive_of_pos_of_le {x y : Float} (hpos : 0 < x) (hle : x ≤ y)
    (hy : y.isFinite = true) : IsPositive x := by
  have hpos' : (0 : Float).toModel.unpack.lt x.toModel.unpack = true := of_decide_eq_true hpos
  have hle' : x.toModel.unpack.le y.toModel.unpack = true := of_decide_eq_true hle
  have hy' : y.toModel.unpack.isFinite = true := hy
  rw [show (0 : Float).toModel.unpack = .zero .positive from rfl] at hpos'
  rw [IsPositive]
  generalize x.toModel.unpack = u at hpos' hle' ⊢
  generalize y.toModel.unpack = v at hle' hy'
  cases u with
  | notANumber | zero s => cases hpos'
  | infinity s =>
    cases s with
    | negative => cases hpos'
    | positive =>
      cases v with
      | zero | finite => cases hle'
      | infinity | notANumber => cases hy'
  | finite s m e hm =>
    cases s with
    | negative => cases hpos'
    | positive => exact ⟨m, e, hm, rfl⟩

namespace IsPositive

variable {x : Float}

theorem isNaN (h : IsPositive x) : x.isNaN = false := by
  obtain ⟨m, e, hm, h⟩ := h
  change x.toModel.unpack.isNaN = false
  rw [h]
  rfl

theorem isFinite (h : IsPositive x) : x.isFinite = true := by
  obtain ⟨m, e, hm, h⟩ := h
  change x.toModel.unpack.isFinite = true
  rw [h]
  rfl

theorem beq_zero (h : IsPositive x) : (x == 0) = false := by
  obtain ⟨m, e, hm, h⟩ := h
  change x.toModel.unpack.beq (0 : Float).toModel.unpack = false
  rw [h, show (0 : Float).toModel.unpack = .zero .positive from rfl]
  rfl

theorem beq_infinity (h : IsPositive x) : (x == 1.0 / 0.0) = false := by
  obtain ⟨m, e, hm, h⟩ := h
  change x.toModel.unpack.beq (1.0 / 0.0 : Float).toModel.unpack = false
  rw [h, show (1.0 / 0.0 : Float).toModel.unpack = .infinity .positive from rfl]
  rfl

/-- Its pattern lies between those of zero and of infinity. -/
theorem toBits (h : IsPositive x) :
    0 < x.toBits.toNat ∧ x.toBits.toNat < BinaryFormat.double.infinity := by
  obtain ⟨m, e, hm, h⟩ := h
  exact toNat_of_unpack_eq h

theorem isNegative (h : IsPositive x) : isNegative x = false := by
  have hlt := h.toBits.2
  have hinfinity : BinaryFormat.double.infinity = 2047 * 2 ^ 52 := rfl
  have hsign : signBit = 2 ^ 63 := rfl
  rw [Double.isNegative, Bool.and_eq_false_iff, decide_eq_false_iff_not, hsign]
  exact Or.inr (by omega)

end IsPositive

end Double

end StackSynth
