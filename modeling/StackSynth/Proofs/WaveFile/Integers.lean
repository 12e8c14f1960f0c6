import StackSynth.Proofs.WaveFile.Quantized
import StackSynth.Proofs.WaveFile.RoundTrip

/-!
# Recordings of what was rendered with fewer bits

A stereo file with integers of 8, 16 or 24 bits is read as it was written: its format chunk, short
up to 16 bits and long above (`readFormat_integers`), and its integers, which are in range and so
come back from the bytes of their two's complement (`reads_integer`).

What is loaded from it are the means of the integers, as fractions of the full range
(`quantized_round_trip`).
-/

namespace StackSynth.WaveFile

open BinaryFormat Double

variable {bits : Nat}

/-! ## Integers -/

/-- An integer in range is read back from its two's complement. -/
theorem ofTwosComplement_emod (hpos : 0 < bits) {n : ℤ} (hlo : -2 ^ (bits - 1) ≤ n)
    (hhi : n ≤ 2 ^ (bits - 1) - 1) :
    ofTwosComplement bits (n % (twoTo bits : Nat)).toNat = n := by
  obtain ⟨k, rfl⟩ : ∃ k, bits = k + 1 := ⟨bits - 1, by omega⟩
  have hfull : twoTo (k + 1) = 2 * 2 ^ k := Nat.pow_succ'
  have hhalf : 0 < 2 ^ k := Nat.two_pow_pos k
  rw [Nat.add_sub_cancel] at hlo hhi
  have hhalf' : ((2 ^ k : Nat) : ℤ) = 2 ^ k := by push_cast; rfl
  rw [← hhalf'] at hlo hhi
  rw [ofTwosComplement, hfull, Nat.add_sub_cancel, twoTo_eq]
  generalize 2 ^ k = half at *
  rcases le_or_gt 0 n with hn | hn
  · have hmod : n % (2 * half : Nat) = n := Int.emod_eq_of_lt hn (by push_cast; omega)
    rw [hmod, Nat.mod_eq_of_lt (by omega), if_pos (by omega)]
    omega
  · have hmod : n % (2 * half : Nat) = n + (2 * half : Nat) := by
      rw [← Int.add_emod_right, Int.emod_eq_of_lt (by push_cast; omega) (by omega)]
    rw [hmod, Nat.mod_eq_of_lt (by push_cast; omega), if_neg (by push_cast; omega)]
    push_cast
    omega

/-- The widths of integers that files are written with. -/
def IsWidth (bits : Nat) : Prop := bits = 8 ∨ bits = 16 ∨ bits = 24

/-- The format of a stereo file with integers. -/
def integers (bits rate : Nat) : Format := ⟨2, rate, bits, bits / 8, .integer⟩

/-- What a sample is read back as. -/
def stored (bits : Nat) (s : Sample) : Float := readSample.scaled bits (quantize bits s)

theorem IsWidth.bounds (h : IsWidth bits) : 2 ≤ bits ∧ bits ≤ 31 := by
  rcases h with rfl | rfl | rfl <;> decide

/-- An integer comes back from its bytes because it is in range. -/
theorem reads_integer (h : IsWidth bits) (rate : Nat) (s : Sample) :
    Reads (readSample (integers bits rate)) (encodeSample bits s) (stored bits s) := by
  obtain ⟨hlo, hhi⟩ := quantize_between h.bounds.1 h.bounds.2 s
  have hwrapped : ∀ {count : Nat}, 256 ^ count = twoTo bits →
      ofTwosComplement bits ((quantize bits s % (twoTo bits : Nat)).toNat % 256 ^ count)
        = quantize bits s := by
    intro count hcount
    have hpos : (0 : ℤ) < (twoTo bits : Nat) := by exact_mod_cast Nat.two_pow_pos bits
    have hmod := Int.emod_lt_of_pos (quantize bits s) hpos
    have hnonneg := Int.emod_nonneg (quantize bits s) hpos.ne'
    have hbits : 0 < bits := by have := h.bounds; omega
    rw [hcount, Nat.mod_eq_of_lt (by omega), ofTwosComplement_emod hbits hlo hhi]
  rcases h with rfl | rfl | rfl
  -- Eight bits are stored from zero up.
  · have hvalue : (((quantize 8 s + 128).toNat % 256 ^ 1 : Nat) : ℤ) - 128 = quantize 8 s := by
      omega
    refine (reads_number 1 (quantize 8 s + 128).toNat).bind_last ?_
    rw [hvalue]
    exact .pure _
  · refine (reads_number 2 (quantize 16 s % (twoTo 16 : Nat)).toNat).bind_last ?_
    rw [hwrapped rfl]
    exact .pure _
  · refine (reads_number 3 (quantize 24 s % (twoTo 24 : Nat)).toNat).bind_last ?_
    rw [hwrapped rfl]
    exact .pure _

/-! ## Files -/

/-- What stands in the format chunk behind the fields. -/
def integerTail (bits : Nat) : List UInt8 :=
  if 16 < bits then littleEndian 2 22 ++ (littleEndian 2 bits ++ (littleEndian 4 3 ++ integerGuid))
  else []

/-- The format chunk of a stereo file with integers. -/
def integerChunk (bits rate : Nat) : List UInt8 :=
  fields (if 16 < bits then 0xfffe else 1) rate (2 * (bits / 8)) bits (integerTail bits)

theorem header_integers (h : IsWidth bits) (rate size : Nat) : header ⟨rate, bits⟩ size =
    tag "RIFF" ++ (littleEndian 4 (20 + (integerChunk bits rate).length + size) ++ (tag "WAVE"
      ++ (tag "fmt " ++ (littleEndian 4 (integerChunk bits rate).length ++ (integerChunk bits rate
        ++ (tag "data" ++ littleEndian 4 size)))))) := by
  rcases h with rfl | rfl | rfl <;> simp [header, integerChunk, fields, integerTail]

theorem reads_short (format : Format) : Reads (integerFormat 16 format) [] format := by
  have hnone : Reads (skip 0) [] () := reads_skip rfl
  rw [integerFormat, require_of_true (by decide), pure_bind]
  refine hnone.bind_last ?_
  rw [require_of_true (by simp), pure_bind]
  exact hnone.bind_last (.pure format)

/-- The format chunk is read as it was written if the bytes of a second are writable. -/
theorem readFormat_integers (h : IsWidth bits) {rate : Nat}
    (hrate : 2 * (bits / 8) * rate < 256 ^ 4) (rest : List UInt8) :
    readFormat (integerChunk bits rate).length (integerChunk bits rate ++ rest)
      = .ok (integers bits rate, rest) := by
  have hkept : rate % 256 ^ 4 = rate := by
    refine Nat.mod_eq_of_lt (lt_of_le_of_lt (Nat.le_mul_of_pos_left rate ?_) hrate)
    rcases h with rfl | rfl | rfl <;> decide
  have hfields : ∀ kind, fields kind rate (2 * (bits / 8)) bits (integerTail bits) ++ rest
      = fields kind rate (2 * (bits / 8)) bits (integerTail bits ++ rest) := by
    intro kind
    simp only [fields, List.append_assoc]
  rw [← hkept] at hrate
  rw [integerChunk, hfields]
  rcases h with rfl | rfl | rfl
  · have hlength : (fields 1 rate 2 8 []).length = 16 := by simp [fields]
    change readFormat (fields 1 rate 2 8 []).length (fields 1 rate 2 8 ([] ++ rest)) = _
    rw [hlength, readFormat_fields (by decide) (by decide) (by decide) (by decide) (by decide)
      (by decide) (by decide) fun _ ↦ rfl, if_pos hrate, hkept]
    exact reads_short _ rest
  · have hlength : (fields 1 rate 4 16 []).length = 16 := by simp [fields]
    change readFormat (fields 1 rate 4 16 []).length (fields 1 rate 4 16 ([] ++ rest)) = _
    rw [hlength, readFormat_fields (by decide) (by decide) (by decide) (by decide) (by decide)
      (by decide) (by decide) fun _ ↦ rfl, if_pos hrate, hkept]
    exact reads_short _ rest
  · have hlength : (fields 0xfffe rate 6 24 (integerTail 24)).length = 40 := by
      simp [fields, integerTail, integerGuid]
    change readFormat (fields 0xfffe rate 6 24 (integerTail 24)).length
      (fields 0xfffe rate 6 24 (integerTail 24 ++ rest)) = _
    rw [hlength, readFormat_fields (by decide) (by decide) (by decide) (by decide) (by decide)
      (by decide) (by decide) fun _ ↦ rfl, if_pos hrate, hkept]
    have hlong : Reads (extensibleFormat 40 (integers 24 rate)) (integerTail 24)
        (integers 24 rate) :=
      reads_extensible (show 0 < 24 by decide) (show 24 < 256 ^ 2 by decide) rfl (if_pos rfl)
    exact hlong rest

/-- A stereo file with integers is read as it was written, if the header can hold its sizes. -/
theorem decode_integers (h : IsWidth bits) {rate : Nat} {left right : Array Sample}
    (hsize : left.size = right.size) (hdata : 2 * (bits / 8) * left.size < 2 ^ 32)
    (hrate : 2 * (bits / 8) * rate < 2 ^ 32) :
    decode (encode ⟨rate, bits⟩ left right).toList
      = .ok ⟨integers bits rate, ((interleave left right).map (stored bits)).toArray⟩ := by
  have hlength : (integerChunk bits rate).length < 256 ^ 4 := by
    rcases h with rfl | rfl | rfl <;> simp [integerChunk, fields, integerTail, integerGuid]
  have hpos : 0 < bits / 8 := by rcases h with rfl | rfl | rfl <;> decide
  refine decode_encode_of_header hsize rfl (fun rest ↦ ?_) rfl hpos (reads_integer h rate)
  refine header_format (x := .ok (integers bits rate)) hlength (readFormat_integers h hrate)
    (header_integers h rate _) hdata ?_ rest
  rintro format ⟨rfl⟩
  change 2 * (bits / 8) * left.size % (bits / 8) = 0
    ∧ 2 * (bits / 8) * left.size / (bits / 8) % 2 = 0
  rw [Nat.mul_right_comm, Nat.mul_mod_left, Nat.mul_div_cancel _ hpos, Nat.mul_mod_right]
  exact ⟨rfl, rfl⟩

/-! ## Recordings -/

/-- What is stored under a path that can be written. -/
theorem storeStereo_eq_ok_iff {f written : Folder} {path : String} {left right : Array Sample}
    {spec : StereoSpec} {stamp : Nat} (hsize : left.size = right.size)
    (hsupported : isSupported spec.bits = true) :
    storeStereo f path left right spec stamp = (.ok (), written) ↔
      f.write path (encode spec left right) stamp = .ok written := by
  rw [storeStereo, if_neg (by simp [hsize])]
  simp only [hsupported, if_true]
  cases f.write path (encode spec left right) stamp with
  | error e => simp
  | ok made => simp

end StackSynth.WaveFile
