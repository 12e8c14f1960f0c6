import Mathlib.Tactic.SplitIfs
import StackSynth.Text.Utf8

/-!
# Encoded texts are decoded again

The decoder takes one byte after the other. Between two characters nothing is pending, and the bytes
of a character lead from there to there with this character put out (`feed_utf8EncodeChar`). By
induction the bytes of a text are read as its characters, without an error among them
(`feed_encode`), so decoding undoes encoding (`decode_encode`).
-/

namespace StackSynth.Utf8

/-- Reads bytes from a state on. -/
def feed (out : Array Piece) (pending : Option Pending) (bytes : List UInt8) :
    Array Piece × Option Pending :=
  bytes.foldl (fun (out, pending) b ↦ step out pending b.toNat) (out, pending)

theorem feed_cons (out : Array Piece) (pending : Option Pending) (b : UInt8) (bytes : List UInt8) :
    feed out pending (b :: bytes) =
      feed (step out pending b.toNat).1 (step out pending b.toNat).2 bytes := rfl

theorem feed_append (out : Array Piece) (pending : Option Pending) (bytes bytes' : List UInt8) :
    feed out pending (bytes ++ bytes') =
      feed (feed out pending bytes).1 (feed out pending bytes).2 bytes' := by
  rw [feed, List.foldl_append]
  rfl

/-! ## Single bytes -/

theorem toNat_ofNat {n : Nat} (h : n < 256) : (UInt8.ofNat n).toNat = n := by
  rw [UInt8.toNat_ofNat']
  exact Nat.mod_eq_of_lt h

section Steps

variable {out : Array Piece} {p : Pending} {b : Nat}

theorem step_lead (hb : 0x80 ≤ b) (h : Pending.ofLead b = some p) :
    step out none b = (out, some p) := by
  rw [step, start, if_neg (Nat.not_lt.mpr hb), h]

/-- A byte in range that is not the last one of a character. -/
theorem step_more (hlo : p.lo ≤ b) (hhi : b ≤ p.hi) (h : 1 < p.missing) :
    step out (some p) b =
      (out, some ⟨p.value * 64 + (b - 0x80), p.taken + 1, p.missing - 1, 0x80, 0xbf⟩) := by
  rw [step, if_pos ⟨hlo, hhi⟩]
  exact if_neg (Nat.not_le.mpr h)

/-- The last byte of a character. -/
theorem step_last (hlo : p.lo ≤ b) (hhi : b ≤ p.hi) (h : p.missing = 1) :
    step out (some p) b =
      (out.push (.char (Char.ofNat (p.value * 64 + (b - 0x80))) (p.taken + 1)), none) := by
  rw [step, if_pos ⟨hlo, hhi⟩]
  exact if_pos (Nat.le_of_eq h)

end Steps

/-! ## Characters -/

/-- The lead byte of three. The byte behind it is in range unless the spelling is too long or that
of a surrogate. -/
theorem ofLead_three {k j : Nat} (hk : k < 16) (hj : j < 64) (hlong : k = 0 → 32 ≤ j)
    (hsurrogate : k = 13 → j < 32) : ∃ lo hi, Pending.ofLead (k + 0xe0) = some ⟨k, 1, 2, lo, hi⟩ ∧
      lo ≤ j + 0x80 ∧ j + 0x80 ≤ hi := by
  by_cases hfirst : k = 0
  · subst hfirst
    have hle := hlong rfl
    exact ⟨_, _, rfl, by omega, by omega⟩
  by_cases hthirteen : k = 13
  · subst hthirteen
    have hlt := hsurrogate rfl
    exact ⟨_, _, rfl, by omega, by omega⟩
  · refine ⟨0x80, 0xbf, ?_, by omega, by omega⟩
    rw [Pending.ofLead, if_neg (by omega), if_neg (by omega), if_neg (by omega), if_pos (by omega),
      Nat.add_sub_cancel]

/-- The lead byte of four. The byte behind it is in range unless the spelling is too long or that
of no character. -/
theorem ofLead_four {k j : Nat} (hk : k < 5) (hj : j < 64) (hlong : k = 0 → 16 ≤ j)
    (hlast : k = 4 → j < 16) : ∃ lo hi, Pending.ofLead (k + 0xf0) = some ⟨k, 1, 3, lo, hi⟩ ∧
      lo ≤ j + 0x80 ∧ j + 0x80 ≤ hi := by
  by_cases hfirst : k = 0
  · subst hfirst
    have hle := hlong rfl
    exact ⟨_, _, rfl, by omega, by omega⟩
  by_cases hfour : k = 4
  · subst hfour
    have hlt := hlast rfl
    exact ⟨_, _, rfl, by omega, by omega⟩
  · refine ⟨0x80, 0xbf, ?_, by omega, by omega⟩
    rw [Pending.ofLead, if_neg (by omega), if_neg (by omega), if_neg (by omega), if_neg (by omega),
      if_neg (by omega), if_pos (by omega), Nat.add_sub_cancel]

/-- The bytes of a character are read as this character. -/
theorem feed_utf8EncodeChar (out : Array Piece) (c : Char) : ∃ size,
    feed out none (String.utf8EncodeChar c) = (out.push (.char c size), none) := by
  have hvalid : c.val.toNat < 0xd800 ∨ 0xdfff < c.val.toNat ∧ c.val.toNat < 0x110000 := c.valid
  have hchar : ∀ n, n = c.val.toNat → Char.ofNat n = c := by
    rintro n rfl
    exact Char.ofNat_toNat c
  rw [String.utf8EncodeChar]
  generalize c.val.toNat = n at hvalid hchar ⊢
  have htail : ∀ n, (UInt8.ofNat (n % 64 + 0x80)).toNat = n % 64 + 0x80 := fun n ↦
    toNat_ofNat (by omega)
  split
  next hone =>
    refine ⟨1, ?_⟩
    rw [feed_cons, toNat_ofNat (by omega), step, start, if_pos (by omega), hchar n rfl]
    rfl
  split
  next hone htwo =>
    have hlead : Pending.ofLead (n / 64 % 32 + 0xc0) = some ⟨n / 64, 1, 1, 0x80, 0xbf⟩ := by
      rw [Pending.ofLead, if_pos (by omega), Nat.add_sub_cancel, Nat.mod_eq_of_lt (by omega)]
    refine ⟨2, ?_⟩
    rw [feed_cons, toNat_ofNat (by omega), step_lead (by omega) hlead, feed_cons, htail,
      step_last (by dsimp only; omega) (by dsimp only; omega) rfl, hchar _ (by dsimp only; omega)]
    rfl
  split
  next hone htwo hthree =>
    obtain ⟨lo, hi, hlead, hlo, hhi⟩ := ofLead_three (k := n / 4096) (j := n / 64 % 64)
      (by omega) (by omega) (by omega) (by omega)
    refine ⟨3, ?_⟩
    rw [feed_cons, toNat_ofNat (by omega), Nat.mod_eq_of_lt (show n / 4096 < 16 by omega),
      step_lead (by omega) hlead, feed_cons, htail, step_more hlo hhi (by decide : 1 < 2),
      feed_cons, htail, step_last (by dsimp only; omega) (by dsimp only; omega) rfl,
      hchar _ (by dsimp only; omega)]
    rfl
  next hone htwo hthree =>
    obtain ⟨lo, hi, hlead, hlo, hhi⟩ := ofLead_four (k := n / 262144) (j := n / 4096 % 64)
      (by omega) (by omega) (by omega) (by omega)
    refine ⟨4, ?_⟩
    rw [feed_cons, toNat_ofNat (by omega), Nat.mod_eq_of_lt (show n / 262144 < 8 by omega),
      step_lead (by omega) hlead, feed_cons, htail, step_more hlo hhi (by decide : 1 < 3),
      feed_cons, htail, step_more (by dsimp only; omega) (by dsimp only; omega) (by decide : 1 < 2),
      feed_cons, htail, step_last (by dsimp only; omega) (by dsimp only; omega) rfl,
      hchar _ (by dsimp only; omega)]
    rfl

/-! ## Texts -/

theorem encode_ofList (cs : List Char) :
    encode (String.ofList cs) = cs.flatMap String.utf8EncodeChar := by
  rw [encode, String.toUTF8, String.toByteArray_ofList, List.utf8Encode, List.data_toByteArray]

/-- The bytes of a text are read as its characters. -/
theorem feed_encode (cs : List Char) (out : Array Piece) : ∃ more : List Piece,
    feed out none (cs.flatMap String.utf8EncodeChar) = (out ++ more, none) ∧
      more.map Piece.shown = cs ∧ ∀ index, firstError index more = none := by
  induction cs generalizing out with
  | nil => exact ⟨[], by simp [feed], rfl, fun _ ↦ rfl⟩
  | cons c cs ih =>
    obtain ⟨size, hchar⟩ := feed_utf8EncodeChar out c
    obtain ⟨more, hmore, hshown, herror⟩ := ih (out.push (.char c size))
    refine ⟨.char c size :: more, ?_, ?_, fun index ↦ herror (index + size)⟩
    · rw [List.flatMap_cons, feed_append, hchar, hmore]
      simp
    · rw [List.map_cons, hshown]
      rfl

/-- **An encoded text is decoded again.** -/
theorem decode_encode (text : String) : decode (encode text) = .ok text := by
  obtain ⟨more, hfeed, hshown, herror⟩ := feed_encode text.toList #[]
  have hpieces : pieces (encode text) = more := by
    rw [feed] at hfeed
    rw [← String.ofList_toList (s := text), encode_ofList, pieces]
    simp [hfeed]
  rw [decode, hpieces, herror]
  simp only [hshown, String.ofList_toList]

end StackSynth.Utf8
