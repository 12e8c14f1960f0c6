import Mathlib.Data.List.TakeWhile
import StackSynth.Proofs.Number.Written
import StackSynth.Toml.Scalar
import StackSynth.Toml.Writer

/-!
# Written numbers are read back

A natural number below `2 ^ 63` is read back from its digits (`readBare?_toDigits`), and a finite
number above zero from its decimal (`readBare?_writeFloat`).

A value without quotes could be a truth value, a date, a time, an integer in one of four bases or a
float. `IsNumber` is what the texts in question have in common: digits and points, with a digit in
front. This leaves a decimal integer, or else a float.
-/

namespace StackSynth.Toml

open Numeral (isDigit)

/-! ## Rows of digits -/

theorem groups_eq {cs : List Char} (h : '_' ∉ cs) : groups cs = [cs] := by
  induction cs with
  | nil => rfl
  | cons c cs ih =>
    obtain ⟨hc, hcs⟩ := not_or.mp (List.mem_cons.not.mp h)
    rw [groups, ih hcs]
    exact if_neg (Ne.symm hc)

theorem ungroup?_eq {p : Char → Bool} {cs : List Char} (h : '_' ∉ cs) :
    ungroup? p cs = if !cs.isEmpty && cs.all p then some cs else none := by
  rw [ungroup?, groups_eq h]
  simp

theorem ungroup?_digits {cs : List Char} (hcs : ∀ c ∈ cs, isDigit c = true) (hne : cs ≠ []) :
    ungroup? isDigit cs = some cs := by
  have hunderscore : '_' ∉ cs := fun h ↦ Bool.false_ne_true (hcs _ h)
  rw [ungroup?_eq hunderscore, if_pos]
  rw [Bool.and_eq_true, Bool.not_eq_true', List.isEmpty_eq_false_iff, List.all_eq_true]
  exact ⟨hne, hcs⟩

theorem decimal?_digits {cs : List Char} (hcs : ∀ c ∈ cs, isDigit c = true) (hne : cs ≠ [])
    (hhead : cs.length = 1 ∨ cs.head? ≠ some '0') : decimal? cs = some cs := by
  rw [decimal?, ungroup?_digits hcs hne]
  refine if_pos ?_
  rw [Bool.or_eq_true, decide_eq_true_iff, decide_eq_true_iff]
  exact hhead

/-! ## Numbers in their places -/

/-- Digits and points, with a digit in front: numbers as they are written. -/
structure IsNumber (cs : List Char) : Prop where
  ne_nil : cs ≠ []
  first : ∀ c, cs.head? = some c → isDigit c = true
  all : ∀ c ∈ cs, isDigit c = true ∨ c = '.'

namespace IsNumber

theorem of_digits {cs : List Char} (hne : cs ≠ []) (hcs : ∀ c ∈ cs, isDigit c = true) :
    IsNumber cs where
  ne_nil := hne
  first c h := hcs c (List.mem_of_mem_head? h)
  all c h := Or.inl (hcs c h)

theorem of_point {whole fraction : List Char} (hne : whole ≠ [])
    (hwhole : ∀ c ∈ whole, isDigit c = true) (hfraction : ∀ c ∈ fraction, isDigit c = true) :
    IsNumber (whole ++ '.' :: fraction) where
  ne_nil := List.append_ne_nil_of_left_ne_nil hne _
  first c h := by
    rw [List.head?_append_of_ne_nil _ hne] at h
    exact hwhole c (List.mem_of_mem_head? h)
  all c h := by
    rcases List.mem_append.mp h with h | h
    · exact Or.inl (hwhole c h)
    · rcases List.mem_cons.mp h with rfl | h
      · exact Or.inr rfl
      · exact Or.inl (hfraction c h)

variable {cs : List Char}

/-- No other character occurs. -/
theorem not_mem (h : IsNumber cs) {c : Char} (hdigit : isDigit c = false) (hpoint : c ≠ '.') :
    c ∉ cs := fun hmem ↦ by
  rcases h.all c hmem with hc | hc
  · rw [hdigit] at hc
    cases hc
  · exact hpoint hc

theorem ne_of_mem (h : IsNumber cs) {name : List Char} {c : Char} (hmem : c ∈ name)
    (hdigit : isDigit c = false) (hpoint : c ≠ '.') : cs ≠ name := by
  rintro rfl
  exact h.not_mem hdigit hpoint hmem

theorem all_isBare (h : IsNumber cs) : ∀ c ∈ cs, isBare c = true := by
  intro c hc
  rcases h.all c hc with hdigit | rfl
  · rw [Numeral.isDigit_eq] at hdigit
    simp [isBare, Char.isAlphanum, hdigit]
  · rfl

/-- There is no sign. -/
theorem takeSign (h : IsNumber cs) : takeSign cs = (false, cs) := by
  rw [StackSynth.takeSign]
  · rintro rest rfl
    exact h.not_mem rfl (by decide) List.mem_cons_self
  · rintro rest rfl
    exact h.not_mem rfl (by decide) List.mem_cons_self

/-- There is no time. -/
theorem isTime (h : IsNumber cs) (offset : Bool) : isTime offset cs = false := by
  rw [Toml.isTime]
  rintro a b c d e f rest rfl
  exact h.not_mem (c := ':') rfl (by decide) (by simp)

/-- There is no date. -/
theorem afterDate? (h : IsNumber cs) : afterDate? cs = none := by
  rw [Toml.afterDate?]
  rintro y e a r m n d f rest rfl
  exact h.not_mem (c := '-') rfl (by decide) (by simp)

/-- The base is ten. -/
theorem readInteger? (h : IsNumber cs) :
    readInteger? cs = (decimal? cs).bind fun digits ↦ integer? (Numeral.ofDigits digits) := by
  rw [Toml.readInteger?, h.takeSign]
  · rfl
  · rintro rest rfl
    exact h.not_mem (c := 'x') rfl (by decide) (by simp)
  · rintro rest rfl
    exact h.not_mem (c := 'o') rfl (by decide) (by simp)
  · rintro rest rfl
    exact h.not_mem (c := 'b') rfl (by decide) (by simp)

/-- It is read as an integer, or else as a float. -/
theorem readBare? (h : IsNumber cs) :
    readBare? cs = (Toml.readInteger? cs).or (readFloat? cs) := by
  rw [Toml.readBare?, if_neg (h.ne_of_mem (c := 't') (by decide) rfl (by decide)),
    if_neg (h.ne_of_mem (c := 'f') (by decide) rfl (by decide)), isMoment, h.isTime,
    h.afterDate?, if_neg (by decide)]
  cases Toml.readInteger? cs <;> rfl

theorem readFloat? (h : IsNumber cs) : readFloat? cs = (decimalFloat? cs).map .float := by
  rw [Toml.readFloat?, h.takeSign]
  dsimp only
  rw [if_neg (h.ne_of_mem (c := 'i') (by decide) rfl (by decide)),
    if_neg (h.ne_of_mem (c := 'n') (by decide) rfl (by decide))]

end IsNumber

/-! ## Integers -/

theorem isWord_natCast {n : Nat} (h : n < 2 ^ 63) : isWord n = true := decide_eq_true h

theorem integer?_natCast {n : Nat} (h : n < 2 ^ 63) : integer? n = some (.integer n) :=
  if_pos (isWord_natCast h)

theorem isNumber_toDigits (n : Nat) : IsNumber (Nat.toDigits 10 n) :=
  .of_digits Nat.toDigits_ne_nil Numeral.isDigit_of_mem_toDigits

/-- **A natural number that fits is read back from its digits.** -/
theorem readBare?_toDigits {n : Nat} (h : n < 2 ^ 63) :
    readBare? (Nat.toDigits 10 n) = some (.integer n) := by
  have hhead : (Nat.toDigits 10 n).length = 1 ∨ (Nat.toDigits 10 n).head? ≠ some '0' := by
    rcases Nat.eq_zero_or_pos n with rfl | hn
    · exact Or.inl rfl
    · exact Or.inr (Numeral.head?_toDigits_ne hn)
  have hnumber := isNumber_toDigits n
  rw [hnumber.readBare?, hnumber.readInteger?,
    decimal?_digits Numeral.isDigit_of_mem_toDigits Nat.toDigits_ne_nil hhead, Option.bind_some,
    Numeral.ofDigits_toDigits, integer?_natCast h, Option.some_or]

/-! ## Floats -/

section Point

variable {whole fraction : List Char} (hwhole : ∀ c ∈ whole, isDigit c = true)
  (hfraction : ∀ c ∈ fraction, isDigit c = true)

include hwhole hfraction

/-- A point is no part of an integer. -/
theorem readInteger?_point (hne : whole ≠ []) :
    readInteger? (whole ++ '.' :: fraction) = none := by
  have hnumber := IsNumber.of_point hne hwhole hfraction
  rw [hnumber.readInteger?, decimal?, ungroup?_eq (hnumber.not_mem rfl (by decide)), if_neg]
  · rfl
  · rw [Bool.and_eq_true, List.all_eq_true]
    rintro ⟨-, hall⟩
    exact Bool.false_ne_true (hall '.' (by simp))

/-- Digits around a point are read as one row. -/
theorem decimalFloat?_point (hne : whole ≠ []) (hne' : fraction ≠ [])
    (hhead : whole.length = 1 ∨ whole.head? ≠ some '0') {x : Float}
    (hx : scientific false (whole ++ fraction) (-fraction.length) = x)
    (hfinite : (x == 1.0 / 0.0) = false) :
    decimalFloat? (whole ++ '.' :: fraction) = some x := by
  have hnumber := IsNumber.of_point hne hwhole hfraction
  have hmark : ∀ c ∈ whole ++ '.' :: fraction, (!isExponentMark c) = true := by
    intro c hc
    rcases hnumber.all c hc with hdigit | rfl
    · rw [Bool.not_eq_true', isExponentMark, Bool.or_eq_false_iff, decide_eq_false_iff_not,
        decide_eq_false_iff_not]
      constructor
      · rintro rfl
        cases hdigit
      · rintro rfl
        cases hdigit
    · rfl
  have hpoint : ∀ c ∈ whole, (decide (c ≠ '.')) = true := by
    intro c hc
    refine decide_eq_true ?_
    rintro rfl
    cases hwhole _ hc
  rw [decimalFloat?, hnumber.takeSign]
  dsimp only
  rw [List.takeWhile_eq_self_iff.mpr hmark, List.drop_length, List.takeWhile_append_of_pos hpoint,
    List.dropWhile_append_of_pos hpoint]
  simp [decimal?_digits hwhole hne hhead, ungroup?_digits hfraction hne', hx, hfinite]

end Point

/-- **A finite number above zero is read back from its decimal.** -/
theorem readBare?_writeFloat {x : Float} (hx : Double.IsPositive x) :
    IsNumber (writeFloat x).toList ∧ readBare? (writeFloat x).toList = some (.float x) := by
  obtain ⟨d, whole, fraction, htext, hshows, hrounds⟩ := exists_shows_setting hx
  obtain ⟨hwhole, hfraction, hne, hne', hhead, hvalue⟩ := hshows
  have hnumber := IsNumber.of_point hne hwhole hfraction
  have hx' : scientific false (whole ++ fraction) (-fraction.length) = x := by
    refine scientific_eq hx (List.length_pos_iff.mpr hne') ?_ (hvalue ▸ hrounds)
    intro c hc
    exact (List.mem_append.mp hc).elim (hwhole c) (hfraction c)
  rw [writeFloat, hx.isNaN, if_neg Bool.false_ne_true, htext]
  refine ⟨hnumber, ?_⟩
  rw [hnumber.readBare?, readInteger?_point hwhole hfraction hne, hnumber.readFloat?,
    decimalFloat?_point hwhole hfraction hne hne' hhead hx' hx.beq_infinity]
  rfl

end StackSynth.Toml
