import Mathlib.Data.List.TakeWhile
import StackSynth.Language.Numeral

/-!
# The grammar of numerals

A numeral is an optional sign in front of `digits`, `digits '.'`, `digits '.' digits` or
`'.' digits`. The grammar is said here by constructors, one for each of these forms, and the parts
that `Numeral.parse?` takes from a text are the ones with which the grammar writes it
(`Numeral.parse?_eq_some_iff`). Since a parse has one result, no text is written in two ways.
-/

namespace StackSynth.Numeral

/-- One or more ASCII digits. -/
def Digits (cs : List Char) : Prop := cs ≠ [] ∧ ∀ c ∈ cs, isDigit c = true

/-- How the digits before and after a point are written. -/
inductive WritesUnsigned : List Char → List Char → List Char → Prop where
  /-- No point is written. -/
  | plain {whole} (h : Digits whole) : WritesUnsigned whole whole []
  /-- The point ends the numeral. -/
  | pointLast {whole} (h : Digits whole) : WritesUnsigned (whole ++ ['.']) whole []
  /-- There are digits on both sides of the point. -/
  | both {whole fraction} (hw : Digits whole) (hf : Digits fraction) :
      WritesUnsigned (whole ++ '.' :: fraction) whole fraction
  /-- The point begins the numeral. -/
  | pointFirst {fraction} (h : Digits fraction) : WritesUnsigned ('.' :: fraction) [] fraction

/-- How a numeral is written. -/
inductive Writes : List Char → Numeral → Prop where
  /-- Without a sign. -/
  | unsigned {cs whole fraction} (h : WritesUnsigned cs whole fraction) :
      Writes cs ⟨false, whole, fraction⟩
  /-- With a plus sign. -/
  | plus {cs whole fraction} (h : WritesUnsigned cs whole fraction) :
      Writes ('+' :: cs) ⟨false, whole, fraction⟩
  /-- With a minus sign. -/
  | minus {cs whole fraction} (h : WritesUnsigned cs whole fraction) :
      Writes ('-' :: cs) ⟨true, whole, fraction⟩

/-! ## Digits around a point -/

theorem WritesUnsigned.digits {cs whole fraction : List Char}
    (h : WritesUnsigned cs whole fraction) :
    (∀ c ∈ whole, isDigit c = true) ∧ (∀ c ∈ fraction, isDigit c = true) ∧
      (whole ≠ [] ∨ fraction ≠ []) := by
  cases h with
  | plain h => exact ⟨h.2, by simp, Or.inl h.1⟩
  | pointLast h => exact ⟨h.2, by simp, Or.inl h.1⟩
  | both hw hf => exact ⟨hw.2, hf.2, Or.inl hw.1⟩
  | pointFirst h => exact ⟨by simp, h.2, Or.inr h.1⟩

/-- The point is the first one, since digits are no points. -/
theorem WritesUnsigned.split {cs whole fraction : List Char}
    (h : WritesUnsigned cs whole fraction) :
    cs.takeWhile (· ≠ '.') = whole ∧ (cs.dropWhile (· ≠ '.')).drop 1 = fraction := by
  have hpoint : ∀ {ds : List Char}, (∀ c ∈ ds, isDigit c = true) → ∀ c ∈ ds, c ≠ '.' := by
    rintro ds hds c hc rfl
    exact absurd (hds _ hc) (by decide)
  have hwhole : ∀ c ∈ whole, decide (c ≠ '.') = true := by
    simpa using hpoint h.digits.1
  cases h with
  | plain h =>
    rw [List.takeWhile_eq_self_iff.mpr hwhole, List.dropWhile_eq_nil_iff.mpr hwhole]
    exact ⟨rfl, rfl⟩
  | pointLast h =>
    rw [List.takeWhile_append_of_pos hwhole, List.dropWhile_append_of_pos hwhole]
    simp
  | both hw hf =>
    rw [List.takeWhile_append_of_pos hwhole, List.dropWhile_append_of_pos hwhole]
    simp
  | pointFirst h => simp

theorem writesUnsigned_of_split {cs : List Char}
    (hw : ∀ c ∈ cs.takeWhile (· ≠ '.'), isDigit c = true)
    (hf : ∀ c ∈ (cs.dropWhile (· ≠ '.')).drop 1, isDigit c = true)
    (hne : cs.takeWhile (· ≠ '.') ≠ [] ∨ (cs.dropWhile (· ≠ '.')).drop 1 ≠ []) :
    WritesUnsigned cs (cs.takeWhile (· ≠ '.')) ((cs.dropWhile (· ≠ '.')).drop 1) := by
  have hcs := List.takeWhile_append_dropWhile (p := (· ≠ '.')) (l := cs)
  generalize cs.takeWhile (· ≠ '.') = whole at hw hne hcs ⊢
  cases hrest : cs.dropWhile (· ≠ '.') with
  | nil =>
    rw [hrest, List.append_nil] at hcs
    rw [hrest] at hne
    rw [← hcs]
    exact .plain ⟨by simpa using hne, hw⟩
  | cons c fraction =>
    have hc : c = '.' := by
      have hhead := List.head?_dropWhile_not (fun x ↦ decide (x ≠ '.')) cs
      rw [hrest] at hhead
      simpa using hhead
    subst hc
    rw [hrest] at hne hf hcs
    rw [← hcs]
    by_cases hwhole : whole = [] <;> by_cases hfraction : fraction = []
    · exact absurd hfraction (hne.resolve_left (not_not_intro hwhole))
    · subst hwhole
      exact .pointFirst ⟨hfraction, hf⟩
    · subst hfraction
      exact .pointLast ⟨hwhole, hw⟩
    · exact .both ⟨hwhole, hw⟩ ⟨hfraction, hf⟩

theorem parseUnsigned?_eq_some_iff {negative : Bool} {cs : List Char} {n : Numeral} :
    parseUnsigned? negative cs = some n ↔
      n.negative = negative ∧ WritesUnsigned cs n.whole n.fraction := by
  obtain ⟨negative', whole, fraction⟩ := n
  constructor
  · intro h
    rw [parseUnsigned?] at h
    split at h
    next hif =>
      simp only [Bool.and_eq_true, List.all_eq_true, Bool.not_eq_true', Bool.and_eq_false_iff,
        List.isEmpty_eq_false_iff] at hif
      cases h
      exact ⟨rfl, writesUnsigned_of_split hif.1.1 hif.1.2 hif.2⟩
    next => cases h
  · rintro ⟨rfl, h⟩
    obtain ⟨hw, hf, hne⟩ := h.digits
    obtain ⟨rfl, rfl⟩ := h.split
    rw [parseUnsigned?, if_pos]
    simp only [Bool.and_eq_true, List.all_eq_true, Bool.not_eq_true', Bool.and_eq_false_iff,
      List.isEmpty_eq_false_iff]
    exact ⟨⟨hw, hf⟩, hne⟩

/-! ## Signs -/

/-- What begins with a sign is not written without one. -/
theorem WritesUnsigned.ne_cons {c : Char} {cs ds whole fraction : List Char}
    (h : WritesUnsigned cs whole fraction) (hdigit : isDigit c = false) (hpoint : c ≠ '.') :
    cs ≠ c :: ds := by
  have hmem : ∀ x ∈ cs, x ∈ whole ∨ x = '.' ∨ x ∈ fraction := by
    cases h <;> simp +contextual
  obtain ⟨hw, hf, -⟩ := h.digits
  rintro rfl
  have hnot : isDigit c ≠ true := by simp [hdigit]
  rcases hmem c List.mem_cons_self with hc | hc | hc
  · exact hnot (hw c hc)
  · exact hpoint hc
  · exact hnot (hf c hc)

/-- **The grammar of numerals.** Exactly the texts that the grammar writes have parts, and they have
the parts with which it writes them. -/
theorem parse?_eq_some_iff {text : String} {n : Numeral} :
    parse? text = some n ↔ Writes text.toList n := by
  obtain ⟨negative, whole, fraction⟩ := n
  rw [parse?]
  constructor
  · intro h
    split at h
    next cs hcs =>
      obtain ⟨rfl, hwrites⟩ := parseUnsigned?_eq_some_iff.mp h
      rw [hcs]
      exact .plus hwrites
    next cs hcs =>
      obtain ⟨rfl, hwrites⟩ := parseUnsigned?_eq_some_iff.mp h
      rw [hcs]
      exact .minus hwrites
    next =>
      obtain ⟨rfl, hwrites⟩ := parseUnsigned?_eq_some_iff.mp h
      exact .unsigned hwrites
  · intro h
    generalize text.toList = cs at h ⊢
    cases h with
    | unsigned h =>
      split
      next => exact absurd rfl (h.ne_cons rfl (by decide))
      next => exact absurd rfl (h.ne_cons rfl (by decide))
      next => exact parseUnsigned?_eq_some_iff.mpr ⟨rfl, h⟩
    | plus h => exact parseUnsigned?_eq_some_iff.mpr ⟨rfl, h⟩
    | minus h => exact parseUnsigned?_eq_some_iff.mpr ⟨rfl, h⟩

end StackSynth.Numeral
