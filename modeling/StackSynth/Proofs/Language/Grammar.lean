import Mathlib.Computability.RegularExpressions
import StackSynth.Proofs.Language.Names

/-!
# The numerals as a regular language

The constructors of `Numeral.Writes` say which parts a numeral has. As a set of texts the numerals
are the language of one regular expression (`Numeral.grammar`), and this file shows that it is this
language that separates the numbers from all other words of a program
(`Numeral.reads_exactly_grammar`).

Reading does not follow the expression. It takes one sign off, looks for the first point and tests
what is on both sides of it, so a second sign or a second point has to fail as a character that is
no digit.
-/

namespace StackSynth.Numeral

open RegularExpression

/-- What an expression matches, or nothing. -/
def optional (r : RegularExpression Char) : RegularExpression Char := 1 + r

/-- One ASCII digit. -/
def digit : RegularExpression Char := ("0123456789".toList.map char).sum

/-- One or more ASCII digits. -/
def digits : RegularExpression Char := digit * star digit

/-- The expression `[+-]? digits ('.' digits?)?` or `[+-]? '.' digits`. -/
def grammar : RegularExpression Char :=
  optional (char '+' + char '-') * digits * optional (char '.' * optional digits)
    + optional (char '+' + char '-') * char '.' * digits

variable {cs : List Char} {r : RegularExpression Char}

theorem mem_char {c : Char} : cs ∈ (char c).matches' ↔ cs = [c] := Iff.rfl

theorem mem_add {s : RegularExpression Char} :
    cs ∈ (r + s).matches' ↔ cs ∈ r.matches' ∨ cs ∈ s.matches' := Iff.rfl

theorem mem_optional : cs ∈ (optional r).matches' ↔ cs = [] ∨ cs ∈ r.matches' := Iff.rfl

theorem mem_mul {s : RegularExpression Char} :
    cs ∈ (r * s).matches' ↔ ∃ as ∈ r.matches', ∃ bs ∈ s.matches', as ++ bs = cs := Iff.rfl

theorem isDigit_iff_mem {c : Char} : isDigit c = true ↔ c ∈ "0123456789".toList := by
  constructor
  · intro h
    rw [isDigit, Bool.and_eq_true, decide_eq_true_iff, decide_eq_true_iff] at h
    -- Below the code of the colon there are few enough to try.
    have hcodes : ∀ n < 58, 48 ≤ n → Char.ofNat n ∈ "0123456789".toList := by decide
    rw [← Char.ofNat_toNat c]
    exact hcodes c.toNat (Nat.lt_succ_of_le h.2) h.1
  · revert c
    simp only [← List.all_eq_true]
    decide

theorem mem_digit : cs ∈ digit.matches' ↔ ∃ c, isDigit c = true ∧ cs = [c] := by
  have hsum : ∀ names : List Char,
      cs ∈ (names.map char).sum.matches' ↔ ∃ c ∈ names, cs = [c] := by
    intro names
    induction names with
    | nil => simp [Language.notMem_zero]
    | cons c names ih =>
      rw [List.map_cons, List.sum_cons, mem_add, mem_char, ih]
      simp
  simp only [digit, hsum, isDigit_iff_mem]

theorem mem_star_digit : cs ∈ (star digit).matches' ↔ ∀ c ∈ cs, isDigit c = true := by
  rw [matches'_star, Language.mem_kstar]
  constructor
  · rintro ⟨words, rfl, hwords⟩ c hc
    obtain ⟨word, hword, hc⟩ := List.mem_flatten.mp hc
    obtain ⟨d, hd, rfl⟩ := mem_digit.mp (hwords word hword)
    rwa [List.mem_singleton.mp hc]
  · intro h
    -- Each digit is a word of its own.
    refine ⟨cs.map ([·]), (List.flatMap_singleton' cs).symm, fun word hword ↦ ?_⟩
    obtain ⟨c, hc, rfl⟩ := List.mem_map.mp hword
    exact mem_digit.mpr ⟨c, h c hc, rfl⟩

theorem mem_digits : cs ∈ digits.matches' ↔ Digits cs := by
  rw [digits, mem_mul]
  simp only [mem_star_digit, mem_digit]
  constructor
  · rintro ⟨_, ⟨c, hc, rfl⟩, ds, hds, rfl⟩
    exact ⟨List.cons_ne_nil c ds, List.forall_mem_cons.mpr ⟨hc, hds⟩⟩
  · rintro ⟨hne, h⟩
    obtain ⟨c, ds, rfl⟩ := List.exists_cons_of_ne_nil hne
    rw [List.forall_mem_cons] at h
    exact ⟨[c], ⟨c, h.1, rfl⟩, ds, h.2, rfl⟩

/-! ## Signs and points -/

/-- A numeral without its sign. -/
def unsigned : RegularExpression Char :=
  digits * optional (char '.' * optional digits) + char '.' * digits

theorem matches'_grammar :
    grammar.matches' = (optional (char '+' + char '-') * unsigned).matches' := by
  simp only [grammar, unsigned, matches'_add, matches'_mul, mul_add, mul_assoc]

theorem mem_unsigned :
    cs ∈ unsigned.matches' ↔ ∃ whole fraction, WritesUnsigned cs whole fraction := by
  simp only [unsigned, mem_add, mem_mul, mem_optional, mem_char, mem_digits]
  constructor
  · rintro (⟨whole, hwhole, _, rfl | ⟨_, rfl, fraction, rfl | hfraction, rfl⟩, rfl⟩ |
      ⟨_, rfl, fraction, hfraction, rfl⟩)
    · rw [List.append_nil]
      exact ⟨whole, [], .plain hwhole⟩
    · exact ⟨whole, [], .pointLast hwhole⟩
    · exact ⟨whole, fraction, .both hwhole hfraction⟩
    · exact ⟨[], fraction, .pointFirst hfraction⟩
  · rintro ⟨whole, fraction, h⟩
    cases h with
    | plain h => exact .inl ⟨cs, h, [], .inl rfl, List.append_nil cs⟩
    | pointLast h => exact .inl ⟨whole, h, ['.'], .inr ⟨['.'], rfl, [], .inl rfl, rfl⟩, rfl⟩
    | both hw hf =>
      exact .inl ⟨whole, hw, '.' :: fraction, .inr ⟨['.'], rfl, fraction, .inr hf, rfl⟩, rfl⟩
    | pointFirst h => exact .inr ⟨['.'], rfl, fraction, h, rfl⟩

theorem mem_grammar : cs ∈ grammar.matches' ↔ ∃ n, Writes cs n := by
  rw [matches'_grammar, mem_mul]
  simp only [mem_optional, mem_add, mem_char, mem_unsigned]
  constructor
  · rintro ⟨_, rfl | rfl | rfl, ds, ⟨whole, fraction, h⟩, rfl⟩
    · exact ⟨_, .unsigned h⟩
    · exact ⟨_, .plus h⟩
    · exact ⟨_, .minus h⟩
  · rintro ⟨n, h⟩
    cases h with
    | unsigned h => exact ⟨[], .inl rfl, cs, ⟨_, _, h⟩, rfl⟩
    | @plus ds _ _ h => exact ⟨['+'], .inr (.inl rfl), ds, ⟨_, _, h⟩, rfl⟩
    | @minus ds _ _ h => exact ⟨['-'], .inr (.inr rfl), ds, ⟨_, _, h⟩, rfl⟩

/-! ## Numbers among the words of a program -/

theorem isSome_read?_iff {text : String} :
    (read? text).isSome = true ↔ text.toList ∈ grammar.matches' := by
  rw [read?, Option.isSome_map, Option.isSome_iff_exists, mem_grammar]
  simp only [parse?_eq_some_iff]

/-- The markers are not in the way, since they are no numerals. -/
theorem classify_eq_number_iff {text : String} {v : Float} :
    Token.classify text = .number v ↔ read? text = some v := by
  rw [Token.classify_eq_iff, read?, Option.map_eq_some_iff]
  simp only [parse?_eq_some_iff]
  constructor
  · rintro ⟨⟩
    next n h => exact ⟨n, h, rfl⟩
  · rintro ⟨n, h, rfl⟩
    exact .number h

theorem exists_classify_eq_number_iff {text : String} :
    (∃ v, Token.classify text = .number v) ↔ text.toList ∈ grammar.matches' := by
  simp only [classify_eq_number_iff, ← Option.isSome_iff_exists, isSome_read?_iff]

/-- **Exactly the language of the expression is read as numbers.** A text has a value if and only
if the expression matches it, and these are the texts that are classified as numbers. A token of a
program is a number if and only if the expression matches its text, and then it has the value that
is read from its text. -/
theorem reads_exactly_grammar :
    (∀ text, (read? text).isSome = true ↔ text.toList ∈ grammar.matches') ∧
    (∀ text, (∃ v, Token.classify text = .number v) ↔ text.toList ∈ grammar.matches') ∧
    ∀ source, ∀ t ∈ tokenize source,
      ((∃ v, t.kind = .number v) ↔ t.text.toList ∈ grammar.matches') ∧
      ∀ v, t.kind = .number v ↔ read? t.text = some v := by
  refine ⟨fun _ ↦ isSome_read?_iff, fun _ ↦ exists_classify_eq_number_iff, fun source t ht ↦ ?_⟩
  rw [tokenize_eq_map] at ht
  obtain ⟨w, -, rfl⟩ := List.mem_map.mp ht
  exact ⟨exists_classify_eq_number_iff, fun _ ↦ classify_eq_number_iff⟩

/-- The first word of `-.5 --5` is a number, and the second is none. -/
theorem reads_exactly_grammar_signs :
    (∃ t ∈ tokenize "-.5 --5", t.text = "-.5" ∧ ∃ v, t.kind = .number v) ∧
    ∃ t ∈ tokenize "-.5 --5", t.text = "--5" ∧ ¬∃ v, t.kind = .number v := by
  have hwords : dropComments (wordsOf "-.5 --5".toList)
      = [⟨"-.5", ⟨1, 1⟩⟩, ⟨"--5", ⟨1, 5⟩⟩] := by cbv
  have hmem : ∀ w ∈ [⟨"-.5", ⟨1, 1⟩⟩, ⟨"--5", ⟨1, 5⟩⟩],
      Token.ofWord w ∈ tokenize "-.5 --5" := by
    rw [tokenize_eq_map, hwords]
    exact fun w hw ↦ List.mem_map_of_mem hw
  refine ⟨⟨_, hmem ⟨"-.5", ⟨1, 1⟩⟩ (by decide), rfl, ?_⟩,
    ⟨_, hmem ⟨"--5", ⟨1, 5⟩⟩ (by decide), rfl, fun hnumber ↦ ?_⟩⟩
  · refine (reads_exactly_grammar.2.2 _ _ (hmem ⟨"-.5", ⟨1, 1⟩⟩ (by decide))).1.mpr ?_
    exact (rmatch_iff_matches' grammar _).mp (by decide)
  · have hmatch := (reads_exactly_grammar.2.2 _ _ (hmem ⟨"--5", ⟨1, 5⟩⟩ (by decide))).1.mp hnumber
    exact absurd ((rmatch_iff_matches' grammar _).mpr hmatch) (by decide)

end StackSynth.Numeral
