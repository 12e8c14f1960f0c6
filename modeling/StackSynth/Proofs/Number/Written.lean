import StackSynth.Number.Scientific
import StackSynth.Number.Written
import StackSynth.Proofs.Number.Shortest

/-!
# Written digits

A number above zero is written in a settings file as the shortest decimal that rounds to it, with
its digits in their places around a point (`exists_shows_setting`). A row of digits that rounds to a
number is read as this number (`scientific_eq`). Together the two say that what is written is read
back.

## Digits in their places

`Shows` is what a reader relies on: digits on both sides of the point, no needless zero in front,
and the value of the decimal. There are two ways to get there. A decimal with a whole value ends in
zeros, and one with a fraction may have to start with some (`padded`).

## The reach of doubles

The reader gives up on rows of digits so far from the point that no number could be meant. That this
leaves out no row that rounds to a finite number above zero is a comparison of powers of two and of
ten (`leading_bounds`).
-/

namespace StackSynth

/-! ## Rows of digits -/

namespace Numeral

theorem isDigit_eq (c : Char) : isDigit c = c.isDigit := rfl

theorem ofDigits_eq (cs : List Char) : ofDigits cs = Nat.ofDigitChars 10 cs 0 := rfl

theorem ofDigits_toDigits (n : Nat) : ofDigits (Nat.toDigits 10 n) = n :=
  Nat.ofDigitChars_ten_toDigits

theorem ofDigits_append (cs ds : List Char) :
    ofDigits (cs ++ ds) = 10 ^ ds.length * ofDigits cs + ofDigits ds := by
  rw [ofDigits_eq, Nat.ofDigitChars_append, Nat.ofDigitChars_eq_ofDigitChars_zero]
  rfl

theorem ofDigits_zeros (n : Nat) : ofDigits (List.replicate n '0') = 0 := by
  rw [ofDigits_eq, Nat.ofDigitChars_replicate_zero, Nat.mul_zero]

theorem ofDigits_dropWhile (cs : List Char) :
    ofDigits (cs.dropWhile (· = '0')) = ofDigits cs := by
  induction cs with
  | nil => rfl
  | cons c cs ih =>
    rw [List.dropWhile_cons]
    split
    next h =>
      obtain rfl := of_decide_eq_true h
      exact ih
    next => rfl

theorem isDigit_of_mem_toDigits {n : Nat} : ∀ c ∈ Nat.toDigits 10 n, isDigit c = true :=
  fun _ h ↦ Nat.isDigit_of_mem_toDigits (by decide) (by decide) h

/-- Digits as numbers. -/
theorem toNat_of_isDigit {c : Char} (h : isDigit c = true) : 48 ≤ c.toNat ∧ c.toNat ≤ 57 := by
  rw [isDigit, Bool.and_eq_true, decide_eq_true_iff, decide_eq_true_iff] at h
  exact h

/-- A row of digits is less than the power of ten of its length. -/
theorem ofDigits_lt {cs : List Char} (h : ∀ c ∈ cs, isDigit c = true) :
    ofDigits cs < 10 ^ cs.length := by
  induction cs with
  | nil => exact Nat.one_pos
  | cons c cs ih =>
    have hrest := ih fun d hd ↦ h d (List.mem_cons_of_mem c hd)
    have hdigit := (toNat_of_isDigit (h c List.mem_cons_self)).2
    have hfirst : ofDigits [c] = c.toNat - 48 := Nat.zero_add _
    have hmul := Nat.mul_le_mul_left (10 ^ cs.length) (show c.toNat - 48 ≤ 9 by omega)
    rw [← List.singleton_append, ofDigits_append, hfirst, List.length_append, List.length_singleton,
      Nat.pow_add, Nat.pow_one]
    omega

/-- A row of digits without leading zeros is not less than the power of ten of its leading digit. -/
theorem le_ofDigits {c : Char} {cs : List Char} (h : isDigit c = true) (hc : c ≠ '0') :
    10 ^ cs.length ≤ ofDigits (c :: cs) := by
  have hdigit := (toNat_of_isDigit h).1
  have hzero : c.toNat ≠ 48 := fun heq ↦ hc (Char.toNat_inj.mp heq)
  have hfirst : ofDigits [c] = c.toNat - 48 := Nat.zero_add _
  have hmul := Nat.mul_le_mul_left (10 ^ cs.length) (show 1 ≤ c.toNat - 48 by omega)
  rw [← List.singleton_append, ofDigits_append, hfirst]
  omega

/-- Only zero is written with a leading zero. -/
theorem head?_toDigits_ne {n : Nat} (hn : 0 < n) : (Nat.toDigits 10 n).head? ≠ some '0' := by
  induction n using Nat.base_induction 10 (by decide) with
  | single m hm =>
    rw [Nat.toDigits_of_lt_base hm, List.head?_cons]
    intro h
    exact hn.ne' (Nat.digitChar_eq_zero.mp (Option.some.inj h))
  | digit m k hk hm ih =>
    rw [← Nat.toDigits_append_toDigits (by decide) hm hk, List.head?_append_of_ne_nil _
      Nat.toDigits_ne_nil]
    exact ih hm

end Numeral

/-! ## Decimals in their places -/

/-- A text that shows a decimal: digits, a point, and at least one more digit. There is no needless
zero in front. -/
structure Shows (d : Decimal) (whole fraction : List Char) : Prop where
  whole_digits : ∀ c ∈ whole, Numeral.isDigit c = true
  fraction_digits : ∀ c ∈ fraction, Numeral.isDigit c = true
  whole_ne_nil : whole ≠ []
  fraction_ne_nil : fraction ≠ []
  head : whole.length = 1 ∨ whole.head? ≠ some '0'
  value : (Numeral.ofDigits (whole ++ fraction) : ℚ) / 10 ^ fraction.length = d.value

theorem toList_pushn (c : Char) (n : Nat) : ("".pushn c n).toList = List.replicate n c := by
  induction n with
  | zero => rfl
  | succ n ih =>
    have hpush : "".pushn c (n + 1) = ("".pushn c n).push c := rfl
    rw [hpush, String.toList_push, ih, List.replicate_succ']

theorem toList_zeros (n : Nat) : (zeros n).toList = List.replicate n '0' := toList_pushn '0' n

theorem toList_toString (n : Nat) : (toString n).toList = Nat.toDigits 10 n := by
  rw [Nat.toString_eq_repr, Nat.toList_repr]

theorem isDigit_of_mem_zeros {k : Nat} : ∀ c ∈ List.replicate k '0', Numeral.isDigit c = true := by
  intro c hc
  rw [List.eq_of_mem_replicate hc]
  rfl

/-- Digits behind the zeros that make them more than `k`. -/
def padded (k n : Nat) : List Char :=
  List.replicate (k + 1 - (Nat.toDigits 10 n).length) '0' ++ Nat.toDigits 10 n

section Padded

variable {k n : Nat}

theorem toList_zeros_append (k n : Nat) :
    (zeros (k + 1 - (toString n).length) ++ toString n).toList = padded k n := by
  rw [String.toList_append, toList_zeros, ← String.length_toList, toList_toString, padded]

theorem isDigit_of_mem_padded : ∀ c ∈ padded k n, Numeral.isDigit c = true := fun c hc ↦
  (List.mem_append.mp hc).elim (isDigit_of_mem_zeros c) (Numeral.isDigit_of_mem_toDigits c)

theorem lt_length_padded : k < (padded k n).length := by
  rw [padded, List.length_append, List.length_replicate]
  omega

theorem ofDigits_padded : Numeral.ofDigits (padded k n) = n := by
  rw [padded, Numeral.ofDigits_append, Numeral.ofDigits_zeros, Numeral.ofDigits_toDigits,
    Nat.mul_zero, Nat.zero_add]

/-- Zeros are put in front only of digits too few. -/
theorem length_padded_or_eq : (padded k n).length = k + 1 ∨ padded k n = Nat.toDigits 10 n := by
  by_cases hlong : k < (Nat.toDigits 10 n).length
  · right
    rw [padded, Nat.sub_eq_zero_of_le hlong, List.replicate_zero, List.nil_append]
  · left
    rw [padded, List.length_append, List.length_replicate]
    omega

end Padded

theorem shows_whole {n : Nat} (hn : 0 < n) (k : Nat) :
    Shows ⟨n, k⟩ (Nat.toDigits 10 n ++ List.replicate k '0') ['0'] where
  whole_digits c hc := (List.mem_append.mp hc).elim (Numeral.isDigit_of_mem_toDigits c)
    (isDigit_of_mem_zeros c)
  fraction_digits := isDigit_of_mem_zeros (k := 1)
  whole_ne_nil := List.append_ne_nil_of_left_ne_nil Nat.toDigits_ne_nil _
  fraction_ne_nil := by decide
  head := by
    rw [List.head?_append_of_ne_nil _ Nat.toDigits_ne_nil]
    exact Or.inr (Numeral.head?_toDigits_ne hn)
  value := by
    rw [Numeral.ofDigits_append, Numeral.ofDigits_append, Numeral.ofDigits_toDigits,
      Numeral.ofDigits_zeros, Decimal.value]
    simp [show Numeral.ofDigits ['0'] = 0 from rfl, mul_comm]

theorem shows_split {n k : Nat} (hn : 0 < n) (hk : 0 < k) :
    Shows ⟨n, -k⟩ ((padded k n).take ((padded k n).length - k))
      ((padded k n).drop ((padded k n).length - k)) := by
  have hlength := lt_length_padded (k := k) (n := n)
  constructor
  case whole_digits => exact fun c hc ↦ isDigit_of_mem_padded c (List.mem_of_mem_take hc)
  case fraction_digits => exact fun c hc ↦ isDigit_of_mem_padded c (List.mem_of_mem_drop hc)
  case whole_ne_nil =>
    rw [← List.length_pos_iff, List.length_take]
    omega
  case fraction_ne_nil =>
    rw [← List.length_pos_iff, List.length_drop]
    omega
  case head =>
    rcases length_padded_or_eq (k := k) (n := n) with hshort | hlong
    · exact Or.inl (by rw [List.length_take]; omega)
    · rw [List.head?_take, if_neg (by omega), hlong]
      exact Or.inr (Numeral.head?_toDigits_ne hn)
  case value =>
    rw [List.take_append_drop, ofDigits_padded, List.length_drop, Nat.sub_sub_self hlength.le,
      Decimal.value, zpow_neg, zpow_natCast, div_eq_mul_inv]

/-- A decimal other than zero is shown by its digits in their places. -/
theorem exists_shows {d : Decimal} (hd : 0 < d.digits) :
    ∃ whole fraction, (positional true d).toList = whole ++ '.' :: fraction ∧
      Shows d whole fraction := by
  obtain ⟨n, e⟩ := d
  rw [positional]
  by_cases he : 0 ≤ e
  · obtain ⟨k, rfl⟩ := Int.eq_ofNat_of_zero_le he
    refine ⟨_, _, ?_, shows_whole hd k⟩
    simp [toList_zeros, Nat.toList_repr]
  · obtain ⟨k, rfl⟩ : ∃ k : Nat, e = -k := ⟨(-e).toNat, by omega⟩
    refine ⟨_, _, ?_, shows_split hd (by omega)⟩
    have hcount : (zeros (k + 1 - (toString n).length) ++ toString n).length =
        (padded k n).length := by
      rw [← String.length_toList, toList_zeros_append]
    simp only [if_neg he, neg_neg, Int.toNat_natCast, String.toList_append, String.toList_ofList,
      hcount]
    rw [← String.toList_append, toList_zeros_append, List.append_assoc]
    rfl

/-- A finite number above zero is shown in a settings file by a decimal that rounds to it. -/
theorem exists_shows_setting {x : Float} (hx : Double.IsPositive x) :
    ∃ d whole fraction, (NumberStyle.setting.write x).toList = whole ++ '.' :: fraction ∧
      Shows d whole fraction ∧
      BinaryFormat.Rounds (Double.parts x).1 (Double.parts x).2 d.value := by
  have hrounds := Decimal.rounds_shortest hx.canonical.1
  have hdigits : 0 < (Decimal.ofDouble x).digits := by
    refine Nat.pos_of_ne_zero fun hzero ↦ ?_
    have hpos := hrounds.pos hx.canonical.1
    change _ ≤ (Decimal.ofDouble x).value at hpos
    rw [Decimal.value, hzero, Nat.cast_zero, zero_mul] at hpos
    exact absurd hpos (not_le.mpr (by positivity))
  obtain ⟨whole, fraction, htext, hshows⟩ := exists_shows hdigits
  refine ⟨_, whole, fraction, ?_, hshows, hrounds⟩
  rw [← htext, NumberStyle.write, hx.isNaN, hx.isNegative, hx.isFinite, hx.beq_zero]
  simp [NumberStyle.setting]

/-! ## Reading a row of digits -/

section Reading

open BinaryFormat

/-- Where the leading digit may stand of what rounds to a number. -/
theorem leading_bounds {m : Nat} {q : Int} (hc : Canonical m q) {c : Char} {cs : List Char}
    {k : Nat} (hcs : ∀ d ∈ c :: cs, Numeral.isDigit d = true) (hzero : c ≠ '0')
    (h : Rounds m q (Numeral.ofDigits (c :: cs) / 10 ^ k)) :
    -400 < (cs.length : Int) + 1 - k ∧ (cs.length : Int) - k < 400 := by
  have hten : (0 : ℚ) < 10 ^ k := by positivity
  have hpower : ∀ n : Nat, (10 : ℚ) ^ ((n : Int) - k) = 10 ^ n / 10 ^ k := fun n ↦ by
    rw [zpow_sub₀ (by norm_num), zpow_natCast, zpow_natCast]
  have hbelow : (Numeral.ofDigits (c :: cs) : ℚ) < 10 ^ (cs.length + 1) := by
    exact_mod_cast Numeral.ofDigits_lt hcs
  have habove : (10 : ℚ) ^ cs.length ≤ Numeral.ofDigits (c :: cs) := by
    exact_mod_cast Numeral.le_ofDigits (hcs c List.mem_cons_self) hzero
  have htwo : ∀ n ≤ 1200, (2 : ℚ) ^ n < 10 ^ 400 := fun n hn ↦
    calc (2 : ℚ) ^ n ≤ 2 ^ (3 * 400) := pow_le_pow_right₀ (by norm_num) hn
      _ = (2 ^ 3) ^ 400 := pow_mul _ _ _
      _ < 10 ^ 400 := pow_lt_pow_left₀ (by norm_num) (by norm_num) (by norm_num)
  have hleast := hc.least_le
  have hmost := hc.le_most
  constructor
  · refine (zpow_lt_zpow_iff_right₀ (by norm_num : (1 : ℚ) < 10)).mp ?_
    calc (10 : ℚ) ^ (-400 : Int) = (10 ^ 400)⁻¹ := rfl
      _ < (2 ^ 1076)⁻¹ := inv_strictAnti₀ (by positivity) (htwo 1076 (by norm_num))
      _ = 2 ^ (-1076 : Int) := rfl
      _ ≤ 2 ^ (q - 2) := zpow_le_zpow_right₀ (by norm_num) (by omega)
      _ ≤ 2 * 2 ^ (q - 2) := le_mul_of_one_le_left (by positivity) (by norm_num)
      _ ≤ Numeral.ofDigits (c :: cs) / 10 ^ k := h.pos hc
      _ < 10 ^ (cs.length + 1) / 10 ^ k := div_lt_div_of_pos_right hbelow hten
      _ = 10 ^ ((cs.length : Int) + 1 - k) := by exact_mod_cast (hpower (cs.length + 1)).symm
  · refine (zpow_lt_zpow_iff_right₀ (by norm_num : (1 : ℚ) < 10)).mp ?_
    calc (10 : ℚ) ^ ((cs.length : Int) - k) = 10 ^ cs.length / 10 ^ k := hpower _
      _ ≤ Numeral.ofDigits (c :: cs) / 10 ^ k := div_le_div_of_nonneg_right habove hten.le
      _ < 2 ^ (q - 2 + (55 : Nat)) := h.lt hc
      _ ≤ 2 ^ (1024 : Int) := zpow_le_zpow_right₀ (by norm_num) (by omega)
      _ < 10 ^ (400 : Int) := htwo 1024 (by norm_num)

/-- **A row of digits that rounds to a finite number above zero is read as this number.** -/
theorem scientific_eq {x : Float} (hx : Double.IsPositive x) {cs : List Char} {k : Nat}
    (hk : 0 < k) (hcs : ∀ c ∈ cs, Numeral.isDigit c = true)
    (h : Rounds (Double.parts x).1 (Double.parts x).2 (Numeral.ofDigits cs / 10 ^ k)) :
    scientific false cs (-k) = x := by
  have hc := hx.canonical.1
  rw [← Numeral.ofDigits_dropWhile] at h
  rw [scientific]
  have hdigits : ∀ d ∈ cs.dropWhile (· = '0'), Numeral.isDigit d = true := fun d hd ↦
    hcs d ((List.dropWhile_sublist _).subset hd)
  have hhead := List.head?_dropWhile_not (fun c : Char ↦ decide (c = '0')) cs
  generalize cs.dropWhile (· = '0') = row at h hdigits hhead ⊢
  rcases row with _ | ⟨c, row⟩
  · have hpos := h.pos hc
    rw [show Numeral.ofDigits [] = 0 from rfl, Nat.cast_zero, zero_div] at hpos
    exact absurd hpos (not_le.mpr (by positivity))
  have hzero : c ≠ '0' := by simpa using hhead
  obtain ⟨hleast, hmost⟩ := leading_bounds hc hdigits hzero h
  have hlength : ((c :: row).length : Int) = row.length + 1 := by
    rw [List.length_cons, Nat.cast_add_one]
  have hpos : 0 < Numeral.ofDigits (c :: row) :=
    lt_of_lt_of_le (Nat.pow_pos (by decide))
      (Numeral.le_ofDigits (hdigits c List.mem_cons_self) hzero)
  have hden : tenTo k = 10 ^ k := rfl
  simp only [hlength, List.isEmpty_cons, Bool.false_or, decide_eq_true_iff, Bool.false_eq_true,
    if_false]
  rw [if_neg (by omega), if_neg (by omega), if_neg (by omega), neg_neg, Int.toNat_natCast, hden]
  exact Double.ofRatio_eq hx hpos (Nat.pow_pos (by decide)) (by exact_mod_cast h)

end Reading

end StackSynth
