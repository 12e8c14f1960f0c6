import StackSynth.Proofs.Number.Written
import StackSynth.Toml.Quoted

/-!
# Quoted texts are read back

A text is written in the first of four forms that shows it. The main result, `readText_writeText`,
says that whichever form is chosen, reading gives the text and what stood behind it, provided that
no further quote stands there.

## Escapes

Between double quotes a character is shown in one of three ways, which `ShownAs` lists: by a letter
behind a backslash, by its number, or as itself. Both readers that know escapes are followed through
these three ways and not through the eight cases in which they are written.

## Quotes that stand for themselves

Inside tripled quotes one or two quotes in a row stand for themselves. At the end of a text they are
read together with the closing ones, everywhere else something other than a quote comes before the
third (`ends_or_goes_on`, `ends_or_goes_on_single`). That the writer never leaves three of them in a
row is a statement about runs (`le_longestRun`).
-/

namespace StackSynth.Toml

/-! ## Escapes -/

/-- The hexadecimal digits of an escape. -/
def hexDigits (n : Nat) : List Char :=
  let digits := (Nat.toDigits 16 n).map Char.toUpper
  List.replicate (4 - digits.length) '0' ++ digits

theorem toList_hexEscape (c : Char) : (hexEscape c).toList = '\\' :: 'u' :: hexDigits c.toNat := by
  have hzeros : ∀ n, ("".pushn '0' n).toList = List.replicate n '0' := toList_pushn '0'
  simp only [hexEscape, String.toList_append, hzeros, String.toList_ofList, List.append_assoc]
  rfl

theorem hexChar?_hexDigits : ∀ n < 128,
    (hexDigits n).length = 4 ∧ hexChar? (hexDigits n) = some (Char.ofNat n) := by
  decide

/-- Only few characters have to be escaped by their number. -/
theorem toNat_lt_of_needsEscape {c : Char} (h : needsEscape c = true) : c.toNat < 128 := by
  rw [needsEscape, isPlainChar] at h
  by_cases hspace : ' ' ≤ c
  · by_cases hdelete : c = '\x7f'
    · rw [hdelete]
      decide
    · simp [hspace, hdelete] at h
  · have hlt : c.toNat < 32 := Nat.not_le.mp hspace
    omega

theorem isPlainChar_of_needsEscape {c : Char} (h : needsEscape c = false) (hn : c ≠ '\n') :
    isPlainChar c = true := by
  simpa [needsEscape, hn] using h

theorem ne_of_escape? {c d x : Char} (h : escape? x = some c) (hd : escape? d = none) : x ≠ d := by
  rintro rfl
  cases h.symm.trans hd

/-- How a character is shown: by a letter behind a backslash, by its number, or as itself. -/
inductive ShownAs (tripled : Bool) (c : Char) : List Char → Prop
  | letter {x : Char} (hx : escape? x = some c) : ShownAs tripled c ['\\', x]
  | number {x y z w : Char} (hchar : hexChar? [x, y, z, w] = some c) :
      ShownAs tripled c ['\\', 'u', x, y, z, w]
  | itself (hback : c ≠ '\\') (hreturn : c ≠ '\r')
      (hplain : tripled = true ∧ c = '\n' ∨ isPlainChar c = true) : ShownAs tripled c [c]

theorem shownAs_hexEscape {tripled : Bool} {c : Char} (h : needsEscape c = true) :
    ShownAs tripled c (hexEscape c).toList := by
  obtain ⟨hlength, hchar⟩ := hexChar?_hexDigits c.toNat (toNat_lt_of_needsEscape h)
  rw [toList_hexEscape]
  generalize hexDigits c.toNat = digits at hlength hchar
  obtain ⟨x, y, z, w, rfl⟩ := List.length_eq_four.mp hlength
  exact .number (by rw [hchar, Char.ofNat_toNat])

/-- There is no other way. -/
theorem shownAs (tripled : Bool) (c : Char) : ShownAs tripled c (shown tripled c).toList := by
  rw [shown]
  split
  next hc => exact .letter (congrArg some hc.symm)
  split
  next hc => exact .letter (congrArg some hc.symm)
  split
  next hc =>
    cases tripled
    · exact .letter (congrArg some hc.symm)
    · subst hc
      exact .itself (by decide) (by decide) (.inl ⟨rfl, rfl⟩)
  split
  next hc => exact .letter (congrArg some hc.symm)
  split
  next hc => exact .letter (congrArg some hc.symm)
  split
  next hc => exact .letter (congrArg some hc.symm)
  split
  next hc => exact shownAs_hexEscape hc
  next hback _ hn hreturn _ _ hc =>
    rw [Char.toString, String.toList_singleton]
    exact .itself hback hreturn (.inr (isPlainChar_of_needsEscape (Bool.eq_false_iff.mpr hc) hn))

theorem toList_writeEscaped_of_ne {tripled : Bool} {run : Nat} {c : Char} (h : c ≠ '"')
    (cs : List Char) : (writeEscaped tripled run (c :: cs)).toList =
      (shown tripled c).toList ++ (writeEscaped tripled 0 cs).toList := by
  rw [writeEscaped, if_neg h, String.toList_append]

/-- A double quote that does not stand for itself. -/
theorem toList_writeEscaped_quote {tripled : Bool} {run : Nat} (h : (tripled && run < 2) = false)
    (cs : List Char) : (writeEscaped tripled run ('"' :: cs)).toList =
      '\\' :: '"' :: (writeEscaped tripled 0 cs).toList := by
  rw [writeEscaped, if_pos rfl, if_neg (by rw [h]; exact Bool.false_ne_true), String.toList_append]
  rfl

/-- A double quote that stands for itself. -/
theorem toList_writeEscaped_rawQuote {run : Nat} (h : run < 2) (cs : List Char) :
    (writeEscaped true run ('"' :: cs)).toList =
      '"' :: (writeEscaped true (run + 1) cs).toList := by
  rw [writeEscaped, if_pos rfl, if_pos (by rw [Bool.true_and]; exact decide_eq_true h),
    String.toList_append]
  rfl

/-! ## Between double quotes -/

section Double

variable {c x : Char}

theorem readDouble_letter (h : escape? x = some c) (out rest : List Char) :
    readDouble out ('\\' :: x :: rest) = readDouble (c :: out) rest := by
  rw [readDouble, h]
  · rfl
  · exact fun _ _ _ _ _ hx ↦ absurd hx (ne_of_escape? h rfl)
  · exact fun _ _ _ _ _ _ _ _ _ hx ↦ absurd hx (ne_of_escape? h rfl)

theorem readDouble_plain (hplain : isPlainChar c = true) (hquote : c ≠ '"') (hback : c ≠ '\\')
    (out rest : List Char) : readDouble out (c :: rest) = readDouble (c :: out) rest := by
  rw [readDouble, if_pos hplain]
  · exact hquote
  · exact fun _ _ _ _ _ hc ↦ absurd hc hback
  · exact fun _ _ _ _ _ _ _ _ _ hc ↦ absurd hc hback
  · exact fun _ _ hc ↦ absurd hc hback

/-- A character is read as it is shown. -/
theorem readDouble_shown (h : c ≠ '"') (out rest : List Char) :
    readDouble out ((shown false c).toList ++ rest) = readDouble (c :: out) rest := by
  have hshown := shownAs false c
  generalize (shown false c).toList = text at hshown ⊢
  cases hshown with
  | letter hx => exact readDouble_letter hx out rest
  | number hchar =>
    change (hexChar? _).bind _ = _
    rw [hchar]
    rfl
  | itself hback _ hplain =>
    exact readDouble_plain (hplain.resolve_left fun h ↦ Bool.false_ne_true h.1) h hback out rest

theorem readDouble_writeEscaped (run : Nat) (cs out rest : List Char) :
    readDouble out ((writeEscaped false run cs).toList ++ '"' :: rest) =
      finish (cs.reverse ++ out) rest := by
  induction cs generalizing run out with
  | nil => rfl
  | cons c cs ih =>
    rw [List.reverse_cons, List.append_assoc, List.singleton_append]
    by_cases hc : c = '"'
    · subst hc
      rw [toList_writeEscaped_quote rfl, ← ih 0]
      rfl
    · rw [toList_writeEscaped_of_ne hc, List.append_assoc, readDouble_shown hc, ih 0]

end Double

/-! ## Between tripled double quotes -/

section TripleDouble

variable {c x : Char}

theorem restOfLineIsBlank_cons (hspace : c ≠ ' ') (htab : c ≠ '\t') (hn : c ≠ '\n')
    (hreturn : c ≠ '\r') (rest : List Char) : restOfLineIsBlank (c :: rest) = false := by
  rw [restOfLineIsBlank, List.dropWhile_cons, if_neg (by simp [hspace, htab]), startsLineBreak]
  · exact fun _ h ↦ hn (List.cons.inj h).1
  · exact fun _ h ↦ hreturn (List.cons.inj h).1

theorem readTripleDouble_letter (h : escape? x = some c) (out rest : List Char) :
    readTripleDouble false out ('\\' :: x :: rest) = readTripleDouble false (c :: out) rest := by
  have hblank : restOfLineIsBlank (x :: rest) = false :=
    restOfLineIsBlank_cons (ne_of_escape? h rfl) (ne_of_escape? h rfl) (ne_of_escape? h rfl)
      (ne_of_escape? h rfl) rest
  rw [readTripleDouble, hblank, if_neg Bool.false_ne_true, h]
  · rfl
  · exact fun _ _ _ _ _ hx ↦ absurd hx (ne_of_escape? h rfl)
  · exact fun _ _ _ _ _ _ _ _ _ hx ↦ absurd hx (ne_of_escape? h rfl)

/-- What neither starts an escape nor ends a text stands for itself. -/
theorem readTripleDouble_plain (hplain : c = '\n' ∨ isPlainChar c = true) (hback : c ≠ '\\')
    (out rest : List Char) (hquotes : c = '"' → ∀ rest', rest ≠ '"' :: '"' :: rest') :
    readTripleDouble false out (c :: rest) = readTripleDouble false (c :: out) rest := by
  have hreturn : c ≠ '\r' := by
    rintro rfl
    rcases hplain with h | h <;> cases h
  rw [readTripleDouble]
  · rw [Bool.false_and, if_neg Bool.false_ne_true, if_pos]
    rw [Bool.or_eq_true, decide_eq_true_iff]
    exact hplain
  · exact fun rest' hc ↦ hquotes hc _
  · exact fun rest' hc ↦ hquotes hc _
  · exact fun rest' hc ↦ hquotes hc _
  · exact fun rest' hc ↦ absurd hc hreturn
  · exact fun _ _ _ _ _ hc ↦ absurd hc hback
  · exact fun _ _ _ _ _ _ _ _ _ hc ↦ absurd hc hback
  · exact fun _ _ hc ↦ absurd hc hback

/-- A character is read as it is shown. -/
theorem readTripleDouble_shown (h : c ≠ '"') (out rest : List Char) :
    readTripleDouble false out ((shown true c).toList ++ rest) =
      readTripleDouble false (c :: out) rest := by
  have hshown := shownAs true c
  generalize (shown true c).toList = text at hshown ⊢
  cases hshown with
  | letter hx => exact readTripleDouble_letter hx out rest
  | number hchar =>
    change (hexChar? _).bind _ = _
    rw [hchar]
    rfl
  | itself hback _ hplain =>
    exact readTripleDouble_plain (hplain.imp_left And.right) hback out rest fun hquote ↦
      absurd hquote h

/-- What is shown of a character starts with a backslash or is the character itself, which then is
no carriage return. -/
theorem shown_head (tripled : Bool) (c : Char) (rest : List Char) :
    ∃ x xs, (shown tripled c).toList ++ rest = x :: xs ∧ (x = '\\' ∨ x = c ∧ c ≠ '\r') := by
  have hshown := shownAs tripled c
  generalize (shown tripled c).toList = text at hshown ⊢
  cases hshown with
  | letter | number => exact ⟨_, _, rfl, Or.inl rfl⟩
  | itself _ hreturn _ => exact ⟨_, _, rfl, Or.inr ⟨rfl, hreturn⟩⟩

/-- A text goes on with something else than a double quote, unless one stands for itself. -/
theorem writeEscaped_ne (tripled : Bool) (run : Nat) {c : Char}
    (h : c = '"' → (tripled && run < 2) = false) (cs rest : List Char) :
    ∃ x xs, (writeEscaped tripled run (c :: cs)).toList ++ rest = x :: xs ∧ x ≠ '"' := by
  by_cases hc : c = '"'
  · rw [hc, toList_writeEscaped_quote (h hc)]
    exact ⟨_, _, rfl, by decide⟩
  · rw [toList_writeEscaped_of_ne hc, List.append_assoc]
    obtain ⟨x, xs, htext, hx⟩ := shown_head tripled c ((writeEscaped tripled 0 cs).toList ++ rest)
    refine ⟨x, xs, htext, ?_⟩
    rintro rfl
    rcases hx with hx | ⟨hx, -⟩
    · cases hx
    · exact hc hx.symm

/-- Behind a double quote that stands for itself the text ends, at once or after another one, or it
goes on with less than two double quotes. -/
theorem ends_or_goes_on {run : Nat} (h : run < 2) (cs rest : List Char) :
    cs = [] ∨ run = 0 ∧ cs = ['"'] ∨
      ∀ rest', (writeEscaped true (run + 1) cs).toList ++ rest ≠ '"' :: '"' :: rest' := by
  rcases cs with _ | ⟨c, cs⟩
  · exact .inl rfl
  right
  by_cases hagain : c = '"' ∧ run = 0
  · obtain ⟨rfl, rfl⟩ := hagain
    rcases cs with _ | ⟨d, cs⟩
    · exact .inl ⟨rfl, rfl⟩
    · right
      obtain ⟨x, xs, htext, hx⟩ := writeEscaped_ne true 2 (c := d) (fun _ ↦ rfl) cs rest
      rw [toList_writeEscaped_rawQuote (by decide), List.cons_append, htext]
      exact fun rest' heq ↦ hx (List.cons.inj (List.cons.inj heq).2).1
  · right
    obtain ⟨x, xs, htext, hx⟩ := writeEscaped_ne true (run + 1) (c := c)
      (fun hquote ↦ by
        have hrun : run ≠ 0 := fun hzero ↦ hagain ⟨hquote, hzero⟩
        rw [Bool.true_and, decide_eq_false_iff_not]
        omega) cs rest
    rw [htext]
    exact fun rest' heq ↦ hx (List.cons.inj heq).1

theorem readTripleDouble_writeEscaped {rest : List Char} (hrest : rest.head? ≠ some '"') {run : Nat}
    (hrun : run ≤ 2) (cs out : List Char) :
    readTripleDouble false out ((writeEscaped true run cs).toList ++ '"' :: '"' :: '"' :: rest) =
      finish (cs.reverse ++ out) rest := by
  have hmore : ∀ rest', rest = '"' :: rest' → False := by
    rintro rest' rfl
    exact hrest rfl
  induction cs generalizing run out with
  | nil =>
    change readTripleDouble false out ('"' :: '"' :: '"' :: rest) = _
    rw [readTripleDouble]
    · rfl
    · exact fun rest' h ↦ hmore _ h
    · exact hmore
  | cons c cs ih =>
    rw [List.reverse_cons, List.append_assoc, List.singleton_append]
    by_cases hc : c = '"'
    · subst hc
      rcases Nat.lt_or_eq_of_le hrun with hlt | rfl
      · rw [toList_writeEscaped_rawQuote hlt, List.cons_append]
        -- the last quotes of a text are read together with the closing ones
        rcases ends_or_goes_on hlt cs ('"' :: '"' :: '"' :: rest) with rfl | ⟨rfl, rfl⟩ | hgoes
        · change readTripleDouble false out ('"' :: '"' :: '"' :: '"' :: rest) = _
          rw [readTripleDouble]
          · rfl
          · exact hmore
        · change readTripleDouble false out ('"' :: '"' :: '"' :: '"' :: '"' :: rest) = _
          rw [readTripleDouble]
          rfl
        · rw [readTripleDouble_plain (.inr rfl) (by decide) _ _ fun _ ↦ hgoes,
            ih (Nat.succ_le_of_lt hlt)]
      · rw [toList_writeEscaped_quote rfl, ← ih (by decide : 0 ≤ 2)]
        rfl
    · rw [toList_writeEscaped_of_ne hc, List.append_assoc, readTripleDouble_shown hc,
        ih (by decide : 0 ≤ 2)]

end TripleDouble

/-! ## Runs -/

/-- The longest run of a character, if `run` of them stand just before and the longest one before
that has `most`. -/
def longestRunFrom (c : Char) (most run : Nat) (cs : List Char) : Nat :=
  (cs.foldl (fun (most, run) x ↦
    if x = c then (max most (run + 1), run + 1) else (most, 0)) (most, run)).1

theorem longestRunFrom_self (c : Char) (most run : Nat) (cs : List Char) :
    longestRunFrom c most run (c :: cs) = longestRunFrom c (max most (run + 1)) (run + 1) cs := by
  rw [longestRunFrom, List.foldl_cons]
  dsimp only
  rw [if_pos rfl, longestRunFrom]

theorem longestRunFrom_of_ne {c x : Char} (h : x ≠ c) (most run : Nat) (cs : List Char) :
    longestRunFrom c most run (x :: cs) = longestRunFrom c most 0 cs := by
  rw [longestRunFrom, List.foldl_cons]
  dsimp only
  rw [if_neg h, longestRunFrom]

theorem most_le_longestRunFrom (c : Char) (most run : Nat) (cs : List Char) :
    most ≤ longestRunFrom c most run cs := by
  induction cs generalizing most run with
  | nil => exact le_rfl
  | cons x cs ih =>
    by_cases hx : x = c
    · rw [hx, longestRunFrom_self]
      exact (le_max_left _ _).trans (ih _ _)
    · rw [longestRunFrom_of_ne hx]
      exact ih _ _

theorem run_le_longestRunFrom {c : Char} {most run : Nat} (h : run ≤ most) (n : Nat)
    (cs : List Char) : run + n ≤ longestRunFrom c most run (List.replicate n c ++ cs) := by
  induction n generalizing most run with
  | zero => exact h.trans (most_le_longestRunFrom _ _ _ _)
  | succ n ih =>
    rw [List.replicate_succ, List.cons_append, longestRunFrom_self]
    have hrun := ih (le_max_right most (run + 1))
    omega

/-- A run is at most as long as the longest one. -/
theorem le_longestRun {n : Nat} {c : Char} {cs : List Char} (h : List.replicate n c <:+: cs) :
    n ≤ longestRun c cs := by
  obtain ⟨front, back, rfl⟩ := h
  have hfrom : ∀ most run, run ≤ most →
      n ≤ longestRunFrom c most run (front ++ List.replicate n c ++ back) := by
    induction front with
    | nil =>
      intro most run hle
      exact (Nat.le_add_left n run).trans (run_le_longestRunFrom hle n back)
    | cons x front ih =>
      intro most run hle
      rw [List.cons_append, List.cons_append]
      by_cases hx : x = c
      · rw [hx, longestRunFrom_self]
        exact ih _ _ (le_max_right _ _)
      · rw [longestRunFrom_of_ne hx]
        exact ih _ _ (Nat.zero_le _)
  exact hfrom 0 0 le_rfl

theorem not_mem_of_longestRun {c : Char} {cs : List Char} (h : longestRun c cs = 0) : c ∉ cs := by
  intro hmem
  obtain ⟨front, back, rfl⟩ := List.append_of_mem hmem
  have hrun : List.replicate 1 c <:+: front ++ c :: back := ⟨front, back, by simp⟩
  have hle := le_longestRun hrun
  omega

/-! ## Between single quotes -/

theorem readSingle_append {cs : List Char} (hplain : ∀ c ∈ cs, isPlainChar c = true)
    (hquote : '\'' ∉ cs) (out rest : List Char) :
    readSingle out (cs ++ '\'' :: rest) = finish (cs.reverse ++ out) rest := by
  induction cs generalizing out with
  | nil => rfl
  | cons c cs ih =>
    obtain ⟨hc, hcs⟩ := not_or.mp (List.mem_cons.not.mp hquote)
    rw [List.reverse_cons, List.append_assoc, List.singleton_append,
      ← ih (fun d hd ↦ hplain d (List.mem_cons_of_mem c hd)) hcs, List.cons_append, readSingle,
      if_pos (hplain c List.mem_cons_self)]
    exact Ne.symm hc

/-! ## Between tripled single quotes -/

theorem readTripleSingle_plain {c : Char} (hplain : c = '\n' ∨ isPlainChar c = true)
    (out rest : List Char) (hquotes : c = '\'' → ∀ rest', rest ≠ '\'' :: '\'' :: rest') :
    readTripleSingle out (c :: rest) = readTripleSingle (c :: out) rest := by
  have hreturn : c ≠ '\r' := by
    rintro rfl
    rcases hplain with h | h <;> cases h
  rw [readTripleSingle]
  · rw [if_pos]
    rw [Bool.or_eq_true, decide_eq_true_iff]
    exact hplain
  · exact fun rest' hc ↦ hquotes hc _
  · exact fun rest' hc ↦ hquotes hc _
  · exact fun rest' hc ↦ hquotes hc _
  · exact fun rest' hc ↦ absurd hc hreturn

/-- Behind a single quote the text ends, at once or after another one, or it goes on with less than
two single quotes. -/
theorem ends_or_goes_on_single {cs : List Char} (h : ¬ ['\'', '\'', '\''] <:+: '\'' :: cs)
    (rest : List Char) :
    cs = [] ∨ cs = ['\''] ∨ ∀ rest', cs ++ rest ≠ '\'' :: '\'' :: rest' := by
  rcases cs with _ | ⟨c, _ | ⟨d, cs⟩⟩
  · exact .inl rfl
  · by_cases hc : c = '\''
    · exact .inr (.inl (congrArg (fun x ↦ [x]) hc))
    · exact .inr (.inr fun rest' heq ↦ hc (List.cons.inj heq).1)
  · refine .inr (.inr fun rest' heq ↦ h ?_)
    obtain ⟨rfl, htail⟩ := List.cons.inj heq
    obtain ⟨rfl, -⟩ := List.cons.inj htail
    exact ⟨[], cs, rfl⟩

theorem readTripleSingle_append {rest : List Char} (hrest : rest.head? ≠ some '\'')
    {cs : List Char} (hplain : ∀ c ∈ cs, c = '\n' ∨ isPlainChar c = true)
    (hruns : ¬ ['\'', '\'', '\''] <:+: cs) (out : List Char) :
    readTripleSingle out (cs ++ '\'' :: '\'' :: '\'' :: rest) =
      finish (cs.reverse ++ out) rest := by
  have hmore : ∀ rest', rest = '\'' :: rest' → False := by
    rintro rest' rfl
    exact hrest rfl
  induction cs generalizing out with
  | nil =>
    change readTripleSingle out ('\'' :: '\'' :: '\'' :: rest) = _
    rw [readTripleSingle]
    · rfl
    · exact fun rest' h ↦ hmore _ h
    · exact hmore
  | cons c cs ih =>
    have hgoes : (c = '\'' → ∀ rest',
        cs ++ '\'' :: '\'' :: '\'' :: rest ≠ '\'' :: '\'' :: rest') →
        readTripleSingle out (c :: (cs ++ '\'' :: '\'' :: '\'' :: rest)) =
          finish (cs.reverse ++ c :: out) rest := by
      intro hne
      rw [readTripleSingle_plain (hplain c List.mem_cons_self) _ _ hne,
        ih (fun d hd ↦ hplain d (List.mem_cons_of_mem c hd))
          fun h ↦ hruns (h.trans (List.suffix_cons c cs).isInfix)]
    rw [List.reverse_cons, List.append_assoc, List.singleton_append, List.cons_append]
    by_cases hc : c = '\''
    · subst hc
      rcases ends_or_goes_on_single hruns ('\'' :: '\'' :: '\'' :: rest) with rfl | rfl | hnext
      · change readTripleSingle out ('\'' :: '\'' :: '\'' :: '\'' :: rest) = _
        rw [readTripleSingle]
        · rfl
        · exact hmore
      · change readTripleSingle out ('\'' :: '\'' :: '\'' :: '\'' :: '\'' :: rest) = _
        rw [readTripleSingle]
        rfl
      · exact hgoes fun _ ↦ hnext
    · exact hgoes fun h ↦ absurd h hc

/-! ## Texts -/

section Texts

variable {cs rest : List Char}

theorem readText_double (hrest : rest.head? ≠ some '"') :
    readText ('"' :: ((writeEscaped false 0 cs).toList ++ '"' :: rest)) =
      some (String.ofList cs, rest) := by
  have hread := readDouble_writeEscaped 0 cs [] rest
  rw [List.append_nil, finish, List.reverse_reverse] at hread
  rw [readText]
  · exact hread
  · intro rest' heq
    obtain ⟨-, heq⟩ := List.cons.inj heq
    rcases cs with _ | ⟨c, cs⟩
    · obtain ⟨-, heq⟩ := List.cons.inj heq
      rw [heq] at hrest
      exact hrest rfl
    · obtain ⟨x, xs, htext, hx⟩ := writeEscaped_ne false 0 (c := c)
        (fun _ ↦ rfl) cs ('"' :: rest)
      rw [htext] at heq
      exact hx (List.cons.inj heq).1
  · intro rest' heq
    cases (List.cons.inj heq).1

theorem readText_single (hplain : ∀ c ∈ cs, isPlainChar c = true) (hquote : '\'' ∉ cs)
    (hrest : rest.head? ≠ some '\'') :
    readText ('\'' :: (cs ++ '\'' :: rest)) = some (String.ofList cs, rest) := by
  have hread := readSingle_append hplain hquote [] rest
  rw [List.append_nil, finish, List.reverse_reverse] at hread
  rw [readText]
  · exact hread
  · intro rest' heq
    cases (List.cons.inj heq).1
  · intro rest' heq
    obtain ⟨-, heq⟩ := List.cons.inj heq
    rcases cs with _ | ⟨c, cs⟩
    · obtain ⟨-, heq⟩ := List.cons.inj heq
      rw [heq] at hrest
      exact hrest rfl
    · obtain ⟨rfl, -⟩ := List.cons.inj heq
      exact hquote List.mem_cons_self

/-- The line break in front of a text that holds line breaks. -/
def front (cs : List Char) : List Char := if cs.contains '\n' then ['\n'] else []

/-- A line break behind the opening quotes is dropped, and there is one if the text could start with
a line break of its own. -/
theorem dropLineBreak_front {text : List Char} {c : Char} {tail : List Char} (h : text = c :: tail)
    (hreturn : c ≠ '\r') (hn : c = '\n' → '\n' ∈ cs) : dropLineBreak (front cs ++ text) = text := by
  rw [front]
  split
  next => rfl
  next hnone =>
    have hc : c ≠ '\n' := fun hc ↦ hnone (List.contains_iff_mem.mpr (hn hc))
    rw [List.nil_append, h, dropLineBreak]
    · exact fun rest heq ↦ hc (List.cons.inj heq).1
    · exact fun rest heq ↦ hreturn (List.cons.inj heq).1

theorem readText_tripleDouble (hrest : rest.head? ≠ some '"') :
    readText ('"' :: '"' :: '"' :: (front cs ++
      ((writeEscaped true 0 cs).toList ++ '"' :: '"' :: '"' :: rest))) =
      some (String.ofList cs, rest) := by
  have hread := readTripleDouble_writeEscaped hrest (by decide : 0 ≤ 2) cs []
  rw [List.append_nil, finish, List.reverse_reverse] at hread
  rw [← hread, readText]
  congr 1
  rcases cs with _ | ⟨c, cs⟩
  · rfl
  · by_cases hc : c = '"'
    · subst hc
      rw [toList_writeEscaped_rawQuote (by decide)]
      exact dropLineBreak_front (c := '"') rfl (by decide) fun h ↦ absurd h (by decide)
    · rw [toList_writeEscaped_of_ne hc, List.append_assoc]
      obtain ⟨x, xs, htext, hx⟩ := shown_head true c
        ((writeEscaped true 0 cs).toList ++ '"' :: '"' :: '"' :: rest)
      refine dropLineBreak_front htext ?_ ?_
      · rintro rfl
        rcases hx with hx | ⟨hx, hreturn⟩
        · cases hx
        · exact hreturn hx.symm
      · rintro rfl
        rcases hx with hx | ⟨hx, -⟩
        · cases hx
        · rw [← hx]
          exact List.mem_cons_self

theorem readText_tripleSingle (hplain : ∀ c ∈ cs, c = '\n' ∨ isPlainChar c = true)
    (hruns : longestRun '\'' cs ≤ 2) (hrest : rest.head? ≠ some '\'') :
    readText ('\'' :: '\'' :: '\'' :: (front cs ++ (cs ++ '\'' :: '\'' :: '\'' :: rest))) =
      some (String.ofList cs, rest) := by
  have hread := readTripleSingle_append hrest hplain (fun h ↦ by
    have hle := le_longestRun (n := 3) (c := '\'') h
    omega) []
  rw [List.append_nil, finish, List.reverse_reverse] at hread
  rw [← hread, readText]
  congr 1
  rcases cs with _ | ⟨c, cs⟩
  · rfl
  · refine dropLineBreak_front rfl ?_ fun hc ↦ by rw [hc]; exact List.mem_cons_self
    rintro rfl
    rcases hplain '\r' List.mem_cons_self with h | h <;> cases h

end Texts

/-- **A text is read back in whichever form it is written.** -/
theorem readText_writeText (s : String) {rest : List Char} (hdouble : rest.head? ≠ some '"')
    (hsingle : rest.head? ≠ some '\'') :
    readText ((writeText s).toList ++ rest) = some (s, rest) := by
  have hfront : (if s.toList.contains '\n' then "\n" else "").toList = front s.toList := by
    rw [front]
    split <;> rfl
  have hplain : (!s.toList.any needsEscape) = true →
      ∀ c ∈ s.toList, c = '\n' ∨ isPlainChar c = true := by
    intro hescapes c hc
    rw [Bool.not_eq_true', List.any_eq_false] at hescapes
    by_cases hn : c = '\n'
    · exact Or.inl hn
    · exact Or.inr (isPlainChar_of_needsEscape (Bool.eq_false_iff.mpr (hescapes c hc)) hn)
  have hresult : some (s, rest) = some (String.ofList s.toList, rest) := by
    rw [String.ofList_toList]
  rw [hresult, writeText]
  split
  next =>
    rw [String.toList_append, String.toList_append, List.append_assoc, List.append_assoc]
    exact readText_double hdouble
  split
  next h =>
    simp only [Bool.and_eq_true, decide_eq_true_iff] at h
    obtain ⟨⟨hescapes, hruns⟩, hline⟩ := h
    have hline' : '\n' ∉ s.toList := by simpa using hline
    rw [String.toList_append, String.toList_append, List.append_assoc, List.append_assoc]
    refine readText_single (fun c hc ↦ ?_) (not_mem_of_longestRun hruns) hsingle
    refine (hplain hescapes c hc).resolve_left ?_
    rintro rfl
    exact hline' hc
  split
  next =>
    simp only [String.toList_append, hfront, List.append_assoc]
    exact readText_tripleDouble hdouble
  split
  next h =>
    simp only [Bool.and_eq_true, decide_eq_true_iff] at h
    simp only [String.toList_append, hfront, List.append_assoc]
    exact readText_tripleSingle (hplain h.1) h.2 hsingle
  split
  next hline =>
    have hfront' : "\n".toList = front s.toList := by rw [front, if_pos hline]; rfl
    simp only [String.toList_append, hfront', List.append_assoc]
    exact readText_tripleDouble hdouble
  next =>
    rw [String.toList_append, String.toList_append, List.append_assoc, List.append_assoc]
    exact readText_double hdouble

/-- A written text starts with a quote. -/
theorem exists_writeText_cons (s : String) :
    ∃ c cs, (writeText s).toList = c :: cs ∧ (c = '"' ∨ c = '\'') := by
  rw [writeText]
  repeat' split
  all_goals simp only [String.toList_append, List.append_assoc]
  all_goals first | exact ⟨'"', _, rfl, Or.inl rfl⟩ | exact ⟨'\'', _, rfl, Or.inr rfl⟩

end StackSynth.Toml
