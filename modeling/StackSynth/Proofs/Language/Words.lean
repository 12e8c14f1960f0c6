import Mathlib.Data.List.Forall2
import StackSynth.Language.Token
import StackSynth.Proofs.Language.Numerals

/-!
# Tokens by words

Reading tokens moves a cursor through a text, which passes over white space, words, lines and
comments and counts lines and columns on its way. This file says what comes of it without a cursor,
in three steps: the words of a text, with line and column counted from what is in front of them
(`wordsOf`), the words that are not in a comment (`dropComments`), and the token that a word is
(`Token.Of`).

## The invariant

A cursor sees a list of words if these are the words that begin in what it has left, and it does not
stand inside a word (`Cursor.Sees`). Each way to move a cursor drops the words that it passes over:
`nextWord?` the first one, `skipLine` those on the line, and `skipComment` those up to the end of
the comment. Scanning follows the list that the cursor sees.
-/

namespace StackSynth

/-! ## Locations -/

/-- The place behind the beginning of a text, by the line feeds in it and by what follows the last
of these. -/
def Location.behind (before : List Char) : Location :=
  ⟨1 + before.count '\n', 1 + (before.reverse.takeWhile (· ≠ '\n')).length⟩

namespace Location

theorem next_behind (before : List Char) (c : Char) :
    (behind before).next c = behind (before ++ [c]) := by
  by_cases h : c = '\n'
  · simp [behind, next, h, Nat.add_assoc]
  · simp [behind, next, h, Nat.add_assoc]

theorem advance_behind (before cs : List Char) :
    (behind before).advance cs = behind (before ++ cs) := by
  induction cs generalizing before with
  | nil => rw [List.append_nil]; rfl
  | cons c cs ih =>
    rw [List.append_cons, ← ih, ← next_behind]
    rfl

theorem line_behind_append (before cs : List Char) :
    (behind (before ++ cs)).line = (behind before).line + cs.count '\n' := by
  simp [behind, Nat.add_assoc]

theorem line_behind_take {before cs : List Char} (h : '\n' ∉ cs) (i : Nat) :
    (behind (before ++ cs.take i)).line = (behind before).line := by
  rw [line_behind_append, List.count_eq_zero_of_not_mem fun hmem ↦
    h (List.mem_of_mem_take hmem), Nat.add_zero]

end Location

/-! ## Words -/

/-- The word that begins between two parts of a text, if one does: the second part begins with a
character that is not white space, and the first is empty or ends in white space. -/
def Word.between? (before rest : List Char) : Option Word :=
  if before.getLast?.all isBlank && rest.head?.any (!isBlank ·) then
    some ⟨String.ofList (rest.takeWhile (!isBlank ·)), .behind before⟩
  else none

/-- The words that begin in the second part of a text. -/
def wordsBehind (before rest : List Char) : List Word :=
  (List.range rest.length).filterMap fun i ↦ Word.between? (before ++ rest.take i) (rest.drop i)

/-- The words of a text: its maximal runs of characters that are not white space. -/
def wordsOf (text : List Char) : List Word :=
  (List.range text.length).filterMap fun i ↦ Word.between? (text.take i) (text.drop i)

theorem wordsBehind_append (before xs ys : List Char) :
    wordsBehind before (xs ++ ys) =
      (List.range xs.length).filterMap (fun i ↦
        Word.between? (before ++ xs.take i) (xs.drop i ++ ys)) ++ wordsBehind (before ++ xs) ys := by
  rw [wordsBehind, List.length_append, List.range_add, List.filterMap_append, List.filterMap_map]
  congr 1
  · refine List.filterMap_congr fun i hi ↦ ?_
    have hle : i ≤ xs.length := Nat.le_of_lt (List.mem_range.mp hi)
    rw [List.take_append_of_le_length hle, List.drop_append_of_le_length hle]
  · refine List.filterMap_congr fun i _ ↦ ?_
    simp only [Function.comp, List.take_length_add_append, List.drop_length_add_append,
      List.append_assoc]

/-- No word begins at white space. -/
theorem wordsBehind_blanks {before blanks rest : List Char} (h : ∀ c ∈ blanks, isBlank c = true) :
    wordsBehind before (blanks ++ rest) = wordsBehind (before ++ blanks) rest := by
  rw [wordsBehind_append, List.filterMap_eq_nil_iff.mpr, List.nil_append]
  intro i hi
  rw [List.mem_range] at hi
  have hhead : (blanks.drop i ++ rest).head? = some blanks[i] := by
    rw [List.drop_eq_getElem_cons hi]
    rfl
  rw [Word.between?, hhead]
  simp [h _ (List.getElem_mem hi)]

/-- Inside a word no other one begins. -/
theorem wordsBehind_letters {before letters rest : List Char} {c : Char}
    (hc : isBlank c = false) (h : ∀ c ∈ letters, isBlank c = false) :
    wordsBehind (before ++ [c]) (letters ++ rest)
      = wordsBehind (before ++ [c] ++ letters) rest := by
  rw [wordsBehind_append, List.filterMap_eq_nil_iff.mpr, List.nil_append]
  intro i _
  have hlast : (before ++ [c] ++ letters.take i).getLast? =
      (letters.take i).getLast?.or (some c) := by
    rw [List.getLast?_append, List.getLast?_concat]
  rw [Word.between?, hlast]
  cases htake : (letters.take i).getLast? with
  | none => simp [hc]
  | some x => simp [h x (List.mem_of_mem_take (List.mem_of_getLast? htake))]

/-- A run of letters with nothing but white space or an end around it is a word. -/
theorem wordsBehind_word {before letters rest : List Char}
    (hbefore : before.getLast?.all isBlank = true) (hne : letters ≠ [])
    (h : ∀ c ∈ letters, isBlank c = false) (hrest : rest.head?.all isBlank = true) :
    wordsBehind before (letters ++ rest) =
      ⟨String.ofList letters, .behind before⟩ :: wordsBehind (before ++ letters) rest := by
  obtain ⟨c, letters, rfl⟩ := List.exists_cons_of_ne_nil hne
  rw [List.forall_mem_cons] at h
  have htake : (c :: (letters ++ rest)).takeWhile (!isBlank ·) = c :: letters := by
    have hnil : rest.takeWhile (!isBlank ·) = [] := by
      cases rest with
      | nil => rfl
      | cons x rest => exact List.takeWhile_cons_of_neg (by simpa using hrest)
    rw [List.takeWhile_cons_of_pos (by simp [h.1]),
      List.takeWhile_append_of_pos (by simpa using h.2), hnil, List.append_nil]
  have hword : Word.between? before (c :: (letters ++ rest))
      = some ⟨String.ofList (c :: letters), .behind before⟩ := by
    rw [Word.between?, htake, if_pos]
    simp [hbefore, h.1]
  have hfirst := wordsBehind_append before [c] (letters ++ rest)
  rw [wordsBehind_letters h.1 h.2] at hfirst
  simpa [hword] using hfirst

/-! ## Words and lines -/

theorem Word.location_of_between? {before rest : List Char} {w : Word}
    (h : Word.between? before rest = some w) : w.location = .behind before := by
  rw [between?] at h
  split at h
  next => cases h; rfl
  next => cases h

/-- The words on the last line of a text. -/
theorem filter_wordsBehind_last {before line : List Char} (h : '\n' ∉ line) :
    (wordsBehind before line).filter (·.location.line ≠ (Location.behind before).line) = [] := by
  rw [List.filter_eq_nil_iff]
  intro w hw
  obtain ⟨i, -, hi⟩ := List.mem_filterMap.mp hw
  simp [Word.location_of_between? hi, Location.line_behind_take h]

/-- The words on a line that is not the last one. -/
theorem filter_wordsBehind {before line rest : List Char} (h : '\n' ∉ line) :
    (wordsBehind before (line ++ '\n' :: rest)).filter
        (·.location.line ≠ (Location.behind before).line)
      = wordsBehind (before ++ (line ++ ['\n'])) rest := by
  rw [List.append_cons, wordsBehind_append, List.filter_append, List.filter_eq_nil_iff.mpr,
    List.filter_eq_self.mpr, List.nil_append]
  · intro w hw
    obtain ⟨i, -, hi⟩ := List.mem_filterMap.mp hw
    simp only [Word.location_of_between? hi, Location.line_behind_append, List.count_append,
      List.count_singleton_self, decide_eq_true_eq]
    omega
  · intro w hw
    obtain ⟨i, hmem, hi⟩ := List.mem_filterMap.mp hw
    have hle : i ≤ line.length := by simpa [Nat.lt_succ_iff] using hmem
    rw [List.take_append_of_le_length hle] at hi
    simp [Word.location_of_between? hi, Location.line_behind_take h]

/-! ## Comments -/

/-- The words that are not on the line of `w`. -/
def Word.offLine (w : Word) (ws : List Word) : List Word :=
  ws.filter (·.location.line ≠ w.location.line)

/-- The words behind the first one that ends in a closing parenthesis. -/
def behindComment (ws : List Word) : List Word :=
  (ws.dropWhile (·.text.toList.getLast? ≠ some ')')).drop 1

/-- The words that are not in a comment. A `\` hides the words that follow on its line, and a `(` the
words that follow up to and including the first that ends in a closing parenthesis. -/
def dropComments : List Word → List Word
  | [] => []
  | w :: ws =>
    if w.text = "\\" then dropComments (w.offLine ws)
    else if w.text = "(" then dropComments (behindComment ws)
    else w :: dropComments ws
termination_by ws => ws.length
decreasing_by
  · exact Nat.lt_succ_of_le (List.length_filter_le _ _)
  · rw [behindComment, List.length_drop]
    exact Nat.lt_succ_of_le (Nat.le_trans (Nat.sub_le _ _) (List.dropWhile_sublist _).length_le)
  · exact Nat.lt_succ_self _

/-! ## Cursors -/

namespace Cursor

/-- The words that begin in what a cursor has left, for a cursor that is not inside a word. -/
def Sees (c : Cursor) (words : List Word) : Prop :=
  ∃ before, c.location = .behind before ∧
    (before.getLast?.all isBlank || c.rest.head?.all isBlank) = true ∧
    words = wordsBehind before c.rest

theorem sees_ofText (text : String) : (ofText text).Sees (wordsOf text.toList) :=
  ⟨[], rfl, rfl, rfl⟩

/-- A word is read between white space in front of it and white space or an end behind it. -/
theorem nextWord?_eq_some {c d : Cursor} {w : Word} {hlt : d.rest.length < c.rest.length}
    (h : c.nextWord? = some (w, ⟨d, hlt⟩)) :
    ∃ blanks letters, c.rest = blanks ++ (letters ++ d.rest) ∧
      (∀ x ∈ blanks, isBlank x = true) ∧ letters ≠ [] ∧ (∀ x ∈ letters, isBlank x = false) ∧
      d.rest.head?.all isBlank = true ∧
      w = ⟨String.ofList letters, c.location.advance blanks⟩ ∧
      d.location = (c.location.advance blanks).advance letters := by
  rw [nextWord?] at h
  split at h
  next => cases h
  next x xs hrest =>
    cases h
    have hx := List.head?_dropWhile_not isBlank c.rest
    have hhead := List.head?_dropWhile_not (!isBlank ·) xs
    change c.rest.dropWhile isBlank = x :: xs at hrest
    rw [hrest] at hx
    refine ⟨c.rest.takeWhile isBlank, x :: xs.takeWhile (!isBlank ·), ?_, ?_, ?_, ?_, ?_, rfl, rfl⟩
    · rw [List.cons_append, List.takeWhile_append_dropWhile, ← hrest,
        List.takeWhile_append_dropWhile]
    · exact fun y hy ↦ List.mem_takeWhile_imp hy
    · exact List.cons_ne_nil _ _
    · rw [List.forall_mem_cons]
      exact ⟨by simpa using hx, fun y hy ↦ by simpa using List.mem_takeWhile_imp hy⟩
    · dsimp only
      cases hrest' : xs.dropWhile (!isBlank ·) with
      | nil => rfl
      | cons y ys =>
        rw [hrest'] at hhead
        simpa using hhead

theorem dropWhile_eq_nil_of_nextWord? {c : Cursor} (h : c.nextWord? = none) :
    c.rest.dropWhile isBlank = [] := by
  rw [nextWord?] at h
  split at h
  next hrest => exact hrest
  next => cases h

variable {c : Cursor} {words : List Word}

theorem Sees.eq_nil (hsees : c.Sees words) (h : c.nextWord? = none) : words = [] := by
  obtain ⟨before, -, -, rfl⟩ := hsees
  have hblank := List.dropWhile_eq_nil_iff.mp (dropWhile_eq_nil_of_nextWord? h)
  rw [← List.append_nil c.rest, wordsBehind_blanks hblank]
  rfl

theorem Sees.eq_cons {w : Word} {d : Cursor} {hlt : d.rest.length < c.rest.length}
    (hsees : c.Sees words) (h : c.nextWord? = some (w, ⟨d, hlt⟩)) :
    ∃ rest, words = w :: rest ∧ d.Sees rest ∧ d.location.line = w.location.line := by
  obtain ⟨before, hlocation, hbetween, rfl⟩ := hsees
  obtain ⟨blanks, letters, hrest, hblanks, hne, hletters, hhead, rfl, hd⟩ := nextWord?_eq_some h
  have hbefore : (before ++ blanks).getLast?.all isBlank = true := by
    cases hlast : blanks.getLast? with
    | some x => simpa [List.getLast?_append, hlast] using hblanks x (List.mem_of_getLast? hlast)
    | none =>
      -- the word begins where the cursor stands
      obtain ⟨y, letters, rfl⟩ := List.exists_cons_of_ne_nil hne
      obtain rfl := List.getLast?_eq_none_iff.mp hlast
      simpa [hrest, hletters y] using hbetween
  have hword := wordsBehind_word hbefore hne hletters hhead
  rw [hlocation, Location.advance_behind] at hd ⊢
  refine ⟨_, ?_, ⟨_, by rw [hd, Location.advance_behind], ?_, rfl⟩, ?_⟩
  · rw [hrest, wordsBehind_blanks hblanks, hword]
  · rw [hhead, Bool.or_true]
  · rw [hd, Location.advance_behind, Location.line_behind_append, List.count_eq_zero_of_not_mem,
      Nat.add_zero]
    exact fun hmem ↦ absurd (hletters _ hmem) (by decide)

theorem Sees.skipLine (hsees : c.Sees words) :
    c.skipLine.Sees (words.filter (·.location.line ≠ c.location.line)) := by
  obtain ⟨before, hlocation, -, rfl⟩ := hsees
  have hline : '\n' ∉ c.rest.takeWhile (· ≠ '\n') :=
    fun hmem ↦ by simpa using List.mem_takeWhile_imp hmem
  have hrest := List.takeWhile_append_dropWhile (p := (· ≠ '\n')) (l := c.rest)
  have hhead := List.head?_dropWhile_not (fun x ↦ decide (x ≠ '\n')) c.rest
  rw [hlocation, Cursor.skipLine, Cursor.skipWhile, hlocation, Location.advance_behind]
  generalize c.rest.takeWhile (· ≠ '\n') = line at hline hrest ⊢
  cases hdrop : c.rest.dropWhile (· ≠ '\n') with
  | nil =>
    -- the line ends with the text
    rw [hdrop, List.append_nil] at hrest
    rw [← hrest, filter_wordsBehind_last hline]
    exact ⟨before ++ line, rfl, by simp, rfl⟩
  | cons x rest =>
    rw [hdrop] at hrest hhead
    obtain rfl : x = '\n' := by simpa using hhead
    rw [← hrest, filter_wordsBehind hline]
    have hfeed : isBlank '\n' = true := by decide
    exact ⟨_, by simp [Location.advance_behind], by simp [hfeed], rfl⟩

theorem Sees.skipComment (hsees : c.Sees words) :
    c.skipComment.val.Sees (behindComment words) := by
  fun_induction Cursor.skipComment c generalizing words with
  | case1 c h =>
    obtain rfl := hsees.eq_nil h
    obtain ⟨before, hlocation, -, -⟩ := hsees
    exact ⟨before ++ c.rest, by rw [hlocation, Location.advance_behind], by simp, rfl⟩
  | case2 c w d hlt h hend =>
    obtain ⟨rest, rfl, hd, -⟩ := hsees.eq_cons h
    rw [behindComment, List.dropWhile_cons_of_neg (by simp [hend])]
    exact hd
  | case3 c w d hlt h hend e he hskip ih =>
    obtain ⟨rest, rfl, hd, -⟩ := hsees.eq_cons h
    rw [behindComment, List.dropWhile_cons_of_pos (by simp [hend])]
    have hrest := ih hd
    rwa [hskip] at hrest

end Cursor

/-! ## Tokens -/

theorem Token.scan_eq {c : Cursor} {words : List Word} (h : c.Sees words) :
    Token.scan c = (dropComments words).map Token.ofWord := by
  fun_induction Token.scan c generalizing words with
  | case1 c hnone =>
    obtain rfl := h.eq_nil hnone
    rw [dropComments]
    rfl
  | case2 c w d hlt hsome hw hle ih =>
    obtain ⟨rest, rfl, hd, hline⟩ := h.eq_cons hsome
    -- a word has no line feed in it, so the cursor behind it is still on its line
    have hskip := hd.skipLine
    rw [hline] at hskip
    rw [ih hskip, dropComments, if_pos hw]
    rfl
  | case3 c w d hlt hsome hw hw' hle ih =>
    obtain ⟨rest, rfl, hd, -⟩ := h.eq_cons hsome
    rw [ih hd.skipComment, dropComments, if_neg hw, if_pos hw']
  | case4 c w d hlt hsome hw hw' ih =>
    obtain ⟨rest, rfl, hd, -⟩ := h.eq_cons hsome
    rw [ih hd, dropComments, if_neg hw, if_neg hw']
    rfl

/-- What the text of a word makes of it. -/
inductive TokenKind.Denotes : String → TokenKind → Prop where
  /-- The word that opens a definition. -/
  | definitionStart : Denotes ":" .definitionStart
  /-- The word that closes a definition. -/
  | definitionEnd : Denotes ";" .definitionEnd
  /-- A decimal numeral stands for its value. -/
  | number {text n} (h : Numeral.Writes text.toList n) : Denotes text (.number n.value)
  /-- Everything else is a name. -/
  | name {text} (hstart : text ≠ ":") (hend : text ≠ ";")
      (hnumeral : ∀ n, ¬Numeral.Writes text.toList n) : Denotes text .name

/-- The markers are no numerals. -/
theorem Numeral.Writes.ne_marker {text : String} {n : Numeral} (h : Writes text.toList n) :
    text ≠ ":" ∧ text ≠ ";" := by
  rw [← parse?_eq_some_iff] at h
  constructor <;> rintro rfl <;> cases h

/-- The text of a word makes one thing of it. -/
theorem Token.classify_eq_iff {text : String} {kind : TokenKind} :
    classify text = kind ↔ kind.Denotes text := by
  constructor
  · rintro rfl
    rw [classify]
    by_cases hstart : text = ":"
    · rw [if_pos hstart, hstart]
      exact .definitionStart
    by_cases hend : text = ";"
    · rw [if_neg hstart, if_pos hend, hend]
      exact .definitionEnd
    rw [if_neg hstart, if_neg hend, Numeral.read?]
    cases hparse : Numeral.parse? text with
    | some n => exact .number (Numeral.parse?_eq_some_iff.mp hparse)
    | none =>
      refine .name hstart hend fun n hn ↦ ?_
      rw [← Numeral.parse?_eq_some_iff, hparse] at hn
      cases hn
  · intro h
    rw [classify]
    cases h with
    | definitionStart => rfl
    | definitionEnd => rfl
    | number h =>
      rw [if_neg h.ne_marker.1, if_neg h.ne_marker.2, Numeral.read?,
        Numeral.parse?_eq_some_iff.mpr h]
      rfl
    | name hstart hend hnumeral =>
      have hnone : Numeral.parse? text = none :=
        Option.eq_none_iff_forall_ne_some.mpr fun n hn ↦
          hnumeral n (Numeral.parse?_eq_some_iff.mp hn)
      rw [if_neg hstart, if_neg hend, Numeral.read?, hnone]
      rfl

/-- The token that a word is. -/
structure Token.Of (w : Word) (t : Token) : Prop where
  text : t.text = w.text
  location : t.location = w.location
  kind : t.kind.Denotes w.text

theorem Token.of_iff {w : Word} {t : Token} : Token.Of w t ↔ Token.ofWord w = t := by
  constructor
  · rintro ⟨htext, hlocation, hkind⟩
    rw [ofWord, classify_eq_iff.mpr hkind, ← htext, ← hlocation]
  · rintro rfl
    exact ⟨rfl, rfl, classify_eq_iff.mp rfl⟩

/-- **The tokens of a text.** They are the words of the text that are not in a comment, one token
for each word, with the text of the word and the line and column of its first character. -/
theorem tokenize_eq_iff (source : String) (tokens : List Token) :
    tokenize source = tokens ↔
      List.Forall₂ Token.Of (dropComments (wordsOf source.toList)) tokens := by
  have hof : Token.Of = fun w t ↦ Token.ofWord w = t :=
    funext fun w ↦ funext fun t ↦ propext Token.of_iff
  rw [tokenize, Token.scan_eq (Cursor.sees_ofText source), hof, ← List.forall₂_map_left_iff,
    List.forall₂_eq_eq_eq]

example : dropComments (wordsOf "a ( b c) \\ d\n e".toList) = [⟨"a", ⟨1, 1⟩⟩, ⟨"e", ⟨2, 2⟩⟩] := by
  cbv

end StackSynth
