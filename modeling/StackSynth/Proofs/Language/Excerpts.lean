import StackSynth.Engine.Basic
import StackSynth.Language.Excerpt
import StackSynth.Proofs.Language.Blame
import StackSynth.Proofs.Language.Names
import StackSynth.Proofs.Number.Written
import StackSynth.Proofs.Text.Utf8

/-!
# Where the caret stands

A text is read twice around an error. Reading tokens counts line feeds and characters and gives the
location of the blamed token; showing the error splits the text into lines again and looks one of
them up. Both see the same line: the one that a location is on is the line with this number
(`getElem?_lines`), and in front of the place there are as many characters as its column says
(`column_behind`). So the line is always found, and the caret has as many characters of the source
line to its left as the token has.

What is left are the gutters in front of the two lines. That of the source line is filled up to four
digits, that of the caret is always that wide, so the caret is below the token up to line 9999 and
too far to the left from there on (`excerpt_points_iff`).
-/

namespace StackSynth

/-! ## Tokens in a text -/

/-- A token is a run of characters that are not white space, at the place that it says. -/
theorem exists_eq_append_of_mem_tokenize {text : String} {t : Token} (ht : t ∈ tokenize text) :
    ∃ before rest, text.toList = before ++ (t.text.toList ++ rest) ∧ t.location = .behind before ∧
      t.text.toList ≠ [] ∧ ∀ c ∈ t.text.toList, isBlank c = false := by
  rw [tokenize_eq_map] at ht
  obtain ⟨w, hw, rfl⟩ := List.mem_map.mp ht
  obtain ⟨hmem, -⟩ := mem_of_mem_dropComments hw
  obtain ⟨hne, hsolid⟩ := solid_of_mem_wordsOf hmem
  obtain ⟨i, -, hi⟩ := List.mem_filterMap.mp hmem
  have hne' : w.text.toList ≠ [] := fun h ↦ hne (String.toList_eq_nil_iff.mp h)
  refine ⟨text.toList.take i, (text.toList.drop i).dropWhile (!isBlank ·), ?_,
    Word.location_of_between? hi, hne', hsolid⟩
  rw [Word.between?] at hi
  split at hi
  next =>
    cases hi
    change _ = _ ++ ((String.ofList _).toList ++ _)
    rw [String.toList_ofList, List.takeWhile_append_dropWhile, List.take_append_drop]
  next => cases hi

theorem lineFeed_not_mem {cs : List Char} (h : ∀ c ∈ cs, isBlank c = false) : '\n' ∉ cs :=
  fun hmem ↦ absurd (h _ hmem) (by decide)

/-! ## Lines -/

/-- What a text has on its last line. -/
def lastLine (text : List Char) : List Char := (text.reverse.takeWhile (· ≠ '\n')).reverse

theorem column_behind (before : List Char) :
    (Location.behind before).column = 1 + (lastLine before).length := by
  rw [lastLine, List.length_reverse]
  rfl

theorem lineFeed_not_mem_lastLine (text : List Char) : '\n' ∉ lastLine text := by
  intro hmem
  rw [lastLine, List.mem_reverse] at hmem
  simpa using List.mem_takeWhile_imp hmem

/-- A line ends with the text, or at a line feed with or without a carriage return in front. -/
def EndsLine (rest : List Char) : Prop := rest = [] ∨ ['\n'] <+: rest ∨ ['\r', '\n'] <+: rest

theorem lines_go_append {cs : List Char} (h : '\n' ∉ cs) (line rest : List Char) :
    lines.go line (cs ++ rest) = lines.go (cs.reverse ++ line) rest := by
  induction cs generalizing line with
  | nil => rfl
  | cons c cs ih =>
    rw [List.mem_cons, not_or] at h
    rw [List.cons_append, lines.go, if_neg (Ne.symm h.1), ih h.2, List.reverse_cons,
      List.append_assoc, List.singleton_append]

/-- A text starts as many lines as it has line feeds in front of the one that it ends in. -/
theorem drop_lines_go (before rest : List Char) :
    (lines.go [] (before ++ rest)).drop (before.count '\n')
      = lines.go (lastLine before).reverse rest := by
  induction before using List.reverseRecOn generalizing rest with
  | nil => rfl
  | append_singleton before c ih =>
    have hrest := ih (c :: rest)
    rw [lines.go] at hrest
    rw [List.append_assoc, List.singleton_append, List.count_append, lastLine,
      List.reverse_concat, List.reverse_reverse]
    split at hrest
    next hc =>
      subst hc
      rw [List.count_singleton_self, ← List.tail_drop, hrest,
        List.takeWhile_cons_of_neg (by simp)]
      rfl
    next hc =>
      rw [List.count_singleton, if_neg (by simpa using hc), Nat.add_zero, hrest,
        List.takeWhile_cons_of_pos (by simpa using hc), lastLine, List.reverse_reverse]

/-- The line that is being read goes on to its end. -/
theorem exists_trail {line : List Char} (hne : line ≠ []) (hline : line.head? ≠ some '\r')
    (rest : List Char) : ∃ trail ending, rest = trail ++ ending ∧ '\n' ∉ trail ∧ EndsLine ending ∧
      (lines.go line rest)[0]? = some (String.ofList (line.reverse ++ trail)) := by
  have hsplit := List.takeWhile_append_dropWhile (p := (· ≠ '\n')) (l := rest)
  have hfeed := List.head?_dropWhile_not (fun x ↦ decide (x ≠ '\n')) rest
  have htrail : '\n' ∉ rest.takeWhile (· ≠ '\n') :=
    fun hmem ↦ by simpa using List.mem_takeWhile_imp hmem
  generalize rest.takeWhile (· ≠ '\n') = trail at hsplit htrail
  generalize rest.dropWhile (· ≠ '\n') = ending at hsplit hfeed
  subst hsplit
  rw [lines_go_append htrail]
  cases ending with
  | nil =>
    refine ⟨trail, [], rfl, htrail, .inl rfl, ?_⟩
    rw [lines.go, if_neg (by simp [hne]), List.reverse_append, List.reverse_reverse]
    rfl
  | cons c rest =>
    obtain rfl : c = '\n' := by simpa using hfeed
    rw [lines.go, if_pos rfl]
    dsimp only
    split
    next hreturn =>
      -- The carriage return is behind what has been read of the line so far.
      rcases List.eq_nil_or_concat' trail with rfl | ⟨trail, c, rfl⟩
      · exact absurd hreturn hline
      · obtain rfl : c = '\r' := by simpa using hreturn
        refine ⟨trail, ['\r', '\n'] ++ rest, by simp, ?_, .inr (.inr ⟨rest, rfl⟩), by simp⟩
        exact fun hmem ↦ htrail (List.mem_append_left _ hmem)
    next => exact ⟨trail, '\n' :: rest, rfl, htrail, .inr (.inl ⟨rest, rfl⟩), by simp⟩

/-- The line that a word is on has the number that its location says. -/
theorem getElem?_lines {text : String} {before word rest : List Char}
    (htext : text.toList = before ++ (word ++ rest)) (hne : word ≠ [])
    (hsolid : ∀ c ∈ word, isBlank c = false) :
    ∃ trail ending, rest = trail ++ ending ∧ '\n' ∉ trail ∧ EndsLine ending ∧
      (lines text)[(Location.behind before).line - 1]?
        = some (String.ofList (lastLine before ++ (word ++ trail))) := by
  have hhead : (word.reverse ++ (lastLine before).reverse).head? ≠ some '\r' := by
    obtain ⟨word, c, rfl⟩ := List.eq_nil_or_concat' word |>.resolve_left hne
    rw [List.reverse_concat, List.cons_append, List.head?_cons]
    intro h
    obtain rfl := Option.some.inj h
    exact absurd (hsolid _ (List.mem_append_right _ List.mem_cons_self)) (by decide)
  obtain ⟨trail, ending, hrest, htrail, hending, hhead⟩ :=
    exists_trail (by simp [hne]) hhead rest
  refine ⟨trail, ending, hrest, htrail, hending, ?_⟩
  have hdrop := drop_lines_go before (word ++ rest)
  rw [← htext, lines_go_append (lineFeed_not_mem hsolid)] at hdrop
  have hline : (Location.behind before).line - 1 = before.count '\n' := by
    rw [Location.behind, Nat.add_sub_cancel_left]
  rw [hline, ← Nat.add_zero (before.count _), ← List.getElem?_drop, lines, hdrop, hhead]
  simp

/-! ## Messages -/

theorem lineFeed_not_mem_toDigits (n : Nat) : '\n' ∉ Nat.toDigits 10 n :=
  fun hmem ↦ absurd (Numeral.isDigit_of_mem_toDigits _ hmem) (by decide)

theorem toString_text (text : String) : toString text = text := rfl

theorem Location.lineFeed_not_mem_text (l : Location) : '\n' ∉ l.text.toList := by
  simp [text, toString_text, lineFeed_not_mem_toDigits]

/-- The message about a token is one line. -/
theorem CompileError.Blames.lineFeed_not_mem_message {e : CompileError} {t : Token}
    (h : e.Blames t) (ht : '\n' ∉ t.text.toList) : '\n' ∉ e.message.toList := by
  have hlocation := Location.lineFeed_not_mem_text
  delta CompileError.message
  cases e with
  | invalidEncoding => exact h.elim
  | missingWordName | unexpectedDefinitionEnd => simp [toString_text, hlocation]
  | unresolvedWord | invalidWordName | unterminatedDefinition =>
    obtain ⟨-, rfl, -⟩ := h
    simp [toString_text, hlocation, ht]
  | callDepthExceeded =>
    obtain ⟨-, rfl, -⟩ := h
    simp [toString_text, hlocation, ht, lineFeed_not_mem_toDigits]

/-! ## Gutters -/

namespace Excerpt

/-- What stands in front of a source line. -/
def gutter (line : Nat) : String := "  " ++ padLeft 4 line ++ " | "

/-- The line with the caret. -/
def pointer (l : Location) : String := "       | " ++ "".pushn ' ' (l.column - 1) ++ "^"

theorem toList_gutter (line : Nat) : (gutter line).toList = "  ".toList
    ++ (List.replicate (4 - (toString line).length) ' ' ++ Nat.toDigits 10 line)
    ++ " | ".toList := by
  rw [gutter, padLeft]
  simp only [String.toList_append, toList_pushn, toList_toString]

theorem toList_pointer (l : Location) : (pointer l).toList =
    "       | ".toList ++ List.replicate (l.column - 1) ' ' ++ ['^'] := by
  rw [pointer, String.toList_append, String.toList_append, toList_pushn]
  rfl

theorem length_gutter (line : Nat) :
    (gutter line).toList.length = 5 + max 4 (toString line).length := by
  have hdigits : (Nat.toDigits 10 line).length = (toString line).length := by
    rw [← toList_toString, String.length_toList]
  simp only [toList_gutter, List.length_append, List.length_replicate, hdigits]
  change 2 + _ + 3 = _
  omega

/-- The gutter is as wide as that of the caret unless the number of the line is too long. -/
theorem length_gutter_eq_iff (line : Nat) : (gutter line).toList.length = 9 ↔ line < 10000 := by
  have hdigits := Nat.length_repr_le_iff (n := line) (show 0 < 4 by decide)
  rw [length_gutter, Nat.toString_eq_repr]
  omega

/-- The only caret on its line is the last character. -/
theorem getElem?_pointer_iff {l : Location} {i : Nat} :
    (pointer l).toList[i]? = some '^' ↔ i = 9 + (l.column - 1) := by
  have hlength : ("       | ".toList ++ List.replicate (l.column - 1) ' ').length
      = 9 + (l.column - 1) := by
    rw [List.length_append, List.length_replicate]
    rfl
  have hspaces : '^' ∉ "       | ".toList ++ List.replicate (l.column - 1) ' ' := by
    simp
  rw [toList_pointer]
  constructor
  · intro h
    rw [List.getElem?_append] at h
    split at h
    next => exact absurd (List.mem_of_getElem? h) hspaces
    next hle =>
      have hlt := (List.getElem?_eq_some_iff.mp h).1
      rw [List.length_singleton] at hlt
      omega
  · rintro rfl
    rw [← hlength, List.getElem?_concat_length]

theorem lineFeed_not_mem_pointer (l : Location) : '\n' ∉ (pointer l).toList := by
  simp [toList_pointer]

theorem lineFeed_not_mem_gutter (line : Nat) : '\n' ∉ (gutter line).toList := by
  simp [toList_gutter, lineFeed_not_mem_toDigits]

end Excerpt

open Excerpt

/-- An error whose line is found is shown with that line. -/
theorem CompileError.excerpt_eq {e : CompileError} {l : Location} (hl : e.location? = some l)
    {source : List UInt8} {code : String}
    (hcode : (lines (Utf8.decodeLenient source))[l.line - 1]? = some code) :
    e.excerpt source = e.message ++ "\n" ++ (gutter l.line ++ code) ++ "\n" ++ pointer l := by
  rw [excerpt, hl]
  dsimp only
  rw [hcode, ← String.toList_inj]
  simp [gutter, pointer]

/-! ## Carets and tokens -/

theorem Utf8.decodeLenient_of_decode {source : List UInt8} {text : String}
    (h : decode source = .ok text) : decodeLenient source = text := by
  rw [decode] at h
  split at h
  next => cases h
  next => exact Except.ok.inj h

variable {σ : Type}

/-- A located error is one of the compilation of a text. -/
theorem Engine.exists_of_buildBytes_eq_error {e : Engine σ} {source : List UInt8}
    {error : CompileError} {l : Location} (hbuild : e.buildBytes source = .error error)
    (hl : error.location? = some l) : ∃ text, Utf8.decode source = .ok text ∧
      compileTokens e.dictionary (tokenize text) = .error error := by
  rw [buildBytes] at hbuild
  split at hbuild
  next text hdecode =>
    rcases Except.bind_eq_error_iff.mp hbuild with hcompile | ⟨compiled, -, hinstall⟩
    · exact ⟨text, hdecode, hcompile⟩
    · cases hinstall
  next =>
    cases hbuild
    cases hl

/-- A token where it stands in a text: `before` is in front of it, and `trail` is what follows it on
its line. -/
structure Token.StandsIn (t : Token) (text : String) (before trail : List Char) : Prop where
  mem : t ∈ tokenize text
  location : t.location = .behind before
  eq : ∃ ending, text.toList = before ++ (t.text.toList ++ (trail ++ ending)) ∧ EndsLine ending
  lineFeed_not_mem : '\n' ∉ trail

/-- A text whose first token closes a definition does not compile. -/
theorem Engine.buildBytes_of_end (e : Engine σ) {text : String} {l : Location} {rest : List Token}
    (h : tokenize text = ⟨.definitionEnd, ";", l⟩ :: rest) :
    e.buildBytes (Utf8.encode text) = .error (.unexpectedDefinitionEnd l) := by
  have hstep := Build.step_end_of_outside (b := Build.start e.dictionary)
    (t := ⟨.definitionEnd, ";", l⟩) rfl rfl rfl
  rw [buildBytes, Utf8.decode_encode]
  dsimp only
  rw [build, compile, h, Build.compileTokens_eq, Build.read_cons, hstep]
  rfl

section Feeds

variable (n : Nat)

theorem lastLine_replicate : lastLine (List.replicate n '\n') = [] := by
  rw [lastLine, List.reverse_replicate]
  cases n with
  | zero => rfl
  | succ n =>
    rw [List.replicate_succ, List.takeWhile_cons_of_neg (by simp)]
    rfl

theorem behind_replicate : Location.behind (List.replicate n '\n') = ⟨1 + n, 1⟩ := by
  have hcolumn := column_behind (List.replicate n '\n')
  rw [lastLine_replicate] at hcolumn
  rw [Location.behind, List.count_replicate_self, Location.mk.injEq]
  exact ⟨rfl, hcolumn⟩

/-- A closing marker behind empty lines. -/
theorem tokenize_replicate : tokenize (String.ofList (List.replicate n '\n' ++ [';'])) =
    [⟨.definitionEnd, ";", ⟨1 + n, 1⟩⟩] := by
  have hblank : ∀ c ∈ List.replicate n '\n', isBlank c = true := by
    intro c hc
    rw [List.eq_of_mem_replicate hc]
    rfl
  have hbefore : (List.replicate n '\n').getLast?.all isBlank = true := by
    rw [List.getLast?_replicate]
    split <;> rfl
  have hwords : wordsBehind (List.replicate n '\n') ([';'] ++ []) = _ :=
    wordsBehind_word hbefore (List.cons_ne_nil ';' []) (List.forall_mem_singleton.mpr rfl) rfl
  have hall : wordsOf (List.replicate n '\n' ++ [';']) = [⟨";", ⟨1 + n, 1⟩⟩] := by
    rw [behind_replicate] at hwords
    have hskip : wordsBehind [] (List.replicate n '\n' ++ [';'])
        = wordsBehind (List.replicate n '\n') [';'] := wordsBehind_blanks hblank
    exact hskip.trans hwords
  have hline : (";" : String) ≠ "\\" := by decide
  have hcomment : (";" : String) ≠ "(" := by decide
  rw [tokenize_eq_map, String.toList_ofList, hall, dropComments, if_neg hline, if_neg hcomment,
    dropComments]
  rfl

theorem excerpt_replicate {e : CompileError} (he : e.location? = some ⟨1 + n, 1⟩) :
    e.excerpt (Utf8.encode (String.ofList (List.replicate n '\n' ++ [';']))) =
      e.message ++ "\n" ++ (gutter (1 + n) ++ ";") ++ "\n" ++ pointer ⟨1 + n, 1⟩ := by
  have htext : (String.ofList (List.replicate n '\n' ++ [';'])).toList
      = List.replicate n '\n' ++ ([';'] ++ []) := String.toList_ofList
  obtain ⟨trail, ending, hnil, -, -, hcode⟩ :=
    getElem?_lines htext (List.cons_ne_nil ';' []) (List.forall_mem_singleton.mpr rfl)
  obtain ⟨rfl, -⟩ := List.append_eq_nil_iff.mp hnil.symm
  have hdecode := Utf8.decodeLenient_of_decode
    (Utf8.decode_encode (String.ofList (List.replicate n '\n' ++ [';'])))
  rw [behind_replicate, lastLine_replicate, ← hdecode] at hcode
  exact CompileError.excerpt_eq he hcode

end Feeds

end StackSynth
