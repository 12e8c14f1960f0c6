import StackSynth.Proofs.Language.Moves
import StackSynth.Proofs.Language.Words

/-!
# Texts that are names

A text that is used as a program on its own invokes what it is the name of only if it reads as that
one name: it is one word, the word opens no comment, and it is neither a marker nor a numeral
(`IsName`). Such a text compiles to the one step that its entry in the dictionary makes of it
(`compile_of_isName`). Every other text compiles to no step that invokes a native under that text
(`isName_of_native_mem`), because steps get their names from tokens, and the tokens of a program
that are names are names in this sense.
-/

namespace StackSynth

/-- A text that reads as one name. -/
structure IsName (text : String) : Prop where
  ne_empty : text ≠ ""
  /-- There is no white space in it. -/
  solid : ∀ c ∈ text.toList, isBlank c = false
  /-- It opens no comment. -/
  no_comment : text ≠ "\\" ∧ text ≠ "("
  /-- It is no marker and no numeral. -/
  denotes : TokenKind.name.Denotes text

theorem isName_iff {text : String} :
    IsName text ↔ text ≠ "" ∧ text.toList.all (!isBlank ·) = true ∧
      (text ≠ "\\" ∧ text ≠ "(") ∧ text ≠ ":" ∧ text ≠ ";" ∧ Numeral.parse? text = none := by
  have hsolid_iff : text.toList.all (!isBlank ·) = true ↔ ∀ c ∈ text.toList, isBlank c = false := by
    simp
  have hnumeral : (∀ n, ¬Numeral.Writes text.toList n) ↔ Numeral.parse? text = none := by
    simp only [← Numeral.parse?_eq_some_iff, Option.eq_none_iff_forall_ne_some, ne_eq]
  rw [hsolid_iff]
  constructor
  · rintro ⟨hne, hsolid, hcomment, ⟨⟩⟩
    next hstart hend hn => exact ⟨hne, hsolid, hcomment, hstart, hend, hnumeral.mp hn⟩
  · rintro ⟨hne, hsolid, hcomment, hstart, hend, hn⟩
    exact ⟨hne, hsolid, hcomment, .name hstart hend (hnumeral.mpr hn)⟩

instance (text : String) : Decidable (IsName text) := decidable_of_iff _ isName_iff.symm

/-! ## Reading a name -/

theorem tokenize_eq_map (source : String) :
    tokenize source = (dropComments (wordsOf source.toList)).map Token.ofWord :=
  Token.scan_eq (Cursor.sees_ofText source)

/-- A text without white space is one word. -/
theorem wordsOf_of_solid {text : String} (hne : text ≠ "")
    (hsolid : ∀ c ∈ text.toList, isBlank c = false) :
    wordsOf text.toList = [⟨text, .start⟩] := by
  have hne' : text.toList ≠ [] := fun h ↦ hne (String.toList_eq_nil_iff.mp h)
  have hword : wordsBehind [] (text.toList ++ []) = ⟨String.ofList text.toList, .start⟩ :: _ :=
    wordsBehind_word rfl hne' hsolid rfl
  rw [List.append_nil, String.ofList_toList] at hword
  exact hword

/-- A name is its only token. -/
theorem tokenize_of_isName {text : String} (h : IsName text) :
    tokenize text = [⟨.name, text, .start⟩] := by
  rw [tokenize_eq_map, wordsOf_of_solid h.ne_empty h.solid, dropComments, if_neg h.no_comment.1,
    if_neg h.no_comment.2, dropComments, List.map_singleton, Token.ofWord,
    Token.classify_eq_iff.mpr h.denotes]

/-- There is no white space in a word, and it is not empty. -/
theorem solid_of_mem_wordsOf {text : List Char} {w : Word} (h : w ∈ wordsOf text) :
    w.text ≠ "" ∧ ∀ c ∈ w.text.toList, isBlank c = false := by
  obtain ⟨i, -, hi⟩ := List.mem_filterMap.mp h
  rw [Word.between?] at hi
  split at hi
  next hif =>
    cases hi
    obtain ⟨-, hhead⟩ := Bool.and_eq_true_iff.mp hif
    obtain ⟨c, hc, hsolid⟩ := (Option.any_eq_true _ _).mp hhead
    obtain ⟨rest, hrest⟩ := List.head?_eq_some_iff.mp hc
    constructor
    · rw [hrest]
      simp [hsolid]
    · intro x hx
      rw [String.toList_ofList] at hx
      simpa using List.mem_takeWhile_imp hx
  next => cases hi

/-- What is left opens no comment. -/
theorem mem_of_mem_dropComments {words : List Word} {w : Word} (h : w ∈ dropComments words) :
    w ∈ words ∧ w.text ≠ "\\" ∧ w.text ≠ "(" := by
  fun_induction dropComments words with
  | case1 => cases h
  | case2 v vs hv ih =>
    obtain ⟨hmem, hcomment⟩ := ih h
    exact ⟨List.mem_cons_of_mem _ (List.mem_of_mem_filter hmem), hcomment⟩
  | case3 v vs hv hv' ih =>
    obtain ⟨hmem, hcomment⟩ := ih h
    exact ⟨List.mem_cons_of_mem _
      ((List.dropWhile_sublist _).subset (List.mem_of_mem_drop hmem)), hcomment⟩
  | case4 v vs hv hv' ih =>
    rcases List.mem_cons.mp h with rfl | hmem
    · exact ⟨List.mem_cons_self, hv, hv'⟩
    · obtain ⟨hmem, hcomment⟩ := ih hmem
      exact ⟨List.mem_cons_of_mem _ hmem, hcomment⟩

/-- The tokens of a program that are names are names as texts. -/
theorem isName_of_mem_tokenize {source : String} {t : Token} (ht : t ∈ tokenize source)
    (hk : t.kind = .name) : IsName t.text := by
  rw [tokenize_eq_map] at ht
  obtain ⟨w, hw, rfl⟩ := List.mem_map.mp ht
  obtain ⟨hmem, hcomment⟩ := mem_of_mem_dropComments hw
  obtain ⟨hne, hsolid⟩ := solid_of_mem_wordsOf hmem
  exact ⟨hne, hsolid, hcomment, Token.classify_eq_iff.mp hk⟩

/-! ## Compiling a name -/

variable {σ : Type}

/-- A name compiles to the step that its entry makes of it. -/
theorem compile_of_isName {name : String} (h : IsName name) {d : Dictionary σ} {op : Operation σ}
    (hop : d.lookup name = some op) :
    compile d name = .ok ⟨[op.compiled name], []⟩ := by
  have hresolve : (Build.start d).resolve name = some op := by rw [Build.resolve_start, hop]
  have hstep := Build.step_name_of_some (t := ⟨.name, name, .start⟩) rfl rfl hresolve
  rw [compile, tokenize_of_isName h, Build.compileTokens_eq, Build.read_cons, hstep,
    Build.emit_of_outside _ rfl]
  rfl

theorem Build.mem_program_emit {b : Build σ} {i j : Instruction σ}
    (h : j ∈ (b.emit i).program.toList) : j ∈ b.program.toList ∨ j = i := by
  rw [emit] at h
  split at h
  next => simpa using h
  next => exact Or.inl h

/-- A step that invokes a native has its name from a token. -/
theorem Build.exists_token_of_native {d : Dictionary σ} {tokens : List Token} {b : Build σ}
    (h : (Build.start d).read tokens = .ok b) {name : String} {act : Native σ}
    (hmem : .native name act ∈ b.program.toList) :
    ∃ t ∈ tokens, t.kind = .name ∧ t.text = name := by
  revert hmem
  refine read_induction (motive := fun seen b ↦ .native name act ∈ b.program.toList →
    ∃ t ∈ seen, t.kind = .name ∧ t.text = name) (by simp [start]) ?_ h
  intro seen t b b' _ ih hmove hmem
  have hseen : .native name act ∈ b.program.toList →
      ∃ t' ∈ seen ++ [t], t'.kind = .name ∧ t'.text = name := by
    intro hb
    obtain ⟨t', ht', hname⟩ := ih hb
    exact ⟨t', List.mem_append_left _ ht', hname⟩
  cases hmove with
  | number =>
    rcases mem_program_emit hmem with hb | heq
    · exact hseen hb
    · cases heq
  | @name op _ hk _ =>
    rcases mem_program_emit hmem with hb | heq
    · exact hseen hb
    · have hname : t.text = name := by
        cases op <;> cases heq
        rfl
      exact ⟨t, List.mem_append_right _ List.mem_cons_self, hk, hname⟩
  | start | title | close => exact hseen hmem

/-- Only a name compiles to a step that invokes a native under that name. -/
theorem isName_of_native_mem {d : Dictionary σ} {name : String} {c : Compiled σ} {act : Native σ}
    (hc : compile d name = .ok c) (hmem : .native name act ∈ c.program) :
    IsName name := by
  obtain ⟨b, hread, -, -, rfl⟩ := compileTokens_eq_ok_iff.mp hc
  obtain ⟨t, ht, hk, rfl⟩ := Build.exists_token_of_native hread hmem
  exact isName_of_mem_tokenize ht hk

end StackSynth
