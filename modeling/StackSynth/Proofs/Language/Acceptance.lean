import StackSynth.Proofs.Language.Outline

/-!
# Which programs compile

A program compiles when every marker that opens a definition has a name behind it, every marker that
closes one finds one open, none is left open, every other name means something where it stands, and
no definition nests calls too deeply (`Accepted`). What compiles is spelled by the tokens
(`Lists`, `Spells`), and what does not is refused for the first offence in it: `Offence` lists what
can be wrong with a token behind tokens in which nothing is wrong, or with the end behind all of
them, together with the error that says so.

## Decisions

Tokens without an offence are exactly those that a build reads (`clean_iff`). The depth that decides
whether a definition closes comes from a table under labels, so everything here is about
dictionaries in which a label stands for one body; all dictionaries are of this kind that come from
the empty one by definitions and by programs that compiled (`Dictionary.labelled_empty`,
`Dictionary.Labelled.define`, `Dictionary.Labelled.commit`).
-/

namespace StackSynth

variable {σ : Type}

/-! ## Offences -/

/-- The last token is a marker that waits for the name of its definition. -/
def AwaitsName (seen : List Token) : Prop :=
  ∃ before m, seen = before ++ [m] ∧ m.kind = .definitionStart

/-- After `seen` a name means something. -/
def Bound (d : Dictionary σ) (seen : List Token) (name : String) : Prop :=
  Defined seen name ∨ ∃ op, d.lookup name = some op

/-- What is wrong with the next token, or with the end, behind the tokens `seen`. -/
inductive Offence (d : Dictionary σ) (seen : List Token) : Option Token → CompileError → Prop where
  /-- A numeral or a marker stands where a definition has its name. -/
  | invalidName {t : Token} (h : AwaitsName seen) (hk : t.kind ≠ .name) :
      Offence d seen (some t) (.invalidWordName t.text t.location)
  /-- A name means nothing. -/
  | unresolved {t : Token} (h : ¬AwaitsName seen) (hk : t.kind = .name)
      (hb : ¬Bound d seen t.text) :
      Offence d seen (some t) (.unresolvedWord t.text t.location)
  /-- There is nothing to close. -/
  | unexpectedEnd {t : Token} (h : ¬AwaitsName seen) (hk : t.kind = .definitionEnd)
      (ho : ∀ o : DefinitionSite, ¬o.IsInnermost seen) :
      Offence d seen (some t) (.unexpectedDefinitionEnd t.location)
  /-- The definition that closes nests calls too deeply. -/
  | tooDeep {t : Token} {o : DefinitionSite} (hk : t.kind = .definitionEnd)
      (ho : o.IsInnermost seen) (hd : ¬o.DepthAtMost d maxCallDepth) :
      Offence d seen (some t)
        (.callDepthExceeded o.name.text maxCallDepth o.name.location)
  /-- A marker is the last token. -/
  | missingName {before : List Token} {m : Token} (h : seen = before ++ [m])
      (hk : m.kind = .definitionStart) : Offence d seen none (.missingWordName m.location)
  /-- A definition is still open. -/
  | unterminated {o : DefinitionSite} (ho : o.IsInnermost seen) :
      Offence d seen none (.unterminatedDefinition o.name.text o.name.location)

/-- Where no name is due, numerals and markers that open definitions are always right. -/
theorem Offence.kind_eq {d : Dictionary σ} {seen : List Token} {t : Token} {e : CompileError}
    (h : Offence d seen (some t) e) (hw : ¬AwaitsName seen) :
    t.kind = .name ∨ t.kind = .definitionEnd := by
  cases h with
  | invalidName hw' => exact absurd hw' hw
  | unresolved _ hk => exact Or.inl hk
  | unexpectedEnd _ hk | tooDeep hk => exact Or.inr hk

/-- No token offends. -/
def Clean (d : Dictionary σ) (tokens : List Token) : Prop :=
  ∀ seen t rest, tokens = seen ++ t :: rest → ∀ e, ¬Offence d seen (some t) e

theorem clean_nil {d : Dictionary σ} : Clean d [] := by
  intro seen t rest h
  exact absurd h (nil_ne_append_cons seen t rest)

theorem clean_concat_iff {d : Dictionary σ} {seen : List Token} {t : Token} :
    Clean d (seen ++ [t]) ↔ Clean d seen ∧ ∀ e, ¬Offence d seen (some t) e := by
  constructor
  · intro h
    refine ⟨fun p t' rest heq ↦ h p t' (rest ++ [t]) ?_, h seen t [] rfl⟩
    rw [heq, List.append_assoc, List.cons_append]
  · rintro ⟨h, ht⟩ p t' rest heq
    rcases concat_eq_append_cons_iff.mp heq with ⟨rfl, rfl, -⟩ | ⟨rest, rfl, -⟩
    · exact ht
    · exact h p t' rest rfl

/-! ## Offences are refused -/

section Refusal

variable {d : Dictionary σ} {seen : List Token} {b : Build σ}

theorem not_awaitsName (h : (Build.start d).read seen = .ok b) (hm : b.marker = none) :
    ¬AwaitsName seen := by
  rintro ⟨before, m, rfl, hk⟩
  obtain ⟨b', -, hstep⟩ := Build.read_concat_eq_ok_iff.mp h
  cases Build.move_of_step hstep with
  | number _ hk' | name _ hk' | title _ hk' | close _ hk' => rw [hk] at hk'; cases hk'
  | start => cases hm

/-- A build waits for a name behind a marker. -/
theorem awaitsName_iff (h : (Build.start d).read seen = .ok b) :
    AwaitsName seen ↔ ∃ location, b.marker = some location := by
  cases hm : b.marker with
  | none =>
    refine ⟨fun hw ↦ absurd hw (not_awaitsName h hm), ?_⟩
    rintro ⟨location, hl⟩
    cases hl
  | some location =>
    obtain ⟨before, m, b', rfl, hk, -⟩ := Build.read_of_marker rfl h hm
    exact ⟨fun _ ↦ ⟨location, rfl⟩, fun _ ↦ ⟨before, m, rfl, hk⟩⟩

theorem DefinitionSite.IsInnermost.not_awaitsName {o : DefinitionSite} (h : o.IsInnermost seen) :
    ¬AwaitsName seen := by
  rintro ⟨before, m, rfl, hk⟩
  exact h.getLast_not_start hk

/-- Behind a marker, anything but a name is refused. -/
theorem step_waiting_eq_error_iff (h : (Build.start d).read seen = .ok b) {location : Location}
    (hm : b.marker = some location) {t : Token} {e : CompileError} :
    b.step t = .error e ↔ Offence d seen (some t) e := by
  have hw := (awaitsName_iff h).mpr ⟨location, hm⟩
  rw [Build.step_of_marker hm, Build.stepName]
  constructor
  · intro he
    cases hk : t.kind with
    | name => rw [hk] at he; cases he
    | number _ | definitionStart | definitionEnd =>
      rw [hk] at he
      cases he
      exact .invalidName hw (by rw [hk]; exact TokenKind.noConfusion)
  · intro he
    cases he with
    | invalidName _ hk =>
      cases hk' : t.kind with
      | name => exact absurd hk' hk
      | number _ | definitionStart | definitionEnd => rfl
    | unresolved hw' | unexpectedEnd hw' => exact absurd hw hw'
    | tooDeep _ ho => exact absurd hw ho.not_awaitsName

/-- Elsewhere, a name is refused when it means nothing. -/
theorem step_name_eq_error_iff (h : (Build.start d).read seen = .ok b) (hm : b.marker = none)
    {t : Token} (hk : t.kind = .name) {e : CompileError} :
    b.step t = .error e ↔ Offence d seen (some t) e := by
  have hw := not_awaitsName h hm
  have hbound : b.resolve t.text = none ↔ ¬Bound d seen t.text := by
    rw [(Follows.of_read h hm).resolve_eq_none_iff, Bound, not_or, ← Option.isSome_iff_exists,
      Option.not_isSome_iff_eq_none]
  constructor
  · intro he
    cases hr : b.resolve t.text with
    | some op => rw [Build.step_name_of_some hm hk hr] at he; cases he
    | none =>
      rw [Build.step_name_of_none hm hk hr] at he
      cases he
      exact .unresolved hw hk (hbound.mp hr)
  · intro he
    cases he with
    | invalidName hw' => exact absurd hw' hw
    | unresolved _ _ hb => exact Build.step_name_of_none hm hk (hbound.mpr hb)
    | unexpectedEnd _ hk' | tooDeep hk' => rw [hk] at hk'; cases hk'

/-- A closing marker is refused when nothing is open, or when what is open nests calls too
deeply. -/
theorem step_end_eq_error_iff (hd : d.Labelled) (h : (Build.start d).read seen = .ok b)
    (hm : b.marker = none) {t : Token} (hk : t.kind = .definitionEnd) {e : CompileError} :
    b.step t = .error e ↔ Offence d seen (some t) e := by
  have hw := not_awaitsName h hm
  have hlevels := (Follows.of_read h hm).levels
  cases hf : b.frames with
  | nil =>
    rw [hf] at hlevels
    rw [Build.step_end_of_outside hm hk hf]
    constructor
    · intro he
      cases he
      exact .unexpectedEnd hw hk hlevels.not_isInnermost
    · intro he
      cases he with
      | invalidName hw' => exact absurd hw' hw
      | unresolved _ hk' => rw [hk] at hk'; cases hk'
      | unexpectedEnd => rfl
      | tooDeep _ ho => exact absurd ho (hlevels.not_isInnermost _)
  | cons frame outer =>
    rw [hf] at hlevels
    obtain ⟨o, ho, hname, hbody⟩ := hlevels.exists_isInnermost
    have hmem : frame ∈ b.frames := by
      rw [hf]
      exact List.mem_cons_self
    -- the table decides as the tokens do
    have hdeep : maxCallDepth < Program.callDepth frame.body.toList + 1 ↔
        ¬o.DepthAtMost d maxCallDepth := by
      rw [← hbody.depthAtMost_iff, Nat.not_le]
    rw [Build.step_end_of_inside hm hk hf, (Build.labelled_of_read hd h).measureAll_eq hmem,
      ← hname]
    constructor
    · intro he
      split at he
      next hlt =>
        cases he
        exact .tooDeep hk ho (hdeep.mp hlt)
      next => cases he
    · intro he
      cases he with
      | invalidName hw' => exact absurd hw' hw
      | unresolved _ hk' => rw [hk] at hk'; cases hk'
      | unexpectedEnd _ _ hnone => exact absurd ho (hnone o)
      | tooDeep _ ho' hd' =>
        obtain rfl := ho'.unique ho
        rw [if_pos (hdeep.mpr hd')]

/-- A token is refused for what is wrong with it. -/
theorem step_eq_error_iff (hd : d.Labelled) (h : (Build.start d).read seen = .ok b) {t : Token}
    {e : CompileError} : b.step t = .error e ↔ Offence d seen (some t) e := by
  cases hm : b.marker with
  | some location => exact step_waiting_eq_error_iff h hm
  | none =>
    have hw := not_awaitsName h hm
    cases hk : t.kind with
    | name => exact step_name_eq_error_iff h hm hk
    | definitionEnd => exact step_end_eq_error_iff hd h hm hk
    | number value =>
      rw [Build.step_number hm hk]
      constructor
      · intro he; cases he
      · intro he
        rcases he.kind_eq hw with hk' | hk' <;> rw [hk] at hk' <;> cases hk'
    | definitionStart =>
      rw [Build.step_start hm hk]
      constructor
      · intro he; cases he
      · intro he
        rcases he.kind_eq hw with hk' | hk' <;> rw [hk] at hk' <;> cases hk'

/-- The end is refused for what is wrong with it. -/
theorem finish_eq_error_iff (h : (Build.start d).read seen = .ok b) {e : CompileError} :
    b.finish = .error e ↔ Offence d seen none e := by
  rw [Build.finish]
  cases hm : b.marker with
  | some location =>
    obtain ⟨before, m, b', rfl, hk, -, -, rfl⟩ := Build.read_of_marker rfl h hm
    cases hm
    constructor
    · intro he
      cases he
      exact .missingName rfl hk
    · intro he
      cases he with
      | missingName happ =>
        obtain ⟨-, hmm⟩ := List.append_inj' happ rfl
        rw [List.singleton_inj.mp hmm]
      | unterminated ho => exact absurd hk ho.getLast_not_start
  | none =>
    have hlevels := (Follows.of_read h hm).levels
    cases hf : b.frames with
    | nil =>
      rw [hf] at hlevels
      constructor
      · intro he; cases he
      · intro he
        cases he with
        | missingName happ hk => exact absurd ⟨_, _, happ, hk⟩ (not_awaitsName h hm)
        | unterminated ho => exact absurd ho (hlevels.not_isInnermost _)
    | cons frame outer =>
      rw [hf] at hlevels
      obtain ⟨o, ho, hname, -⟩ := hlevels.exists_isInnermost
      constructor
      · intro he
        cases he
        rw [← hname]
        exact .unterminated ho
      · intro he
        cases he with
        | missingName happ hk => exact absurd ⟨_, _, happ, hk⟩ (not_awaitsName h hm)
        | unterminated ho' => rw [ho'.unique ho, hname]

end Refusal

/-! ## Acceptance -/

/-- A build reads exactly the tokens in which nothing is wrong. -/
theorem clean_iff {d : Dictionary σ} (hd : d.Labelled) {tokens : List Token} :
    Clean d tokens ↔ ∃ b, (Build.start d).read tokens = .ok b := by
  induction tokens using List.reverseRecOn with
  | nil => exact ⟨fun _ ↦ ⟨_, Build.read_nil _⟩, fun _ ↦ clean_nil⟩
  | append_singleton seen t ih =>
    rw [clean_concat_iff, ih]
    simp only [Build.read_concat_eq_ok_iff]
    constructor
    · rintro ⟨⟨b, hb⟩, ht⟩
      cases hstep : b.step t with
      | ok b' => exact ⟨b', b, hb, hstep⟩
      | error e => exact absurd ((step_eq_error_iff hd hb).mp hstep) (ht e)
    · rintro ⟨b', b, hb, hstep⟩
      refine ⟨⟨b, hb⟩, fun e he ↦ ?_⟩
      rw [(step_eq_error_iff hd hb).mpr he] at hstep
      cases hstep

/-- An error is the one for the first offence. -/
theorem compileTokens_eq_error_iff {d : Dictionary σ} (hd : d.Labelled) {tokens : List Token}
    {e : CompileError} :
    compileTokens d tokens = .error e ↔
      ∃ seen rest, tokens = seen ++ rest ∧ Clean d seen ∧ Offence d seen rest.head? e := by
  rw [Build.compileTokens_eq, Except.bind_eq_error_iff, Build.read_eq_error_iff]
  constructor
  · rintro (⟨seen, t, rest, b, rfl, hread, hstep⟩ | ⟨b, hread, hfinish⟩)
    · exact ⟨seen, t :: rest, rfl, (clean_iff hd).mpr ⟨b, hread⟩,
        (step_eq_error_iff hd hread).mp hstep⟩
    · exact ⟨tokens, [], (List.append_nil tokens).symm, (clean_iff hd).mpr ⟨b, hread⟩,
        (finish_eq_error_iff hread).mp hfinish⟩
  · rintro ⟨seen, rest, rfl, hclean, he⟩
    obtain ⟨b, hread⟩ := (clean_iff hd).mp hclean
    cases rest with
    | nil =>
      rw [List.append_nil]
      exact Or.inr ⟨b, hread, (finish_eq_error_iff hread).mpr he⟩
    | cons t rest =>
      exact Or.inl ⟨seen, t, rest, b, rfl, hread, (step_eq_error_iff hd hread).mpr he⟩

/-- The programs that compile. -/
structure Accepted (d : Dictionary σ) (tokens : List Token) : Prop where
  /-- A name is behind every marker that opens a definition. -/
  named : ∀ seen m rest, tokens = seen ++ m :: rest → m.kind = .definitionStart →
    ∃ t rest', rest = t :: rest' ∧ t.kind = .name
  /-- A definition is open at every marker that closes one. -/
  opened : ∀ seen t rest, tokens = seen ++ t :: rest → t.kind = .definitionEnd →
    ∃ o : DefinitionSite, o.IsInnermost seen
  /-- None is open at the end. -/
  closed : ∀ o : DefinitionSite, ¬o.IsInnermost tokens
  /-- Every other name means something where it stands. -/
  bound : ∀ seen t rest, tokens = seen ++ t :: rest → t.kind = .name → ¬AwaitsName seen →
    Bound d seen t.text
  /-- No definition nests calls too deeply. -/
  shallow : ∀ (o : DefinitionSite) upTo, o.ClosedAt tokens upTo → o.DepthAtMost d maxCallDepth

/-- What is not accepted has an offence in it, or one at its end. -/
theorem accepted_iff {d : Dictionary σ} {tokens : List Token} :
    Accepted d tokens ↔ Clean d tokens ∧ ∀ e, ¬Offence d tokens none e := by
  constructor
  · intro h
    refine ⟨fun seen t rest heq e he ↦ ?_, fun e he ↦ ?_⟩
    · cases he with
      | invalidName hw hk =>
        obtain ⟨before, m, rfl, hm⟩ := hw
        rw [List.append_assoc] at heq
        obtain ⟨t', rest', hrest, hk'⟩ := h.named before m (t :: rest) heq hm
        cases hrest
        exact hk hk'
      | unresolved hw hk hb => exact hb (h.bound seen t rest heq hk hw)
      | unexpectedEnd _ hk ho =>
        obtain ⟨o, ho'⟩ := h.opened seen t rest heq hk
        exact ho o ho'
      | tooDeep hk ho hdeep => exact hdeep (h.shallow _ seen ⟨ho, t, rest, heq, hk⟩)
    · cases he with
      | missingName heq hm =>
        obtain ⟨t, rest, hrest, -⟩ := h.named _ _ [] heq hm
        cases hrest
      | unterminated ho => exact h.closed _ ho
  · rintro ⟨hclean, hend⟩
    refine ⟨fun seen m rest heq hm ↦ ?_, fun seen t rest heq hk ↦ ?_, fun o ho ↦ ?_,
      fun seen t rest heq hk hw ↦ ?_, fun o upTo hclosed ↦ ?_⟩
    · cases rest with
      | nil => exact absurd (.missingName heq hm) (hend _)
      | cons t rest =>
        refine ⟨t, rest, rfl, ?_⟩
        by_contra hk
        rw [List.append_cons] at heq
        exact hclean (seen ++ [m]) t rest heq _ (.invalidName ⟨seen, m, rfl, hm⟩ hk)
    · by_contra hnone
      by_cases hw : AwaitsName seen
      · have hk' : t.kind ≠ .name := by rw [hk]; exact TokenKind.noConfusion
        exact hclean seen t rest heq _ (.invalidName hw hk')
      · exact hclean seen t rest heq _ (.unexpectedEnd hw hk (not_exists.mp hnone))
    · exact hend _ (.unterminated ho)
    · by_contra hb
      exact hclean seen t rest heq _ (.unresolved hw hk hb)
    · obtain ⟨ho, t, rest, heq, hk⟩ := hclosed
      by_contra hdeep
      exact hclean upTo t rest heq _ (.tooDeep hk ho hdeep)

/-- **Compiling accepts exactly the language and blames the first offence.** A program that compiles
has one step for every numeral or name outside all definitions, and its definitions are those of
the tokens. -/
theorem compileTokens_decides {d : Dictionary σ} (hd : d.Labelled) (tokens : List Token) :
    ((∃ c, compileTokens d tokens = .ok c) ↔ Accepted d tokens) ∧
      (∀ c, compileTokens d tokens = .ok c →
        List.Forall₂ Spells (direct tokens) c.program ∧ Lists tokens c.definitions) ∧
      ∀ e, compileTokens d tokens = .error e ↔
        ∃ seen rest, tokens = seen ++ rest ∧ Clean d seen ∧ Offence d seen rest.head? e := by
  refine ⟨?_, fun c h ↦ ?_, fun e ↦ compileTokens_eq_error_iff hd⟩
  · rw [accepted_iff]
    constructor
    · rintro ⟨c, h⟩
      obtain ⟨b, hread, -⟩ := compileTokens_eq_ok_iff.mp h
      refine ⟨(clean_iff hd).mpr ⟨b, hread⟩, fun e he ↦ ?_⟩
      rw [Build.compileTokens_eq, hread] at h
      change b.finish = .ok c at h
      rw [(finish_eq_error_iff hread).mpr he] at h
      cases h
    · rintro ⟨hclean, hend⟩
      obtain ⟨b, hread⟩ := (clean_iff hd).mp hclean
      rw [Build.compileTokens_eq, hread]
      cases hfinish : b.finish with
      | ok c => exact ⟨c, hfinish⟩
      | error e => exact absurd ((finish_eq_error_iff hread).mp hfinish) (hend e)
  · obtain ⟨b, hread, hm, hf, rfl⟩ := compileTokens_eq_ok_iff.mp h
    have hfollows := Follows.of_read hread hm
    have hlevels := hfollows.levels
    rw [hf] at hlevels
    cases hlevels with
    | outside hsegment => exact ⟨hsegment.spelled, hfollows.lists⟩

/-- A definition is not bound inside itself. -/
theorem compileTokens_decides_recursive :
    (Dictionary.empty : Dictionary Unit).Labelled ∧
      ∃ seen rest, tokenize ": x x ;" = seen ++ rest ∧
        Clean (Dictionary.empty : Dictionary Unit) seen ∧
        Offence (Dictionary.empty : Dictionary Unit) seen rest.head?
          (.unresolvedWord "x" ⟨1, 5⟩) := by
  refine ⟨Dictionary.labelled_empty, ?_⟩
  have h : compileTokens (Dictionary.empty : Dictionary Unit) (tokenize ": x x ;")
      = .error (.unresolvedWord "x" ⟨1, 5⟩) := by cbv
  exact ((compileTokens_decides Dictionary.labelled_empty _).2.2 _).mp h

end StackSynth
