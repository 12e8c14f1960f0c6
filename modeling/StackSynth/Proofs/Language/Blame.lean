import StackSynth.Proofs.Language.Moves

/-!
# Which token an error points at

Every error that has a location gives the place of a token of the program, and where it quotes a
text, the text of this token (`CompileError.Blames`). Most errors blame the token that is refused.
The others blame one that was read before, which the build remembers: an open definition holds the
token that names it (`Build.titles_of_read`), and a waiting marker its own place
(`Build.read_of_marker`). That gives the blamed token of any program that does not compile
(`exists_blames_of_compileTokens`).
-/

namespace StackSynth

variable {σ : Type}

/-- The token that an error points at. -/
def CompileError.Blames : CompileError → Token → Prop
  | .unresolvedWord name l, t => t.kind = .name ∧ t.text = name ∧ t.location = l
  | .missingWordName l, t => t.kind = .definitionStart ∧ t.location = l
  | .invalidWordName text l, t => t.kind ≠ .name ∧ t.text = text ∧ t.location = l
  | .unexpectedDefinitionEnd l, t => t.kind = .definitionEnd ∧ t.location = l
  | .unterminatedDefinition name l, t => t.kind = .name ∧ t.text = name ∧ t.location = l
  | .callDepthExceeded name _ l, t => t.kind = .name ∧ t.text = name ∧ t.location = l
  | .invalidEncoding _, _ => False

theorem CompileError.Blames.location?_eq {e : CompileError} {t : Token} (h : e.Blames t) :
    e.location? = some t.location := by
  cases e with
  | unresolvedWord | invalidWordName | unterminatedDefinition | callDepthExceeded =>
    exact congrArg some h.2.2.symm
  | missingWordName | unexpectedDefinitionEnd => exact congrArg some h.2.symm
  | invalidEncoding => exact h.elim

namespace Build

/-! ## Open definitions -/

/-- The tokens that name the open definitions. -/
def titles (b : Build σ) : List Token := b.frames.map OpenDefinition.name

theorem titles_emit (b : Build σ) (i : Instruction σ) : (b.emit i).titles = b.titles := by
  rw [titles, titles, emit]
  split
  next => rfl
  next heq => rw [heq]; rfl

/-- The open definitions are named by tokens that were read. -/
theorem titles_of_read {d : Dictionary σ} {tokens : List Token} {b : Build σ}
    (h : (start d).read tokens = .ok b) : ∀ t ∈ b.titles, t ∈ tokens ∧ t.kind = .name := by
  refine read_induction (motive := fun seen b ↦ ∀ t ∈ b.titles, t ∈ seen ∧ t.kind = .name)
    (fun _ ht ↦ absurd ht List.not_mem_nil) ?_ h
  intro seen t b b' _ ih hmove
  have hseen : ∀ t' ∈ b.titles, t' ∈ seen ++ [t] ∧ t'.kind = .name :=
    fun t' ht' ↦ ⟨List.mem_append_left _ (ih t' ht').1, (ih t' ht').2⟩
  cases hmove with
  | number | name => rwa [titles_emit]
  | start => exact hseen
  | title _ hk =>
    exact List.forall_mem_cons.mpr ⟨⟨List.mem_append_right _ List.mem_cons_self, hk⟩, hseen⟩
  | close _ _ hf =>
    rw [titles, hf] at hseen
    exact (List.forall_mem_cons.mp hseen).2

/-! ## Refusals -/

/-- A token is refused for its own sake, or for the definition that it closes. -/
theorem blames_of_step {b : Build σ} (hb : ∀ t ∈ b.titles, t.kind = .name) {t : Token}
    {e : CompileError} (h : b.step t = .error e) : e.Blames t ∨ ∃ t' ∈ b.titles, e.Blames t' := by
  cases hm : b.marker with
  | some location =>
    rw [step_of_marker hm, stepName] at h
    cases hk : t.kind with
    | name => rw [hk] at h; cases h
    | number _ | definitionStart | definitionEnd =>
      rw [hk] at h
      cases h
      exact .inl ⟨by rw [hk]; exact TokenKind.noConfusion, rfl, rfl⟩
  | none =>
    cases hk : t.kind with
    | number value => rw [step_number hm hk] at h; cases h
    | definitionStart => rw [step_start hm hk] at h; cases h
    | name =>
      cases hr : b.resolve t.text with
      | some op => rw [step_name_of_some hm hk hr] at h; cases h
      | none =>
        rw [step_name_of_none hm hk hr] at h
        cases h
        exact .inl ⟨hk, rfl, rfl⟩
    | definitionEnd =>
      cases hf : b.frames with
      | nil =>
        rw [step_end_of_outside hm hk hf] at h
        cases h
        exact .inl ⟨hk, rfl⟩
      | cons frame outer =>
        rw [step_end_of_inside hm hk hf] at h
        split at h
        next =>
          cases h
          have hmem : frame.name ∈ b.titles := by
            rw [titles, hf]
            exact List.mem_cons_self
          exact .inr ⟨frame.name, hmem, hb _ hmem, rfl, rfl⟩
        next => cases h

/-- The end is refused for a marker or for a definition that is still open. -/
theorem exists_blames_of_finish {d : Dictionary σ} {tokens : List Token} {b : Build σ}
    {e : CompileError} (h : (start d).read tokens = .ok b) (he : b.finish = .error e) :
    ∃ t ∈ tokens, e.Blames t := by
  rw [finish] at he
  cases hm : b.marker with
  | some location =>
    obtain ⟨seen, m, b', rfl, hk, -, -, rfl⟩ := read_of_marker rfl h hm
    cases he
    exact ⟨m, List.mem_append_right _ List.mem_cons_self, hk, rfl⟩
  | none =>
    cases hf : b.frames with
    | nil => rw [hm, hf] at he; cases he
    | cons frame outer =>
      rw [hm, hf] at he
      cases he
      have hmem : frame.name ∈ b.titles := by
        rw [titles, hf]
        exact List.mem_cons_self
      obtain ⟨ht, hk⟩ := titles_of_read h frame.name hmem
      exact ⟨frame.name, ht, hk, rfl, rfl⟩

end Build

/-- What does not compile does so because of one of its tokens. -/
theorem exists_blames_of_compileTokens {d : Dictionary σ} {tokens : List Token} {e : CompileError}
    (h : compileTokens d tokens = .error e) : ∃ t ∈ tokens, e.Blames t := by
  rw [Build.compileTokens_eq, Except.bind_eq_error_iff, Build.read_eq_error_iff] at h
  rcases h with ⟨seen, t, rest, b, rfl, hread, hstep⟩ | ⟨b, hread, hfinish⟩
  · have htitles := Build.titles_of_read hread
    rcases Build.blames_of_step (fun t' ht' ↦ (htitles t' ht').2) hstep with ht | ⟨t', ht', he⟩
    · exact ⟨t, List.mem_append_right _ List.mem_cons_self, ht⟩
    · exact ⟨t', List.mem_append_left _ (htitles t' ht').1, he⟩
  · exact Build.exists_blames_of_finish hread hfinish

end StackSynth
