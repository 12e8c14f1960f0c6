import StackSynth.Proofs.Language.Labels

/-!
# Compiling in pieces

A program may be compiled in one go or cut where no definition is open and compiled piece by piece,
each against a dictionary with the definitions of the pieces before it. Nothing tells the two apart
(`compileTokens_append`): a definition that is staged binds names, takes its label and counts its
depth as one that was committed earlier does.

## The invariant

Behind the cut there are two builds. One has read everything, the other only what comes after the
cut, against a larger dictionary (`Continues`). They resolve every name alike and hand out the same
labels, though one looks in its staged definitions where the other looks in its dictionary. Their
tables differ, for only one of them has seen the bodies before the cut; as both are exact, the
depths they give are the same.
-/

namespace StackSynth

variable {σ : Type}

/-- The build `b` has read what made `c` and goes on as `b'` does, which began behind it. -/
structure Continues (c : Compiled σ) (b b' : Build σ) : Prop where
  resolve_eq : ∀ name, b.resolve name = b'.resolve name
  nextLabel_eq : b.nextLabel = b'.nextLabel
  frames_eq : b.frames = b'.frames
  marker_eq : b.marker = b'.marker
  program_eq : b.program.toList = c.program ++ b'.program.toList
  definitions_eq : b.definitions.toList = c.definitions ++ b'.definitions.toList
  labelled : b.Labelled
  labelled' : b'.Labelled

/-- Two results are the same error, or builds of which one goes on as the other does. -/
inductive ResultsContinue (c : Compiled σ) :
    Except CompileError (Build σ) → Except CompileError (Build σ) → Prop where
  | ok {b b' : Build σ} (h : Continues c b b') : ResultsContinue c (.ok b) (.ok b')
  | error (e : CompileError) : ResultsContinue c (.error e) (.error e)

namespace Continues

variable {c : Compiled σ} {b b' : Build σ}

/-- At the cut, the definitions of the build are those that its dictionary got. -/
theorem start {d : Dictionary σ} (hd : d.Labelled) {tokens : List Token} {b : Build σ}
    (hread : (Build.start d).read tokens = .ok b) (hm : b.marker = none) (hf : b.frames = []) :
    Continues ⟨b.program.toList, b.definitions.toList⟩ b
      (Build.start (d.commit ⟨b.program.toList, b.definitions.toList⟩)) where
  resolve_eq name := by
    rw [Build.resolve_start, Dictionary.lookup_commit, Build.lookup_defineAll_of_read hread]
  nextLabel_eq := by
    rw [Build.nextLabel, Build.read_dictionary hread]
    rfl
  frames_eq := hf
  marker_eq := hm
  program_eq := (List.append_nil _).symm
  definitions_eq := (List.append_nil _).symm
  labelled := Build.labelled_of_read hd hread
  labelled' := Build.labelled_start
    (hd.commit (compileTokens_eq_ok_iff.mpr ⟨b, hread, hm, hf, rfl⟩))

theorem emit (h : Continues c b b') {i : Instruction σ} (hi : (b.emit i).Labelled)
    (hi' : (b'.emit i).Labelled) : Continues c (b.emit i) (b'.emit i) where
  resolve_eq name := by rw [Build.resolve_emit, Build.resolve_emit, h.resolve_eq]
  nextLabel_eq := by rw [Build.nextLabel_emit, Build.nextLabel_emit, h.nextLabel_eq]
  frames_eq := by
    have hf := h.frames_eq
    cases hf' : b'.frames with
    | nil =>
      rw [hf'] at hf
      rw [Build.emit_of_outside i hf', Build.emit_of_outside i hf]
      exact h.frames_eq
    | cons frame outer =>
      rw [hf'] at hf
      rw [Build.emit_of_inside i hf', Build.emit_of_inside i hf]
  marker_eq := by rw [Build.emit_marker, Build.emit_marker, h.marker_eq]
  program_eq := by
    have hf := h.frames_eq
    cases hf' : b'.frames with
    | nil =>
      rw [hf'] at hf
      rw [Build.emit_of_outside i hf', Build.emit_of_outside i hf, Array.toList_push,
        Array.toList_push, h.program_eq, List.append_assoc]
    | cons frame outer =>
      rw [hf'] at hf
      rw [Build.emit_of_inside i hf', Build.emit_of_inside i hf]
      exact h.program_eq
  definitions_eq := by rw [Build.emit_definitions, Build.emit_definitions, h.definitions_eq]
  labelled := hi
  labelled' := hi'

theorem closed (h : Continues c b b') {frame : OpenDefinition σ}
    {outer : List (OpenDefinition σ)} (hf : b'.frames = frame :: outer) :
    Continues c (b.closed frame outer) (b'.closed frame outer) where
  resolve_eq name := by
    rw [Build.resolve_closed, Build.resolve_closed, h.resolve_eq, h.nextLabel_eq]
  nextLabel_eq := by rw [Build.nextLabel_closed, Build.nextLabel_closed, h.nextLabel_eq]
  frames_eq := rfl
  marker_eq := h.marker_eq
  program_eq := h.program_eq
  definitions_eq := by
    rw [Build.closed, Build.closed, Array.toList_push, Array.toList_push, h.definitions_eq,
      h.nextLabel_eq, List.append_assoc]
  labelled := h.labelled.closed (h.frames_eq.trans hf)
  labelled' := h.labelled'.closed hf

/-- Both builds take a token for the name of a definition, or refuse it. -/
theorem stepName (h : Continues c b b') {location : Location} (hm : b'.marker = some location)
    (t : Token) : ResultsContinue c (b.stepName t) (b'.stepName t) := by
  have hmarker := h.marker_eq.trans hm
  cases hk : t.kind with
  | name =>
    have hmove := Build.Move.title hmarker hk
    have hmove' := Build.Move.title hm hk
    rw [Build.stepName, Build.stepName, hk]
    exact .ok ⟨h.resolve_eq, h.nextLabel_eq, congrArg (⟨t, #[]⟩ :: ·) h.frames_eq, rfl,
      h.program_eq, h.definitions_eq, h.labelled.move hmove, h.labelled'.move hmove'⟩
  | number _ | definitionStart | definitionEnd =>
    rw [Build.stepName, Build.stepName, hk]
    exact .error _

/-- Both builds close a definition, or refuse to for one reason: both tables give the call depth of
its body. -/
theorem step_end (h : Continues c b b') (hm : b'.marker = none) {t : Token}
    (hk : t.kind = .definitionEnd) : ResultsContinue c (b.step t) (b'.step t) := by
  have hmarker := h.marker_eq.trans hm
  have hframes := h.frames_eq
  cases hf : b'.frames with
  | nil =>
    rw [hf] at hframes
    rw [Build.step_end_of_outside hmarker hk hframes, Build.step_end_of_outside hm hk hf]
    exact .error _
  | cons frame outer =>
    rw [hf] at hframes
    have hmem : frame ∈ frame :: outer := List.mem_cons_self
    rw [Build.step_end_of_inside hmarker hk hframes, Build.step_end_of_inside hm hk hf,
      h.labelled.measureAll_eq (hframes ▸ hmem), h.labelled'.measureAll_eq (hf ▸ hmem)]
    split
    next => exact .error _
    next => exact .ok (h.closed hf)

/-- One token keeps the builds together, or is refused by both for one reason. -/
theorem step (h : Continues c b b') (t : Token) : ResultsContinue c (b.step t) (b'.step t) := by
  have hmarker := h.marker_eq
  cases hm : b'.marker with
  | some location =>
    rw [Build.step_of_marker (hmarker.trans hm), Build.step_of_marker hm]
    exact h.stepName hm t
  | none =>
    rw [hm] at hmarker
    cases hk : t.kind with
    | number value =>
      have hmove := Build.Move.number hmarker hk
      have hmove' := Build.Move.number hm hk
      rw [hmove.step_eq, hmove'.step_eq]
      exact .ok (h.emit (h.labelled.move hmove) (h.labelled'.move hmove'))
    | name =>
      have hr := h.resolve_eq t.text
      cases hr' : b'.resolve t.text with
      | none =>
        rw [hr'] at hr
        rw [Build.step_name_of_none hmarker hk hr, Build.step_name_of_none hm hk hr']
        exact .error _
      | some op =>
        rw [hr'] at hr
        have hmove := Build.Move.name hmarker hk hr
        have hmove' := Build.Move.name hm hk hr'
        rw [hmove.step_eq, hmove'.step_eq]
        exact .ok (h.emit (h.labelled.move hmove) (h.labelled'.move hmove'))
    | definitionStart =>
      have hmove := Build.Move.start hmarker hk
      have hmove' := Build.Move.start hm hk
      rw [hmove.step_eq, hmove'.step_eq]
      exact .ok ⟨h.resolve_eq, h.nextLabel_eq, h.frames_eq, rfl, h.program_eq, h.definitions_eq,
        h.labelled.move hmove, h.labelled'.move hmove'⟩
    | definitionEnd => exact h.step_end hm hk

/-- What two builds make of the same tokens stays together. -/
theorem read (h : Continues c b b') (tokens : List Token) :
    ResultsContinue c (b.read tokens) (b'.read tokens) := by
  induction tokens generalizing b b' with
  | nil => exact .ok h
  | cons t tokens ih =>
    rw [Build.read_cons, Build.read_cons]
    generalize hx : b.step t = x
    generalize hy : b'.step t = y
    have hstep := h.step t
    rw [hx, hy] at hstep
    cases hstep with
    | ok h' => exact ih h'
    | error e => exact .error e

theorem finish_eq_error_iff (h : Continues c b b') {e : CompileError} :
    b.finish = .error e ↔ b'.finish = .error e := by
  rw [Build.finish, Build.finish, h.marker_eq, h.frames_eq]
  split
  next => exact Iff.rfl
  next => exact Iff.rfl
  next => exact ⟨fun he ↦ (by cases he), fun he ↦ (by cases he)⟩

theorem finish_eq_ok (h : Continues c b b') {c' : Compiled σ} (hc' : b'.finish = .ok c') :
    b.finish = .ok ⟨c.program ++ c'.program, c.definitions ++ c'.definitions⟩ := by
  obtain ⟨hm, hf, rfl⟩ := Build.finish_eq_ok_iff.mp hc'
  exact Build.finish_eq_ok_iff.mpr ⟨h.marker_eq.trans hm, h.frames_eq.trans hf, by
    rw [h.program_eq, h.definitions_eq]⟩

end Continues

/-- **Compiling in one go is compiling in pieces.** Where the first piece compiles, the whole fails
as the second piece does against the dictionary with the definitions of the first; and if that
compiles too, the whole is one piece after the other. -/
theorem compileTokens_append {d : Dictionary σ} (hd : d.Labelled) {p : List Token}
    {c : Compiled σ} (hp : compileTokens d p = .ok c) (q : List Token) :
    (∀ e, compileTokens d (p ++ q) = .error e ↔ compileTokens (d.commit c) q = .error e) ∧
      ∀ c', compileTokens (d.commit c) q = .ok c' →
        compileTokens d (p ++ q)
          = .ok ⟨c.program ++ c'.program, c.definitions ++ c'.definitions⟩ := by
  obtain ⟨b, hread, hm, hf, rfl⟩ := compileTokens_eq_ok_iff.mp hp
  have hwhole : compileTokens d (p ++ q) = b.read q >>= Build.finish := by
    rw [Build.compileTokens_eq, Build.read_append, hread]
    rfl
  have hq := (Continues.start hd hread hm hf).read q
  rw [hwhole, Build.compileTokens_eq]
  generalize b.read q = x at hq ⊢
  generalize (Build.start _).read q = y at hq ⊢
  cases hq with
  | error e => exact ⟨fun _ ↦ Iff.rfl, fun c' hc' ↦ by cases hc'⟩
  | ok h => exact ⟨fun _ ↦ h.finish_eq_error_iff, fun c' hc' ↦ h.finish_eq_ok hc'⟩

/-- A word of the first piece is called by the second, which takes the name over. -/
theorem compileTokens_append_redefinition :
    (Dictionary.empty : Dictionary Unit).Labelled ∧
      compileTokens (Dictionary.empty : Dictionary Unit)
          (tokenize ": w ; w" ++ tokenize ": w w ; w")
        = .ok ⟨[.call "w" 0 []] ++ [.call "w" 1 [.call "w" 0 []]],
          [("w", .word 0 [])] ++ [("w", .word 1 [.call "w" 0 []])]⟩ := by
  refine ⟨Dictionary.labelled_empty, ?_⟩
  have hp : compileTokens (Dictionary.empty : Dictionary Unit) (tokenize ": w ; w")
      = .ok ⟨[.call "w" 0 []], [("w", .word 0 [])]⟩ := by cbv
  have hq : compileTokens (Dictionary.empty.commit ⟨[.call "w" 0 []], [("w", .word 0 [])]⟩)
      (tokenize ": w w ; w") = .ok (⟨[.call "w" 1 [.call "w" 0 []]],
        [("w", .word 1 [.call "w" 0 []])]⟩ : Compiled Unit) := by cbv
  exact (compileTokens_append Dictionary.labelled_empty hp _).2 _ hq

end StackSynth
