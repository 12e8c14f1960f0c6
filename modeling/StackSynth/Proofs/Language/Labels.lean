import Mathlib.Logic.Function.Basic
import StackSynth.Proofs.Language.CallDepth
import StackSynth.Proofs.Language.Moves

/-!
# Labels are handed out once

A label stands for the place where a body is kept. A dictionary is labelled when no two of the
bodies that can be reached from it share a label and all its labels have been handed out. This is
what a dictionary gets by being made from the empty one: natives and constants bring no labels
(`Dictionary.Labelled.define`), and a program that compiles brings new ones
(`Dictionary.Labelled.commit`).

A build against a labelled dictionary stays labelled and its table exact, so the depth that decides
whether a definition closes is the call depth of its body (`Build.Labelled.measureAll_eq`).
-/

namespace StackSynth

variable {σ : Type}

/-! ## What holds of all steps -/

/-- What the names of a dictionary compile to satisfies `P`. -/
def Dictionary.All (P : Instruction σ → Prop) (d : Dictionary σ) : Prop :=
  ∀ name op, d.lookup name = some op → P (op.compiled name)

namespace Build

/-- What the names of a build compile to satisfies `P`, and so do the steps compiled so far. -/
structure All (P : Instruction σ → Prop) (b : Build σ) : Prop where
  names : ∀ name op, b.resolve name = some op → P (op.compiled name)
  frames : ∀ frame ∈ b.frames, ∀ i ∈ frame.body.toList, P i
  program : ∀ i ∈ b.program.toList, P i

namespace All

variable {P Q : Instruction σ → Prop} {b : Build σ}

theorem start {d : Dictionary σ} (h : d.All P) : (Build.start d).All P where
  names name op hop := h name op (by rwa [resolve_start] at hop)
  frames := by simp [Build.start]
  program := by simp [Build.start]

theorem imp (h : b.All P) (hPQ : ∀ i, P i → Q i) : b.All Q where
  names name op hop := hPQ _ (h.names name op hop)
  frames frame hframe i hi := hPQ i (h.frames frame hframe i hi)
  program i hi := hPQ i (h.program i hi)

theorem marker (h : b.All P) (location : Option Location) :
    All P { b with marker := location } :=
  ⟨h.names, h.frames, h.program⟩

theorem title (h : b.All P) (t : Token) :
    All P { b with marker := none, frames := ⟨t, #[]⟩ :: b.frames } where
  names := h.names
  frames := by
    rw [List.forall_mem_cons]
    exact ⟨by simp, h.frames⟩
  program := h.program

theorem emit (h : b.All P) {i : Instruction σ} (hi : P i) : (b.emit i).All P where
  names name op hop := h.names name op (by rwa [resolve_emit] at hop)
  frames := by
    cases hf : b.frames with
    | nil =>
      rw [emit_of_outside i hf, hf]
      simp
    | cons frame outer =>
      rw [emit_of_inside i hf]
      have hframes := h.frames
      rw [hf, List.forall_mem_cons] at hframes
      rw [List.forall_mem_cons, Array.toList_push, List.forall_mem_append,
        List.forall_mem_singleton]
      exact ⟨⟨hframes.1, hi⟩, hframes.2⟩
  program := by
    cases hf : b.frames with
    | nil =>
      rw [emit_of_outside i hf, Array.toList_push, List.forall_mem_append,
        List.forall_mem_singleton]
      exact ⟨h.program, hi⟩
    | cons frame outer =>
      rw [emit_of_inside i hf]
      exact h.program

theorem closed (h : b.All P) {frame : OpenDefinition σ} {outer : List (OpenDefinition σ)}
    (hf : b.frames = frame :: outer)
    (hw : ∀ name, P (.call name b.nextLabel frame.body.toList)) : (b.closed frame outer).All P where
  names name op hop := by
    rw [resolve_closed] at hop
    split at hop
    next => cases hop; exact hw name
    next => exact h.names name op hop
  frames frame' hframe' := h.frames frame' (by rw [hf]; exact List.mem_cons_of_mem _ hframe')
  program := h.program

end All

end Build

/-! ## Labelled dictionaries and builds -/

/-- Every label has been handed out and stands for one body. -/
def Dictionary.Labelled (d : Dictionary σ) : Prop :=
  ∃ bodies : Nat → Program σ, d.All (Instruction.Labelled bodies d.fresh)

namespace Build

/-- The labels of a build stand for one body each, and its table knows the depths of these. -/
def Labelled (b : Build σ) : Prop :=
  ∃ bodies : Nat → Program σ, b.All (Instruction.Labelled bodies b.nextLabel) ∧
    b.depths.Exact bodies b.nextLabel

theorem labelled_start {d : Dictionary σ} (h : d.Labelled) : (Build.start d).Labelled := by
  obtain ⟨bodies, hd⟩ := h
  exact ⟨bodies, All.start hd, DepthTable.exact_empty _ _⟩

/-- The table decides as the call depth does. -/
theorem Labelled.measureAll_eq {b : Build σ} (h : b.Labelled) {frame : OpenDefinition σ}
    (hframe : frame ∈ b.frames) :
    (Instruction.measureAll b.depths frame.body.toList).1
      = Program.callDepth frame.body.toList := by
  obtain ⟨bodies, hall, hex⟩ := h
  exact (Instruction.measureAll_eq (Program.labelled_iff.mpr (hall.frames frame hframe)) hex).1

theorem nextLabel_emit (b : Build σ) (i : Instruction σ) :
    (b.emit i).nextLabel = b.nextLabel := by
  rw [nextLabel, emit_dictionary, emit_definitions, nextLabel]

theorem Labelled.emit {b : Build σ} (h : b.Labelled) {i : Instruction σ}
    (hi : ∀ bodies, b.All (Instruction.Labelled bodies b.nextLabel) →
      i.Labelled bodies b.nextLabel) : (b.emit i).Labelled := by
  obtain ⟨bodies, hall, hex⟩ := h
  refine ⟨bodies, ?_, ?_⟩
  · rw [nextLabel_emit]
    exact hall.emit (hi bodies hall)
  · rw [nextLabel_emit, emit_depths]
    exact hex

/-- The next label is free, so it may come to stand for the body that closes. -/
theorem Labelled.closed {b : Build σ} (h : b.Labelled) {frame : OpenDefinition σ}
    {outer : List (OpenDefinition σ)} (hf : b.frames = frame :: outer) :
    (b.closed frame outer).Labelled := by
  obtain ⟨bodies, hall, hex⟩ := h
  have hbody : Program.Labelled bodies b.nextLabel frame.body.toList :=
    Program.labelled_iff.mpr (hall.frames frame (by rw [hf]; exact List.mem_cons_self))
  obtain ⟨hdepth, hex'⟩ := Instruction.measureAll_eq hbody hex
  -- no label below the next one changes its meaning
  have hself : Function.update bodies b.nextLabel frame.body.toList b.nextLabel
      = frame.body.toList := Function.update_self _ _ _
  have hold : ∀ label < b.nextLabel,
      Function.update bodies b.nextLabel frame.body.toList label = bodies label :=
    fun label hlt ↦ Function.update_of_ne (Nat.ne_of_lt hlt) _ _
  have hle : b.nextLabel ≤ b.nextLabel + 1 := Nat.le_succ _
  refine ⟨Function.update bodies b.nextLabel frame.body.toList, ?_, ?_⟩
  · rw [nextLabel_closed]
    refine (hall.imp fun i hi ↦ hi.mono hle hold).closed hf fun name ↦ ?_
    exact ⟨Nat.lt_succ_self _, hself, hbody.mono hle hold⟩
  · rw [nextLabel_closed]
    have hins := (hex'.mono hle hold).insert (Nat.lt_succ_self b.nextLabel)
    rw [hself, ← hdepth] at hins
    exact hins

/-- Every move keeps the labels apart. -/
theorem Labelled.move {b b' : Build σ} {t : Token} (h : b.Labelled) (hmove : Move b t b') :
    b'.Labelled := by
  cases hmove with
  | number => exact h.emit fun _ _ ↦ trivial
  | name _ _ hr => exact h.emit fun _ hall ↦ hall.names _ _ hr
  | start =>
    obtain ⟨bodies, hall, hex⟩ := h
    exact ⟨bodies, hall.marker _, hex⟩
  | title =>
    obtain ⟨bodies, hall, hex⟩ := h
    exact ⟨bodies, hall.title t, hex⟩
  | close _ _ hf => exact h.closed hf

theorem labelled_of_read {d : Dictionary σ} (hd : d.Labelled) {tokens : List Token}
    {b : Build σ} (h : (start d).read tokens = .ok b) : b.Labelled :=
  read_induction (motive := fun _ b ↦ b.Labelled) (labelled_start hd)
    (fun _ _ _ _ _ ih hmove ↦ ih.move hmove) h

/-! ## Committing -/

theorem read_dictionary {d : Dictionary σ} {tokens : List Token} {b : Build σ}
    (h : (start d).read tokens = .ok b) : b.dictionary = d := by
  refine read_induction (motive := fun _ b ↦ b.dictionary = d) rfl ?_ h
  intro seen t b b' _ ih hmove
  cases hmove with
  | number | name => rw [emit_dictionary, ih]
  | start | title | close => exact ih

/-- The dictionary with the definitions of a build added binds names as the build does. -/
theorem lookup_defineAll_of_read {d : Dictionary σ} {tokens : List Token} {b : Build σ}
    (h : (start d).read tokens = .ok b) (name : String) :
    (d.defineAll b.definitions.toList).lookup name = b.resolve name := by
  refine read_induction
    (motive := fun _ b ↦ (d.defineAll b.definitions.toList).lookup name = b.resolve name) ?_ ?_ h
  · exact (resolve_start d name).symm
  · intro seen t b b' _ ih hmove
    cases hmove with
    | number | name => rw [emit_definitions, resolve_emit, ih]
    | start | title => exact ih
    | close =>
      rw [resolve_closed, ← ih, closed, Array.toList_push, Dictionary.defineAll_concat,
        Dictionary.lookup_define]

end Build

namespace Dictionary

theorem labelled_empty : (empty : Dictionary σ).Labelled :=
  ⟨fun _ ↦ [], fun name op h ↦ by
    rw [lookup, empty, Std.HashMap.getElem?_empty] at h
    cases h⟩

/-- Natives and constants bring no labels. -/
theorem Labelled.define {d : Dictionary σ} (h : d.Labelled) (name : String) {op : Operation σ}
    (hop : ∀ label body, op ≠ .word label body) : (d.define name op).Labelled := by
  obtain ⟨bodies, hall⟩ := h
  refine ⟨bodies, fun name' op' h' ↦ ?_⟩
  rw [lookup_define] at h'
  split at h'
  next =>
    cases h'
    cases op with
    | word label body => exact absurd rfl (hop label body)
    | native | constant => trivial
  next => exact hall name' op' h'

/-- A program that compiles brings labels that nothing else has. -/
theorem Labelled.commit {d : Dictionary σ} (hd : d.Labelled) {tokens : List Token}
    {c : Compiled σ} (h : compileTokens d tokens = .ok c) : (d.commit c).Labelled := by
  obtain ⟨b, hread, -, -, rfl⟩ := compileTokens_eq_ok_iff.mp h
  obtain ⟨bodies, hall, -⟩ := Build.labelled_of_read hd hread
  refine ⟨bodies, fun name op hop ↦ ?_⟩
  rw [lookup_commit, Build.lookup_defineAll_of_read hread] at hop
  rw [fresh_commit, Array.length_toList, ← Build.read_dictionary hread]
  exact hall.names name op hop

end Dictionary

end StackSynth
