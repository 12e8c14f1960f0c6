import StackSynth.Proofs.Engine.Requests
import StackSynth.Proofs.Language.Labels
import StackSynth.Proofs.Machine.Activations

/-!
# Bounded recursion

The depth of a definition is checked once, when it closes, and a program is not checked at all. Yet
whatever was asked of an engine, no word that can run nests calls deeper than `maxCallDepth`, and no
run has more activations under way at once than one more than that (`Engine.recursion_bounded`).

## The invariant

A step is bounded when it calls no word that is too deep and reaches no step that names a constant.
All that names compile to is bounded, in a dictionary and in a build alike, because a word gets
there by closing; so every program is made of bounded steps, and redefining a word takes nothing
away from the programs that were compiled before. A frame makes no programs and only takes them out
of the machine (`Scheduler.step_cases`).
-/

namespace StackSynth

variable {σ : Type}

/-- A step that nests calls no deeper than allowed and reaches no step that names a constant. -/
structure Instruction.Bounded (i : Instruction σ) : Prop where
  depth_le : i.callDepth ≤ maxCallDepth
  plain : i.Plain

/-! ## Words -/

/-- A body that a word may have: calls nest to the limit at most, and no step names a constant. -/
structure Program.IsWordBody (body : Program σ) : Prop where
  depth_le : Program.callDepth body + 1 ≤ 256
  no_constant : ∀ name value, Instruction.constant name value ∉ body

theorem Instruction.Bounded.isWordBody {name : String} {label : Nat} {body : Program σ}
    (h : (Instruction.call name label body).Bounded) : Program.IsWordBody body :=
  ⟨h.depth_le, Program.Plain.not_mem h.plain⟩

/-- What a bounded program reaches are bodies of words. -/
theorem Program.Reaches.isWordBody {p body : Program σ} (h : p.Reaches body)
    (hp : ∀ i ∈ p, i.Bounded) : Program.IsWordBody body where
  depth_le :=
    Nat.le_trans h.callDepth_lt (Program.callDepth_le_iff.mpr fun i hi ↦ (hp i hi).depth_le)
  no_constant := (h.plain (Program.plain_iff.mpr fun i hi ↦ (hp i hi).plain)).not_mem

/-! ## Compiling -/

namespace Build

/-- A word is bound to a name only after its depth was checked. -/
theorem All.bounded_of_read {d : Dictionary σ} (hd : d.Labelled)
    (h : d.All Instruction.Bounded) {tokens : List Token} {b : Build σ}
    (hread : (Build.start d).read tokens = .ok b) : b.All Instruction.Bounded := by
  refine read_induction (motive := fun _ b ↦ b.All Instruction.Bounded) (.start h) ?_ hread
  intro seen t b b' hseen ih hmove
  cases hmove with
  | number => exact ih.emit ⟨Nat.zero_le _, trivial⟩
  | name _ _ hr => exact ih.emit (ih.names _ _ hr)
  | start => exact ih.marker _
  | title => exact ih.title t
  | @close frame outer _ _ hf hdepth =>
    have hmem : frame ∈ b.frames := by
      rw [hf]
      exact List.mem_cons_self
    -- the depth was checked against the table, which is exact
    rw [(labelled_of_read hd hseen).measureAll_eq hmem] at hdepth
    have hplain : Program.Plain frame.body.toList :=
      Program.plain_iff.mpr fun i hi ↦ (ih.frames frame hmem i hi).plain
    exact ih.closed hf fun name ↦ ⟨hdepth, hplain⟩

end Build

/-! ## Dictionaries -/

/-- A dictionary that came about by definitions and by programs that compiled. -/
structure Dictionary.Sound (d : Dictionary σ) : Prop where
  labelled : d.Labelled
  bounded : d.All Instruction.Bounded

namespace Dictionary.Sound

variable {d : Dictionary σ}

theorem empty : (Dictionary.empty : Dictionary σ).Sound where
  labelled := Dictionary.labelled_empty
  bounded name op h := by
    rw [Dictionary.lookup, Dictionary.empty, Std.HashMap.getElem?_empty] at h
    cases h

/-- Natives and constants are no words. -/
theorem define (h : d.Sound) (name : String) {op : Operation σ}
    (hop : ∀ label body, op ≠ .word label body) : (d.define name op).Sound where
  labelled := h.labelled.define name hop
  bounded name' op' h' := by
    rw [Dictionary.lookup_define] at h'
    split at h'
    next =>
      cases h'
      cases op with
      | word label body => exact absurd rfl (hop label body)
      | native | constant => exact ⟨Nat.zero_le _, trivial⟩
    next => exact h.bounded name' op' h'

theorem defineAll (h : d.Sound) {entries : List (String × Operation σ)}
    (hentries : ∀ entry ∈ entries, ∀ label body, entry.2 ≠ .word label body) :
    (d.defineAll entries).Sound := by
  induction entries generalizing d with
  | nil => exact h
  | cons entry entries ih =>
    rw [List.forall_mem_cons] at hentries
    exact ih (h.define entry.1 hentries.1) hentries.2

theorem builtin : (Builtin.dictionary : Dictionary σ).Sound := by
  refine defineAll empty ?_
  rintro ⟨name, op⟩ hmem label body rfl
  simp [Builtin.entries] at hmem

theorem commit (h : d.Sound) {tokens : List Token} {c : Compiled σ}
    (hc : compileTokens d tokens = .ok c) : (d.commit c).Sound where
  labelled := h.labelled.commit hc
  bounded name op hop := by
    obtain ⟨b, hread, -, -, rfl⟩ := compileTokens_eq_ok_iff.mp hc
    rw [Dictionary.lookup_commit, Build.lookup_defineAll_of_read hread] at hop
    exact (Build.All.bounded_of_read h.labelled h.bounded hread).names name op hop

/-- The steps of a program that compiles are bounded. -/
theorem program (h : d.Sound) {tokens : List Token} {c : Compiled σ}
    (hc : compileTokens d tokens = .ok c) : ∀ i ∈ c.program, i.Bounded := by
  obtain ⟨b, hread, -, -, rfl⟩ := compileTokens_eq_ok_iff.mp hc
  exact (Build.All.bounded_of_read h.labelled h.bounded hread).program

end Dictionary.Sound

/-! ## Schedulers -/

/-- The programs of a scheduler are made of bounded steps. -/
structure Scheduler.Bounded (s : Scheduler σ) : Prop where
  program : ∀ p, s.machine.program = some p → ∀ i ∈ p, i.Bounded
  retired : ∀ p, s.retired = some p → ∀ i ∈ p, i.Bounded

namespace Scheduler.Bounded

/-- A frame makes no programs. -/
theorem step {s : Scheduler σ} (h : s.Bounded) : s.step.2.Bounded := by
  rcases s.step_cases with ⟨bench, -, hstep⟩ | ⟨fault, bench, -, hstep⟩
  · rw [hstep]
    exact ⟨h.program, h.retired⟩
  · rw [hstep]
    refine ⟨nofun, fun p hp ↦ ?_⟩
    cases hprogram : s.machine.program with
    | some p' =>
      rw [hprogram] at hp
      exact h.program p (hprogram.trans hp)
    | none =>
      rw [hprogram] at hp
      exact h.retired p hp

theorem render {s : Scheduler σ} (h : s.Bounded) (left right : Array Sample) :
    (s.render left right).2.2.Bounded :=
  Rendering.frames_induction (motive := Scheduler.Bounded) h (fun _ ↦ step) _

end Scheduler.Bounded

/-! ## Engines -/

namespace Engine

/-- A dictionary and programs as histories make them. -/
structure Sound (e : Engine σ) : Prop where
  dictionary : e.dictionary.Sound
  scheduler : e.scheduler.Bounded

theorem Sound.new (spec : EngineSpec) (modules : σ) : (new spec modules).Sound where
  dictionary := .builtin
  scheduler := ⟨nofun, nofun⟩

theorem Sound.installed {e : Engine σ} (h : e.Sound) {tokens : List Token} {c : Compiled σ}
    (hc : compileTokens e.dictionary tokens = .ok c) : (e.installed c).Sound where
  dictionary := h.dictionary.commit hc
  scheduler := by
    refine ⟨fun p hp ↦ ?_, nofun⟩
    cases hp
    exact h.dictionary.program hc

/-- Every request keeps what histories make. -/
theorem Sound.perform {e : Engine σ} (h : e.Sound) (r : Request σ) : (e.perform r).2.Sound := by
  have hbuilt : r.IsBuild → (e.perform r).2.Sound :=
    built_induction h fun _ _ hc ↦ h.installed hc
  cases r with
  | register name act =>
    exact ⟨h.dictionary.define name nofun, h.scheduler⟩
  | registerConstant name value =>
    exact ⟨h.dictionary.define name nofun, h.scheduler⟩
  | registerTicker | setPlaying | toggle | onModules | drainFaults =>
    exact ⟨h.dictionary, h.scheduler.program, h.scheduler.retired⟩
  | build | buildBytes => exact hbuilt trivial
  | processBlock left right => exact ⟨h.dictionary, h.scheduler.render left right⟩

/-- **Recursion is bounded.** After every history, the words of the dictionary and whatever the
installed and the parked program reach may run, and a run of the installed program needs no more
than one activation for itself and one for each level of calls. -/
theorem recursion_bounded (spec : EngineSpec) (modules : σ) (requests : List (Request σ)) :
    (∀ name label body,
      ((new spec modules).after requests).dictionary.lookup name = some (.word label body) →
        Program.IsWordBody body) ∧
      (∀ p, ((new spec modules).after requests).scheduler.machine.program = some p ∨
          ((new spec modules).after requests).scheduler.retired = some p →
        ∀ body, p.Reaches body → Program.IsWordBody body) ∧
      ∀ p, ((new spec modules).after requests).scheduler.machine.program = some p →
        ∀ bench, (Program.runNested p bench).1 = Program.run p bench ∧
          (Program.runNested p bench).2 ≤ 257 := by
  have h : ((new spec modules).after requests).Sound :=
    after_induction (Sound.new spec modules) (fun _ r h ↦ h.perform r) requests
  refine ⟨fun name label body hl ↦ ?_, fun p hp body hbody ↦ ?_, fun p hp bench ↦ ⟨?_, ?_⟩⟩
  · exact (h.dictionary.bounded name _ hl).isWordBody
  · refine hbody.isWordBody ?_
    rcases hp with hp | hp
    · exact h.scheduler.program p hp
    · exact h.scheduler.retired p hp
  · exact Program.runNested_fst p bench
  · -- the program itself was never checked, but each of its steps is bounded
    have hdepth : Program.callDepth p ≤ maxCallDepth :=
      Program.callDepth_le_iff.mpr fun i hi ↦ (h.scheduler.program p hp i hi).depth_le
    exact Nat.le_trans (Program.runNested_snd_le p bench) (Nat.succ_le_succ hdepth)

end Engine

end StackSynth
