import StackSynth.Proofs.Engine.Histories
import StackSynth.Proofs.Language.Natives

/-!
# The natives of an engine

Natives get into an engine by registration and in no other way: a build passes on those that the
dictionary gets to, and a frame can only take a program out. So if every native of an engine is one
of `K` and every native that is registered is one of `K`, the same holds after the whole history
(`Engine.Uses.after`).
-/

namespace StackSynth

variable {σ : Type} {K : Native σ → Prop}

/-- A program that is installed behind some frames was installed before them. -/
theorem Scheduler.program_of_later {s : Scheduler σ} {n : Nat} {p : Program σ}
    (h : (s.later n).machine.program = some p) : s.machine.program = some p := by
  induction n with
  | zero => exact h
  | succ n ih =>
    rw [later_succ] at h
    rcases (s.later n).step_cases with ⟨bench, -, hstep⟩ | ⟨fault, bench, -, hstep⟩
    · rw [hstep] at h
      exact ih h
    · rw [hstep] at h
      cases h

namespace Engine

variable {e : Engine σ}

/-! ## Dictionaries -/

theorem uses_dictionary_perform (h : e.dictionary.Uses K) {r : Request σ}
    (hr : ∀ name act, r = .register name act → K act) : (e.perform r).2.dictionary.Uses K := by
  have hbuilt : r.IsBuild → (e.perform r).2.dictionary.Uses K :=
    built_induction (motive := fun e ↦ e.dictionary.Uses K) h fun _ _ hc ↦ h.commit hc
  cases r with
  | register name act => exact h.define fun _ ↦ hr name act rfl
  | registerConstant name value => exact h.define fun _ ↦ trivial
  | build | buildBytes => exact hbuilt trivial
  | _ => exact h

theorem uses_dictionary_after (h : e.dictionary.Uses K) {requests : List (Request σ)}
    (hrequests : ∀ name act, .register name act ∈ requests → K act) :
    (e.after requests).dictionary.Uses K := by
  refine after_induction_of_mem (motive := fun e ↦ e.dictionary.Uses K) h ?_
  intro r hr e he
  exact uses_dictionary_perform he fun name act heq ↦ hrequests name act (heq ▸ hr)

/-! ## Dictionaries and programs -/

/-- Every native that a name stands for, or that the installed program gets to, is one of `K`. -/
structure Uses (K : Native σ → Prop) (e : Engine σ) : Prop where
  dictionary : e.dictionary.Uses K
  program : ∀ p, e.scheduler.machine.program = some p → Program.Uses K p

namespace Uses

theorem perform (h : e.Uses K) {r : Request σ} (hr : ∀ name act, r = .register name act → K act) :
    (e.perform r).2.Uses K := by
  refine ⟨uses_dictionary_perform h.dictionary hr, ?_⟩
  intro p hp
  rcases e.perform_cases r with ⟨left, right, rfl⟩ | ⟨tokens, c, report, hc, hbuilt⟩ |
    ⟨-, -, -, halike⟩
  · rw [scheduler_processBlock] at hp
    exact h.program p (Scheduler.program_of_later hp)
  · rw [hbuilt] at hp
    cases hp
    exact h.dictionary.program hc
  · rw [halike.program] at hp
    exact h.program p hp

theorem after (h : e.Uses K) {requests : List (Request σ)}
    (hrequests : ∀ name act, .register name act ∈ requests → K act) :
    (e.after requests).Uses K := by
  refine after_induction_of_mem h ?_
  intro r hr e he
  exact he.perform fun name act heq ↦ hrequests name act (heq ▸ hr)

theorem new (h : (Builtin.dictionary : Dictionary σ).Uses K) (spec : EngineSpec) (modules : σ) :
    (Engine.new spec modules).Uses K :=
  ⟨h, fun _ hp ↦ by cases hp⟩

end Uses

end Engine

end StackSynth
