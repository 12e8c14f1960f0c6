import StackSynth.Machine.Run
import StackSynth.Proofs.Language.CallDepth

/-!
# Nested activations

A program runs by a function that calls itself for the body of every word. How many of these calls
are under way at once decides how much room a run takes. `Program.runNested` runs as `Program.run`
does (`Program.runNested_fst`) and counts along; a run that faults is counted up to its fault.

The count never exceeds the call depth by more than one, the call for the program itself
(`Program.runNested_snd_le`). So a bound on the call depth of the words that a program reaches is a
bound for all its runs, on every bench.
-/

namespace StackSynth

variable {σ : Type}

/-! ## Reachable words -/

/-- The program reaches the body of every word that it calls, and whatever this body reaches. -/
inductive Program.Reaches : Program σ → Program σ → Prop where
  | call {p : Program σ} {name : String} {label : Nat} {body : Program σ}
      (h : Instruction.call name label body ∈ p) : Reaches p body
  | inside {p : Program σ} {name : String} {label : Nat} {body body' : Program σ}
      (h : Instruction.call name label body ∈ p) (h' : Reaches body body') : Reaches p body'

/-- Reachable words are called less deeply than what reaches them. -/
theorem Program.Reaches.callDepth_lt {p body : Program σ} (h : p.Reaches body) :
    Program.callDepth body < Program.callDepth p := by
  have hcall : ∀ {p : Program σ} {name : String} {label : Nat} {body : Program σ},
      Instruction.call name label body ∈ p →
        Program.callDepth body < Program.callDepth p := fun hmem ↦
    Program.callDepth_le_iff.mp (Nat.le_refl _) _ hmem
  induction h with
  | call hmem => exact hcall hmem
  | inside hmem _ ih => exact Nat.lt_trans ih (hcall hmem)

mutual

/-- No step that a run gets to pushes a constant under its name. -/
def Instruction.Plain : Instruction σ → Prop
  | .constant _ _ => False
  | .call _ _ body => Program.Plain body
  | .push _ | .native _ _ => True

/-- All steps are plain. -/
def Program.Plain : List (Instruction σ) → Prop
  | [] => True
  | i :: is => i.Plain ∧ Program.Plain is

end

theorem Program.plain_iff {p : Program σ} : Program.Plain p ↔ ∀ i ∈ p, i.Plain := by
  induction p with
  | nil => simp [Program.Plain]
  | cons i is ih => rw [Program.Plain, ih, List.forall_mem_cons]

theorem Program.Reaches.plain {p body : Program σ} (h : p.Reaches body)
    (hp : Program.Plain p) : Program.Plain body := by
  induction h with
  | call hmem => exact Program.plain_iff.mp hp _ hmem
  | inside hmem _ ih => exact ih (Program.plain_iff.mp hp _ hmem)

theorem Program.Plain.not_mem {p : Program σ} (hp : Program.Plain p) (name : String)
    (value : Float) : Instruction.constant name value ∉ p :=
  fun hmem ↦ Program.plain_iff.mp hp _ hmem

/-! ## Counting activations -/

/-- What an action does on a bench before another takes over. -/
theorem RunM.bind_apply {ε α β : Type} (x : ExceptT ε (StateM (Bench σ)) α)
    (y : α → ExceptT ε (StateM (Bench σ)) β) (bench : Bench σ) :
    (x >>= y) bench = match x bench with
      | (.ok a, bench) => y a bench
      | (.error e, bench) => (.error e, bench) := by
  simp only [bind, ExceptT.bind, ExceptT.mk, StateT.bind, ExceptT.bindCont]
  rcases x bench with ⟨_ | _, _⟩ <;> rfl

mutual

/-- Runs a step and counts the activations that it needs at once. -/
def Instruction.runNested : Instruction σ → Bench σ → (Except Fault Unit × Bench σ) × Nat
  | .call _ _ body, bench => Program.runNested body bench
  | .push value, bench => (Instruction.run (.push value) bench, 0)
  | .native name act, bench => (Instruction.run (.native name act) bench, 0)
  | .constant name value, bench => (Instruction.run (.constant name value) bench, 0)

/-- Runs a program and counts the activations that are under way at once, its own included. -/
def Program.runNested : List (Instruction σ) → Bench σ → (Except Fault Unit × Bench σ) × Nat
  | [], bench => ((.ok (), bench), 1)
  | i :: is, bench =>
    match i.runNested bench with
    | ((.ok (), bench), n) =>
      ((Program.runNested is bench).1, max (n + 1) (Program.runNested is bench).2)
    | ((.error e, bench), n) => ((.error e, bench), n + 1)

end

/-- Counting does not change the run. -/
theorem Program.runNested_fst (p : Program σ) (bench : Bench σ) :
    (Program.runNested p bench).1 = Program.run p bench := by
  have hcons : ∀ (i : Instruction σ) (is : Program σ) (bench : Bench σ),
      (i.runNested bench).1 = i.run bench →
      (∀ bench, (Program.runNested is bench).1 = Program.run is bench) →
      (Program.runNested (i :: is) bench).1 = Program.run (i :: is) bench := by
    intro i is bench hi his
    rw [runNested, run, RunM.bind_apply, ← hi]
    rcases i.runNested bench with ⟨⟨_ | _, bench'⟩, n⟩
    · rfl
    · exact his bench'
  induction p using Program.induction generalizing bench with
  | nil => rfl
  | push _ is ih | native _ _ is ih | constant _ _ is ih => exact hcons _ is bench rfl ih
  | call name label body is ihBody ih =>
    refine hcons _ is bench ?_ ih
    rw [Instruction.runNested, ihBody, Instruction.run]

/-- A run needs one activation for the program and one for every level of calls. -/
theorem Program.runNested_snd_le (p : Program σ) (bench : Bench σ) :
    (Program.runNested p bench).2 ≤ Program.callDepth p + 1 := by
  -- the activations of a body end before the next step begins
  have hcons : ∀ (i : Instruction σ) (is : Program σ) (bench : Bench σ),
      (i.runNested bench).2 ≤ i.callDepth →
      (∀ bench, (Program.runNested is bench).2 ≤ Program.callDepth is + 1) →
      (Program.runNested (i :: is) bench).2 ≤ Program.callDepth (i :: is) + 1 := by
    intro i is bench hi his
    rw [runNested, callDepth, ← Nat.add_max_add_right]
    generalize i.runNested bench = x at hi ⊢
    rcases x with ⟨⟨_ | _, bench'⟩, n⟩
    · exact Nat.le_trans (Nat.succ_le_succ hi) (Nat.le_max_left _ _)
    · exact Nat.max_le.mpr ⟨Nat.le_trans (Nat.succ_le_succ hi) (Nat.le_max_left _ _),
        Nat.le_trans (his bench') (Nat.le_max_right _ _)⟩
  induction p using Program.induction generalizing bench with
  | nil => exact Nat.le_refl 1
  | push _ is ih | native _ _ is ih | constant _ _ is ih =>
    exact hcons _ is bench (Nat.zero_le _) ih
  | call name label body is ihBody ih => exact hcons _ is bench (ihBody bench) ih

end StackSynth
