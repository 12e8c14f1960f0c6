import Mathlib.Data.List.Basic
import StackSynth.Proofs.Engine.Requests

/-!
# Frames in a row

A block is nothing but a number of frames, one after the other. The frame behind `n` others starts
from the scheduler `Scheduler.later n`; it is heard as `Scheduler.heard n` and may fault with
`Scheduler.fault? n`. All three go on where they stopped (`Scheduler.later_add` and its companions),
and everything that a block does can be said with them (`Scheduler.render_eq`).

## At most one fault

A frame that faults leaves an empty stack and no program behind, and without a program no frame
faults. So of frames in a row at most one faults, those behind it are silent, and "the first fault"
of a block is the only one (`Scheduler.faults_eq_toList`).
-/

namespace StackSynth

variable {σ : Type}

/-- A frame in which nothing is heard. -/
def Frame.silence : Frame := (.zero, .zero)

namespace Scheduler

variable {s : Scheduler σ}

/-- The scheduler after `n` frames. -/
def later (s : Scheduler σ) : Nat → Scheduler σ
  | 0 => s
  | n + 1 => (s.later n).step.2

/-- What is heard of the frame behind `n` others. A frame that faults is silent. -/
def heard (s : Scheduler σ) (n : Nat) : Frame :=
  match (s.later n).step.1 with
  | .ok frame => frame
  | .error _ => Frame.silence

/-- The fault of the frame behind `n` others. -/
def fault? (s : Scheduler σ) (n : Nat) : Option Fault :=
  match (s.later n).step.1 with
  | .ok _ => none
  | .error fault => some fault

/-- The faults of `n` frames, in order. -/
def faults (s : Scheduler σ) (n : Nat) : List Fault := (List.range n).filterMap s.fault?

@[simp] theorem later_zero (s : Scheduler σ) : s.later 0 = s := rfl

theorem later_succ (s : Scheduler σ) (n : Nat) : s.later (n + 1) = (s.later n).step.2 := rfl

theorem later_add (s : Scheduler σ) (m n : Nat) : s.later (m + n) = (s.later m).later n := by
  induction n with
  | zero => rfl
  | succ n ih => rw [← Nat.add_assoc, later_succ, ih, later_succ]

theorem heard_add (s : Scheduler σ) (m n : Nat) : s.heard (m + n) = (s.later m).heard n := by
  rw [heard, later_add, heard]

theorem fault?_add (s : Scheduler σ) (m n : Nat) : s.fault? (m + n) = (s.later m).fault? n := by
  rw [fault?, later_add, fault?]

theorem faults_succ (s : Scheduler σ) (n : Nat) :
    s.faults (n + 1) = s.faults n ++ (s.fault? n).toList := by
  rw [faults, List.range_succ, List.filterMap_append, List.filterMap_cons, List.filterMap_nil,
    faults]
  cases s.fault? n <;> rfl

theorem faults_add (s : Scheduler σ) (m n : Nat) :
    s.faults (m + n) = s.faults m ++ (s.later m).faults n := by
  rw [faults, List.range_add, List.filterMap_append, List.filterMap_map, faults, faults]
  congr 2
  funext k
  exact s.fault?_add m k

theorem mem_faults {n : Nat} {f : Fault} : f ∈ s.faults n ↔ ∃ k < n, s.fault? k = some f := by
  simp [faults, List.mem_filterMap]

theorem fault?_eq_none_iff {n : Nat} :
    s.fault? n = none ↔ ∃ frame, (s.later n).step.1 = .ok frame := by
  rw [fault?]
  cases (s.later n).step.1 <;> simp

theorem step_eq_heard {n : Nat} (h : s.fault? n = none) :
    (s.later n).step.1 = .ok (s.heard n) := by
  obtain ⟨frame, hframe⟩ := fault?_eq_none_iff.mp h
  rw [heard, hframe]

theorem fault?_eq_some_iff {n : Nat} {f : Fault} :
    s.fault? n = some f ↔ (s.later n).step.1 = .error f := by
  rw [fault?]
  cases (s.later n).step.1 <;> simp

/-! ## What a fault leaves behind -/

theorem step_of_program_eq_none (h : s.machine.program = none) :
    s.step = (.ok Frame.silence, ⟨⟨s.ready, none⟩, s.tickers, s.retired⟩) := by
  rcases s.step_cases with ⟨bench, hrun, hstep⟩ | ⟨fault, bench, hrun, -⟩
  · rw [h] at hrun
    cases hrun
    rw [hstep, h]
    rfl
  · rw [h] at hrun
    cases hrun

/-- A frame is a run of the program, except for what a fault leads to. -/
theorem step_of_program {p : Program σ} (h : s.machine.program = some p) :
    (∃ bench, Program.run p s.ready = (.ok (), bench) ∧
      s.step = (.ok (bench.rig.left, bench.rig.right), ⟨⟨bench, some p⟩, s.tickers, s.retired⟩)) ∨
    ∃ fault bench, Program.run p s.ready = (.error fault, bench) ∧
      s.step = (.error fault,
        ⟨⟨⟨bench.stack.clear, bench.rig.silence⟩, none⟩, s.tickers, some p⟩) := by
  rcases s.step_cases with ⟨bench, hrun, hstep⟩ | ⟨fault, bench, hrun, hstep⟩
  · rw [h, Machine.run] at hrun
    rw [h] at hstep
    generalize Program.run p s.ready = result at hrun ⊢
    obtain ⟨result, bench'⟩ := result
    cases hrun
    exact Or.inl ⟨_, rfl, hstep⟩
  · rw [h, Machine.run] at hrun
    rw [h] at hstep
    generalize Program.run p s.ready = result at hrun ⊢
    obtain ⟨result, bench'⟩ := result
    cases hrun
    exact Or.inr ⟨fault, _, rfl, hstep⟩

theorem of_step_eq_error {f : Fault} (h : s.step.1 = .error f) :
    s.step.2.stack.toList = [] ∧ s.step.2.machine.program = none := by
  rcases s.step_cases with ⟨bench, -, hstep⟩ | ⟨fault, bench, -, hstep⟩
  · rw [hstep] at h
    cases h
  · rw [hstep]
    exact ⟨rfl, rfl⟩

theorem later_program_eq_none (h : s.machine.program = none) (n : Nat) :
    (s.later n).machine.program = none := by
  induction n with
  | zero => exact h
  | succ n ih => rw [later_succ, step_of_program_eq_none ih]

theorem heard_of_program_eq_none (h : s.machine.program = none) (n : Nat) :
    s.heard n = Frame.silence := by
  rw [heard, step_of_program_eq_none (later_program_eq_none h n)]

theorem fault?_of_program_eq_none (h : s.machine.program = none) (n : Nat) :
    s.fault? n = none :=
  fault?_eq_none_iff.mpr ⟨_, by rw [step_of_program_eq_none (later_program_eq_none h n)]⟩

/-- A frame that faults leaves an empty stack and no program. -/
theorem of_fault?_eq_some {k : Nat} {f : Fault} (h : s.fault? k = some f) :
    (s.later (k + 1)).stack.toList = [] ∧ (s.later (k + 1)).machine.program = none :=
  of_step_eq_error (fault?_eq_some_iff.mp h)

/-- The program does not come back by itself. -/
theorem later_program_of_fault {k n : Nat} {f : Fault} (h : s.fault? k = some f) (hk : k < n) :
    (s.later n).machine.program = none := by
  obtain ⟨m, rfl⟩ : ∃ m, n = (k + 1) + m := ⟨n - (k + 1), by omega⟩
  rw [later_add]
  exact later_program_eq_none (of_fault?_eq_some h).2 m

/-- From a frame that faults on nothing is heard. -/
theorem heard_of_fault {k n : Nat} {f : Fault} (h : s.fault? k = some f) (hk : k ≤ n) :
    s.heard n = Frame.silence := by
  rcases Nat.eq_or_lt_of_le hk with rfl | hk
  · rw [heard, fault?_eq_some_iff.mp h]
  · rw [← Nat.add_zero n, heard_add]
    exact heard_of_program_eq_none (later_program_of_fault h hk) 0

theorem fault?_of_fault {k n : Nat} {f : Fault} (h : s.fault? k = some f) (hk : k < n) :
    s.fault? n = none := by
  rw [← Nat.add_zero n, fault?_add]
  exact fault?_of_program_eq_none (later_program_of_fault h hk) 0

/-- Of frames in a row at most one faults. -/
theorem faults_eq_toList (s : Scheduler σ) (n : Nat) :
    s.faults n = ((List.range n).findSome? s.fault?).toList := by
  induction n with
  | zero => rfl
  | succ n ih =>
    rw [faults_succ, ih, List.range_succ, List.findSome?_append]
    cases hfirst : (List.range n).findSome? s.fault? with
    | none => simp
    | some f =>
      have hmem : f ∈ s.faults n := by rw [ih, hfirst]; exact List.mem_singleton_self f
      obtain ⟨k, hk, hfault⟩ := mem_faults.mp hmem
      rw [fault?_of_fault hfault hk]
      rfl

/-! ## Blocks -/

theorem frames_eq (s : Scheduler σ) (n : Nat) :
    Rendering.frames s n = ⟨s.later n, (Array.range n).map fun k ↦ (s.heard k).1,
      (Array.range n).map fun k ↦ (s.heard k).2, (List.range n).findSome? s.fault?⟩ := by
  induction n with
  | zero => simp [Rendering.frames, Nat.repeat]
  | succ n ih =>
    change (Rendering.frames s n).frame = _
    rw [ih, Rendering.frame, Array.range_succ, List.range_succ, List.findSome?_append, later_succ]
    cases hstep : (s.later n).step with
    | mk outcome t =>
      cases outcome <;> simp [heard, fault?, hstep, Frame.silence]

/-- What a block does, said with single frames. -/
theorem render_eq (s : Scheduler σ) (left right : Array Sample) :
    s.render left right =
      ((overwrite ((Array.range (min left.size right.size)).map fun k ↦ (s.heard k).1) left,
        overwrite ((Array.range (min left.size right.size)).map fun k ↦ (s.heard k).2) right),
        (List.range (min left.size right.size)).findSome? s.fault?,
        s.later (min left.size right.size)) := by
  rw [render, frames_eq]

end Scheduler

end StackSynth
