import StackSynth.Proofs.Engine.Histories
import StackSynth.Proofs.Language.Moves

/-!
# Silence after a fault

What a fault leads to over whole histories: the frame that faults and all behind it are silent until
a build succeeds, whatever else is asked of the engine, and the fault is answered once.

## The invariant

An engine without a program answers every quiet history with silence (`Engine.silent_of_quiet`). A
new engine has no program, and neither has one behind a frame that faults. Each build that succeeds
brings one program, and each fault takes one away, so faults never outnumber such builds
(`Engine.programs_after`).
-/

namespace StackSynth

variable {σ : Type}

namespace Engine

variable {e : Engine σ}

/-- An answer in which nothing is heard and nothing went wrong. -/
structure Reply.Silent (reply : Reply) : Prop where
  frames : ∀ frame ∈ reply.frames, frame = Frame.silence
  fault? : reply.fault? = none

/-! ## Engines without a program -/

theorem perform_silent (h : e.scheduler.machine.program = none) (r : Request σ) :
    (e.perform r).1.Silent := by
  rcases e.perform_cases r with ⟨left, right, rfl⟩ | ⟨tokens, c, report, -, hbuilt⟩ |
    ⟨hframes, hfault, -, -⟩
  · refine ⟨?_, ?_⟩
    · rw [frames_processBlock, List.forall_mem_map]
      exact fun k _ ↦ Scheduler.heard_of_program_eq_none h k
    · rw [Option.eq_none_iff_forall_ne_some]
      intro fault hfault
      obtain ⟨k, -, hk⟩ := (fault?_processBlock_eq_some_iff e left right).mp hfault
      rw [Scheduler.fault?_of_program_eq_none h] at hk
      cases hk
  · rw [hbuilt]
    exact ⟨by simp [Reply.frames], rfl⟩
  · exact ⟨by simp [hframes], hfault⟩

/-- Without a program and without a build nothing is heard. -/
theorem silent_of_quiet (h : e.scheduler.machine.program = none) {requests : List (Request σ)}
    (hq : e.Quiet requests) : ∀ reply ∈ e.replies requests, reply.Silent := by
  induction requests generalizing e with
  | nil => simp
  | cons r requests ih =>
    rw [quiet_cons_iff] at hq
    rw [replies_cons, List.forall_mem_cons]
    refine ⟨perform_silent h r, ih ?_ hq.2⟩
    refine perform_of_step (motive := fun s ↦ s.machine.program = none) ?_ ?_ hq.1 h
    · intro s hs
      rw [Scheduler.step_of_program_eq_none hs]
    · intro s t hst hs
      rw [hst.program, hs]

end Engine

/-! ## Faults and builds -/

/-- Programs that are installed: one or none. -/
def Scheduler.programs (s : Scheduler σ) : Nat := s.machine.program.toList.length

theorem Scheduler.programs_step (s : Scheduler σ) :
    s.step.2.programs + (s.fault? 0).toList.length = s.programs := by
  rcases s.step_cases with ⟨bench, -, hstep⟩ | ⟨fault, bench, hrun, hstep⟩
  · have hfault : s.fault? 0 = none := fault?_eq_none_iff.mpr ⟨_, by rw [later_zero, hstep]⟩
    rw [hfault, hstep]
    rfl
  · have hfault : s.fault? 0 = some fault := fault?_eq_some_iff.mpr (by rw [later_zero, hstep])
    rw [hfault, hstep, programs, programs]
    cases hprogram : s.machine.program with
    | some p => rfl
    | none =>
      -- without a program there is nothing to fault
      rw [hprogram] at hrun
      cases hrun

/-- Each fault takes a program away. -/
theorem Scheduler.programs_later (s : Scheduler σ) (n : Nat) :
    (s.later n).programs + (s.faults n).length = s.programs := by
  induction n with
  | zero => rfl
  | succ n ih =>
    have hstep := (s.later n).programs_step
    rw [← fault?_add, Nat.add_zero] at hstep
    rw [faults_succ, later_succ, List.length_append]
    omega

namespace Engine

theorem programs_perform (e : Engine σ) (r : Request σ) :
    (e.perform r).2.scheduler.programs + (e.perform r).1.fault?.toList.length ≤
      e.scheduler.programs + (e.perform r).1.report?.toList.length := by
  rcases e.perform_cases r with ⟨left, right, rfl⟩ | ⟨tokens, c, report, -, hbuilt⟩ |
    ⟨-, hfault, hreport, halike⟩
  · have hlater := e.scheduler.programs_later (room left right)
    rw [fault?_processBlock, scheduler_processBlock]
    omega
  · rw [hbuilt]
    exact Nat.le_add_left _ _
  · rw [hfault, hreport, Scheduler.programs, halike.program]
    exact Nat.le_refl _

/-- Each build brings at most one program, and each fault takes one away. -/
theorem programs_after (e : Engine σ) (requests : List (Request σ)) :
    (e.after requests).scheduler.programs
        + ((e.replies requests).filterMap Reply.fault?).length ≤
      e.scheduler.programs + ((e.replies requests).filterMap Reply.report?).length := by
  induction requests generalizing e with
  | nil => exact Nat.le_refl _
  | cons r requests ih =>
    have hperform := e.programs_perform r
    have hrest := ih (e.perform r).2
    rw [after_cons, filterMap_replies_cons, filterMap_replies_cons, List.length_append,
      List.length_append]
    omega

/-! ## Whole histories -/

/-- What a fault in the frame behind `k` others of a block leads to. -/
structure FallsSilent (e : Engine σ) (left right : Array Sample) (k : Nat) (fault : Fault) :
    Prop where
  /-- The block answers with the fault. -/
  answered : (e.perform (.processBlock left right)).1.fault? = some fault
  /-- The frames before keep their samples. -/
  before : ∀ i < k, ∃ frame, (e.scheduler.later i).step.1 = .ok frame ∧
    (e.perform (.processBlock left right)).1.frames[i]? = some frame
  /-- The frame and all behind it in the block are silent. -/
  behind : ∀ i, k ≤ i → i < room left right →
    (e.perform (.processBlock left right)).1.frames[i]? = some Frame.silence
  /-- Right after the frame the stack is empty and no program is installed. -/
  stopped : (e.scheduler.later (k + 1)).stack.toList = [] ∧
    (e.scheduler.later (k + 1)).machine.program = none
  /-- Until a build succeeds, everything is silent and no fault is answered again. -/
  silent : ∀ requests, (e.perform (.processBlock left right)).2.Quiet requests →
    ∀ reply ∈ (e.perform (.processBlock left right)).2.replies requests, reply.Silent

theorem fallsSilent (e : Engine σ) {left right : Array Sample} {k : Nat} {fault : Fault}
    (hk : k < room left right) (h : e.scheduler.fault? k = some fault) :
    e.FallsSilent left right k fault where
  answered := (fault?_processBlock_eq_some_iff e left right).mpr ⟨k, hk, h⟩
  before i hi := by
    -- had a frame before faulted, this one would not
    have hnone : e.scheduler.fault? i = none := by
      cases hfault : e.scheduler.fault? i with
      | none => rfl
      | some f =>
        rw [Scheduler.fault?_of_fault hfault hi] at h
        cases h
    refine ⟨e.scheduler.heard i, Scheduler.step_eq_heard hnone, ?_⟩
    rw [frames_processBlock, List.getElem?_map, List.getElem?_range (Nat.lt_trans hi hk),
      Option.map_some]
  behind i hi hroom := by
    rw [frames_processBlock, List.getElem?_map, List.getElem?_range hroom, Option.map_some,
      Scheduler.heard_of_fault h hi]
  stopped := Scheduler.of_fault?_eq_some h
  silent requests hq := silent_of_quiet
    (by rw [scheduler_processBlock]; exact Scheduler.later_program_of_fault h hk) hq

/-- **A fault silences until the next build.** In every history of a new engine, a frame that faults
falls silent together with all that is behind it, while the frames before keep what they had; the
fault is answered by one block alone, so the faults that are answered are those of the frames, in
order, and no more than there were builds with success. Before the first of these builds everything
is silent. -/
theorem fault_silences (spec : EngineSpec) (modules : σ) (requests : List (Request σ)) :
    (∀ left right k fault, k < room left right →
      ((new spec modules).after requests).scheduler.fault? k = some fault →
        ((new spec modules).after requests).FallsSilent left right k fault) ∧
      ((new spec modules).replies requests).filterMap Reply.fault?
        = ((new spec modules).starts requests).filterMap (fun s ↦ s.fault? 0) ∧
      (((new spec modules).replies requests).filterMap Reply.fault?).length
        ≤ (((new spec modules).replies requests).filterMap Reply.report?).length ∧
      ((new spec modules).Quiet requests →
        ∀ reply ∈ (new spec modules).replies requests, reply.Silent) := by
  refine ⟨fun left right k fault hk h ↦ fallsSilent _ hk h, filterMap_fault?_replies _ _, ?_,
    silent_of_quiet rfl⟩
  have hprograms := (new spec modules).programs_after requests
  have hnew : (new spec modules).scheduler.programs = 0 := rfl
  omega

/-- A history that ends with a program which has nothing to drop. -/
def dropping : List (Request Unit) := [.register "drop" Builtin.drop, .build "drop"]

/-- A source that is the name of a native builds the program of one step. -/
theorem perform_build_native {e : Engine σ} {name : String} {act : Native σ}
    (hname : tokenize name = [⟨.name, name, .start⟩])
    (h : e.dictionary.lookup name = some (.native act)) :
    e.perform (.build name) = (.built (.ok ⟨1, []⟩), e.installed ⟨[.native name act], []⟩) := by
  have hcompile : compile e.dictionary name = .ok ⟨[.native name act], []⟩ := by
    rw [compile, hname]
    exact compileTokens_natives [(name, .start, act)] (by simpa using h)
  rw [perform, build_eq_ok_iff.mpr ⟨_, hcompile, rfl, rfl⟩]
  rfl

theorem perform_build_drop {e : Engine Unit}
    (h : e.dictionary.lookup "drop" = some (.native Builtin.drop)) :
    e.perform (.build "drop")
      = (.built (.ok ⟨1, []⟩), e.installed ⟨[.native "drop" Builtin.drop], []⟩) :=
  perform_build_native (by cbv) h

theorem after_dropping : (new {} ()).after dropping =
    ((new {} ()).register "drop" Builtin.drop).installed ⟨[.native "drop" Builtin.drop], []⟩ := by
  have hlookup : ((new {} ()).register "drop" Builtin.drop).dictionary.lookup "drop"
      = some (.native (Builtin.drop : Native Unit)) := by
    rw [register, define, Dictionary.lookup_define, if_pos rfl]
  rw [dropping, after_cons, after_cons, perform, perform_build_drop hlookup]
  rfl

/-- The first frame finds nothing to drop. -/
theorem fault_silences_drop :
    0 < room #[.half] #[.half] ∧
      ((new {} ()).after dropping).scheduler.fault? 0 = some (.underflow "drop") ∧
      ((new {} ()).after dropping).FallsSilent #[.half] #[.half] 0 (.underflow "drop") := by
  have hfault : ((new {} ()).after dropping).scheduler.fault? 0 = some (.underflow "drop") := by
    rw [after_dropping]
    rfl
  exact ⟨by decide, hfault, (fault_silences {} () dropping).1 _ _ 0 _ (by decide) hfault⟩

end Engine

end StackSynth
