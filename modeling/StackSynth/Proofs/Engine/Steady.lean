import StackSynth.Proofs.Engine.Natives
import StackSynth.Proofs.Synth.Depth

/-!
# Faults depend on depths only

A program over the words of the language and of a bank makes moves only, so whether a run goes
through, which step it faults in and how deep the stack is in the end follow from the depth and the
ceiling at the start. The values on the stack, the modules, the transport and whatever comes from
outside have no say.

A program whose run has once come back to the depth that it started from is therefore steady: the
next run starts from that depth again and goes through again, for as long as no build replaces the
program (`Scheduler.Steady.step`).

The dictionary of an engine with a bank is one to which this applies, and it stays one in every
history that registers no other natives (`Bank.exists_movesBy_after`).
-/

namespace StackSynth

variable {σ : Type}

/-! ## Engines with a bank -/

/-- Builds and constants bring in no natives. -/
theorem Engine.ofBank_after {f : Focus σ Bank} {e : Engine σ} (he : e.dictionary.OfBank f)
    {requests : List (Request σ)} (h : ∀ name act, Request.register name act ∈ requests →
      Bank.Provides f (name, .native act)) : (e.after requests).dictionary.OfBank f :=
  uses_dictionary_after he fun name act hmem ↦ ⟨name, h name act hmem⟩

/-- Whatever an engine with a bank compiles makes moves only. -/
theorem Bank.exists_movesBy_after {folder : Folder} {spec : EngineSpec} {bank : BankSpec}
    {names : List String} {e : Engine Bank} (h : engine folder spec bank = .ok (names, e))
    {requests : List (Engine.Request Bank)}
    (hregister : ∀ name act, .register name act ∉ requests)
    {tokens : List Token} {c : Compiled Bank}
    (hc : compileTokens (e.after requests).dictionary tokens = .ok c) :
    ∃ steps, MovesBy DepthStep.run (Program.run c.program) steps :=
  have hbank := Engine.ofBank_after (engine_ofBank h) fun name act hmem ↦
    absurd hmem (hregister name act)
  hbank.exists_movesBy hc

/-! ## Steady programs -/

namespace Scheduler

/-- A program in its place, a depth and a ceiling. -/
structure Steady (p : Program σ) (depth limit : Nat) (s : Scheduler σ) : Prop where
  program : s.machine.program = some p
  depth : s.stack.size = depth
  limit : s.stack.limit = limit

variable {p : Program σ} {depth limit : Nat} {s t : Scheduler σ}

theorem Steady.alike (h : s.Steady p depth limit) (hst : Engine.Alike s t) :
    t.Steady p depth limit := by
  refine ⟨?_, ?_, ?_⟩
  · rw [hst.program, h.program]
  · rw [hst.stack, h.depth]
  · rw [hst.stack, h.limit]

variable {steps : List DepthStep} (hp : MovesBy DepthStep.run (Program.run p) steps)

include hp

/-- The depth after a frame that goes through is the one to which the moves of the program lead. -/
theorem foldlM_of_step (h : s.machine.program = some p) {frame : Frame}
    (hok : s.step.1 = .ok frame) :
    steps.foldlM (DepthStep.run s.stack.limit) s.stack.size = .ok s.step.2.stack.size := by
  have houtcome := hp.outcome_eq s.ready
  rcases step_of_program h with ⟨bench, hrun, hstep⟩ | ⟨fault, bench, -, hstep⟩
  · rw [hrun] at houtcome
    rw [hstep]
    exact houtcome.symm
  · rw [hstep] at hok
    cases hok

/-- What comes back to its depth once comes back again, on every rig. -/
theorem Steady.step (hreturn : steps.foldlM (DepthStep.run limit) depth = .ok depth)
    (h : s.Steady p depth limit) :
    (∃ frame, s.step.1 = .ok frame) ∧ s.step.2.Steady p depth limit := by
  have houtcome : outcome (Program.run p s.ready) = .ok depth := by
    rw [hp.outcome_eq, ← hreturn, ← h.depth, ← h.limit]
    rfl
  have hlimit : (Program.run p s.ready).2.stack.limit = limit := by
    rw [hp.limit_eq, ← h.limit]
    rfl
  rcases step_of_program h.program with ⟨bench, hrun, hstep⟩ | ⟨fault, bench, hrun, -⟩
  · rw [hrun] at houtcome hlimit
    rw [hstep]
    exact ⟨⟨_, rfl⟩, ⟨rfl, Except.ok.inj houtcome, hlimit⟩⟩
  · rw [hrun] at houtcome
    cases houtcome

end Scheduler

/-- **Faults depend on depths only.** From two benches of one depth and one ceiling a program over a
bank either runs through and leaves equal depths or fails with the same fault. And once a frame of
it has gone through and left the depth it found, no later frame of a quiet history faults, whatever
comes from outside. -/
theorem run_depends_on_depth {f : Focus σ Bank} {d : Dictionary σ} (hd : d.OfBank f)
    {tokens : List Token} {c : Compiled σ} (hc : compileTokens d tokens = .ok c) :
    (∀ b b' : Bench σ, b.stack.size = b'.stack.size → b.stack.limit = b'.stack.limit →
      (∃ m m' : Machine σ, Machine.run ⟨b, some c.program⟩ = (.ok (), m) ∧
        Machine.run ⟨b', some c.program⟩ = (.ok (), m') ∧ m.stack.size = m'.stack.size) ∨
      ∃ (fault : Fault) (m m' : Machine σ), Machine.run ⟨b, some c.program⟩ = (.error fault, m) ∧
        Machine.run ⟨b', some c.program⟩ = (.error fault, m')) ∧
    ∀ (e : Engine σ) (requests : List (Engine.Request σ)),
      e.scheduler.machine.program = some c.program → e.Quiet requests →
        ∀ before s after, e.starts requests = before ++ s :: after →
          (∃ frame, s.step.1 = .ok frame) → s.step.2.stack.size = s.stack.size →
            ∀ t ∈ after, ∃ frame, t.step.1 = .ok frame := by
  obtain ⟨steps, hp⟩ := hd.exists_movesBy hc
  refine ⟨fun b b' hsize hlimit ↦ ?_, ?_⟩
  · have houtcome := hp.eq_of_eq hsize hlimit
    rw [Machine.run, Machine.run]
    generalize Program.run c.program b = result at houtcome ⊢
    generalize Program.run c.program b' = result' at houtcome ⊢
    obtain ⟨fault | _, bench⟩ := result <;> obtain ⟨fault' | _, bench'⟩ := result'
    · cases houtcome
      exact Or.inr ⟨fault, _, _, rfl, rfl⟩
    · cases houtcome
    · cases houtcome
    · exact Or.inl ⟨_, _, rfl, rfl, Except.ok.inj houtcome⟩
  · rintro e requests hprogram hq before s after hstarts ⟨frame, hok⟩ hreturn t ht
    have hlater : ∀ {motive : Scheduler σ → Prop}, (∀ s, motive s → motive s.step.2) →
        (∀ s t, Engine.Alike s t → motive s → motive t) → motive s.step.2 → motive t := by
      intro motive hstep halike hs
      have hpairs := Engine.starts_pairwise hstep halike hq
      rw [hstarts, List.pairwise_append, List.pairwise_cons] at hpairs
      exact hpairs.2.1.1 t ht hs
    -- in a quiet history every frame has the program or, behind a fault, none
    have hkept : s.machine.program = some c.program ∨ s.machine.program = none := by
      refine Engine.starts_of_step
        (motive := fun s ↦ s.machine.program = some c.program ∨ s.machine.program = none)
        ?_ ?_ hq (Or.inl hprogram) s (by rw [hstarts]; simp)
      · intro s hs
        rcases s.step_cases with ⟨bench, -, hstep⟩ | ⟨fault, bench, -, hstep⟩ <;> rw [hstep]
        · exact hs
        · exact Or.inr rfl
      · intro s t hst hs
        rwa [hst.program]
    rcases hkept with hsome | hnone
    · have hmoves := Scheduler.foldlM_of_step hp hsome hok
      rw [hreturn] at hmoves
      have hsteady : s.Steady c.program s.stack.size s.stack.limit := ⟨hsome, rfl, rfl⟩
      have ht' := hlater (motive := Scheduler.Steady c.program s.stack.size s.stack.limit)
        (fun _ h ↦ (h.step hp hmoves).2) (fun _ _ hst h ↦ h.alike hst) (hsteady.step hp hmoves).2
      exact (ht'.step hp hmoves).1
    · have hnone' := hlater (motive := fun s ↦ s.machine.program = none)
        (fun s hs ↦ by rw [Scheduler.step_of_program_eq_none hs])
        (fun s t hst hs ↦ by rw [hst.program, hs])
        (by rw [Scheduler.step_of_program_eq_none hnone])
      exact ⟨Frame.silence, by rw [Scheduler.step_of_program_eq_none hnone']⟩

/-- A dictionary with a word of the language and one without a module. -/
def sawAndOut : Dictionary Bank :=
  Dictionary.empty.defineAll
    [("saw", .native (Native.unary Wave.saw)), (">out1", .native Builtin.outLeft)]

theorem sawAndOut_ofBank (f : Focus Bank Bank) : sawAndOut.OfBank f := by
  refine Dictionary.OfBank.defineAll Dictionary.Uses.empty ?_
  simp only [List.forall_mem_cons]
  refine ⟨.plain 1 ?_, .builtin ?_, by simp⟩
  · exact List.mem_append_left _ (.tail _ (.tail _ (.head _)))
  · simp [Builtin.entries, Builtin.rigWords]

/-- A program that takes what it works on from the stack. -/
theorem run_depends_on_depth_saw :
    sawAndOut.OfBank .whole ∧ ∃ c, compileTokens sawAndOut (tokenize ": s saw ; s >out1") = .ok c ∧
      ∀ b b' : Bench Bank, b.stack.size = b'.stack.size → b.stack.limit = b'.stack.limit →
        (∃ m m' : Machine Bank, Machine.run ⟨b, some c.program⟩ = (.ok (), m) ∧
          Machine.run ⟨b', some c.program⟩ = (.ok (), m') ∧ m.stack.size = m'.stack.size) ∨
        ∃ (fault : Fault) (m m' : Machine Bank),
          Machine.run ⟨b, some c.program⟩ = (.error fault, m) ∧
            Machine.run ⟨b', some c.program⟩ = (.error fault, m') := by
  have h : ∃ c, compileTokens sawAndOut (tokenize ": s saw ; s >out1") = .ok c := by
    rw [sawAndOut]
    generalize Native.unary Wave.saw = saw
    generalize Builtin.outLeft = out
    refine ⟨⟨[.call "s" 0 [.native "saw" saw], .native ">out1" out],
      [("s", .word 0 [.native "saw" saw])]⟩, ?_⟩
    cbv
  obtain ⟨c, h⟩ := h
  exact ⟨sawAndOut_ofBank _, c, h, (run_depends_on_depth (sawAndOut_ofBank .whole) h).1⟩

end StackSynth
