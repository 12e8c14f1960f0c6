import StackSynth.Proofs.Engine.Steady
import StackSynth.Proofs.Machine.Budget
import StackSynth.Proofs.Machine.Keeping

/-!
# How many frames a stack lasts

A program over the words of the language and of a bank has a budget unless it gets to the word that
clears the stack (`Dictionary.OfBank.exists_covers`). In an engine every frame starts from the depth
that the one before it has left, until one faults and takes the program out. So a quiet history is a
row of runs, and the budget of the program says of every frame whether it completes
(`Scheduler.InRow`).
-/

namespace StackSynth

variable {σ : Type}

/-- A program over a bank has a budget if no step that it comes down to clears the stack. -/
theorem Dictionary.OfBank.exists_covers {f : Focus σ Bank} {d : Dictionary σ} (hd : d.OfBank f)
    {tokens : List Token} {c : Compiled σ} (hc : compileTokens d tokens = .ok c)
    (hclear : ∀ name, .native name Builtin.clear ∉ Program.expand c.program) :
    ∃ b : Budget, b.Covers c.program := by
  have huses := Dictionary.Uses.program hd hc
  refine Budget.exists_covers
    (K := fun act ↦ (∃ name, Bank.Provides f (name, .native act)) ∧ act ≠ Builtin.clear) ?_ ?_
  · rintro act ⟨⟨name, hact⟩, hne⟩
    rcases hact.relative with heq | hrelative
    · cases heq
      exact absurd rfl hne
    · exact hrelative
  · refine Program.uses_of_expand fun name act hmem ↦ ⟨huses.of_mem_expand hmem, ?_⟩
    rintro rfl
    exact hclear name hmem

namespace Scheduler

/-- A frame of a row starts where the frames before it have led, or without a program if one of them
did not fit. -/
structure InRow (b : Budget) (p : Program σ) (limit depth i : Nat) (s : Scheduler σ) : Prop where
  going : (∀ j < i, b.Fits limit (depth + j * b.net)) → s.machine.program = some p ∧
    (s.stack.size : Int) = depth + i * b.net ∧ s.stack.limit = limit
  gone : ¬(∀ j < i, b.Fits limit (depth + j * b.net)) → s.machine.program = none

variable {b : Budget} {p : Program σ} {limit depth i : Nat} {s t : Scheduler σ}

theorem InRow.alike (h : s.InRow b p limit depth i) (hst : Engine.Alike s t) :
    t.InRow b p limit depth i := by
  refine ⟨fun hbefore ↦ ?_, fun hbefore ↦ ?_⟩
  · rw [hst.program, hst.stack]
    exact h.going hbefore
  · rw [hst.program]
    exact h.gone hbefore

/-- What a frame does whose predecessors have all fitted. -/
theorem InRow.step_cases (hb : b.Covers p) (h : s.InRow b p limit depth i)
    (hbefore : ∀ j < i, b.Fits limit (depth + j * b.net)) :
    (b.Fits limit (depth + i * b.net) ∧ ∃ frame, s.step.1 = .ok frame ∧
      s.step.2.machine.program = some p ∧
      (s.step.2.stack.size : Int) = depth + i * b.net + b.net ∧ s.step.2.stack.limit = limit) ∨
    (¬ b.Fits limit (depth + i * b.net) ∧ s.step.2.machine.program = none ∧
      ∃ fault, s.step.1 = .error fault ∧
        (b.need ≤ depth + i * b.net → ∃ word, fault = .overflow word limit) ∧
        (depth + i * b.net + b.peak ≤ limit → ∃ word, fault = .underflow word)) := by
  obtain ⟨hprogram, hsize, hlimit⟩ := h.going hbefore
  have hcases := hb.run_cases s.ready
  rw [show s.ready.stack = s.stack from rfl, hsize, hlimit] at hcases
  rcases step_of_program hprogram with ⟨bench, hrun, hstep⟩ | ⟨fault, bench, hrun, hstep⟩
  · rcases hcases with ⟨hfits, bench', hrun', hnet, hlimit'⟩ | ⟨-, fault, bench', hrun', -⟩ <;>
      cases hrun.symm.trans hrun'
    rw [hstep]
    exact Or.inl ⟨hfits, _, rfl, rfl, hnet, hlimit'⟩
  · rcases hcases with ⟨-, bench', hrun', -⟩ | ⟨hfits, fault', bench', hrun', hover, hunder⟩ <;>
      cases hrun.symm.trans hrun'
    rw [hstep]
    exact Or.inr ⟨hfits, rfl, fault, rfl, hover, hunder⟩

theorem InRow.step (hb : b.Covers p) (h : s.InRow b p limit depth i) :
    s.step.2.InRow b p limit depth (i + 1) := by
  have hsucc : (∀ j < i + 1, b.Fits limit (depth + j * b.net)) ↔
      (∀ j < i, b.Fits limit (depth + j * b.net)) ∧ b.Fits limit (depth + i * b.net) :=
    Nat.forall_lt_succ_right
  constructor <;> rw [hsucc]
  · rintro ⟨hbefore, hfits⟩
    rcases h.step_cases hb hbefore with ⟨-, frame, -, hprogram, hsize, hlimit⟩ | ⟨hnot, -⟩
    · refine ⟨hprogram, ?_, hlimit⟩
      rw [hsize, Int.natCast_succ, Int.add_mul, Int.one_mul, Int.add_assoc]
    · exact absurd hfits hnot
  · intro hnot
    by_cases hbefore : ∀ j < i, b.Fits limit (depth + j * b.net)
    · rcases h.step_cases hb hbefore with ⟨hfits, -⟩ | ⟨-, hprogram, -⟩
      · exact absurd ⟨hbefore, hfits⟩ hnot
      · exact hprogram
    · rw [step_of_program_eq_none (h.gone hbefore)]

/-- The budget foretells the frames of a row. -/
theorem InRow.foretells (hb : b.Covers p) (h : s.InRow b p limit depth i) :
    b.Foretells limit depth i (s.machine.program = some p ∧ ∃ frame, s.step.1 = .ok frame)
      (fun fault ↦ s.step.1 = .error fault) := by
  refine Budget.foretells ⟨?_, fun hall ↦ ?_⟩ ?_ ?_
  · rintro ⟨hprogram, frame, hok⟩
    by_cases hbefore : ∀ j < i, b.Fits limit (depth + j * b.net)
    · rcases h.step_cases hb hbefore with ⟨hfits, -⟩ | ⟨-, -, fault, herror, -⟩
      · exact fun j hj ↦ Nat.forall_lt_succ_right.mpr ⟨hbefore, hfits⟩ j (Nat.lt_succ_of_le hj)
      · cases hok.symm.trans herror
    · cases hprogram.symm.trans (h.gone hbefore)
  · have hbefore : ∀ j < i, b.Fits limit (depth + j * b.net) := fun j hj ↦ hall j (Nat.le_of_lt hj)
    rcases h.step_cases hb hbefore with ⟨-, frame, hok, -⟩ | ⟨hnot, -⟩
    · exact ⟨(h.going hbefore).1, frame, hok⟩
    · exact absurd (hall i (Nat.le_refl i)) hnot
  · intro hbefore hlow hhigh
    rcases h.step_cases hb hbefore with ⟨hfits, -⟩ | ⟨-, -, fault, herror, hover, -⟩
    · exact absurd hfits.2 (Int.not_le.mpr hhigh)
    · obtain ⟨word, rfl⟩ := hover hlow
      exact ⟨word, herror⟩
  · intro hbefore hhigh hlow
    rcases h.step_cases hb hbefore with ⟨hfits, -⟩ | ⟨-, -, fault, herror, -, hunder⟩
    · exact absurd hfits.1 (Int.not_le.mpr hlow)
    · obtain ⟨word, rfl⟩ := hunder hhigh
      exact ⟨word, herror⟩

end Scheduler

/-- **The exact stack budget.** A program over a bank that never clears the stack has a budget. A
run of it goes through exactly if the need is met and the peak has room, and it moves the depth by
the net effect. And the budget foretells which runs of a row complete and how the first that does
not faults: of runs that a machine makes one after the other, and of the frames of a quiet history.
-/
theorem stack_budget {f : Focus σ Bank} {d : Dictionary σ} (hd : d.OfBank f)
    {tokens : List Token} {c : Compiled σ} (hc : compileTokens d tokens = .ok c)
    (hclear : ∀ name, .native name Builtin.clear ∉ Program.expand c.program) :
    ∃ b : Budget,
      (∀ bench : Bench σ,
        ((Machine.run ⟨bench, some c.program⟩).1 = .ok () ↔
          b.need ≤ bench.stack.size ∧ bench.stack.size + b.peak ≤ bench.stack.limit) ∧
        ((Machine.run ⟨bench, some c.program⟩).1 = .ok () →
          ((Machine.run ⟨bench, some c.program⟩).2.stack.size : Int)
            = bench.stack.size + b.net)) ∧
      (∀ (bench : Bench σ) (i : Nat) (bench' : Bench σ),
        Program.Follows c.program bench i bench' →
          b.Foretells bench.stack.limit bench.stack.size i
            ((Machine.run ⟨bench', some c.program⟩).1 = .ok ())
            (fun fault ↦ (Machine.run ⟨bench', some c.program⟩).1 = .error fault)) ∧
      ∀ (e : Engine σ) (requests : List (Engine.Request σ)),
        e.scheduler.machine.program = some c.program → e.Quiet requests →
          ∀ i s, (e.starts requests)[i]? = some s →
            b.Foretells e.scheduler.stack.limit e.scheduler.stack.size i
              (s.machine.program = some c.program ∧ ∃ frame, s.step.1 = .ok frame)
              (fun fault ↦ s.step.1 = .error fault) := by
  obtain ⟨b, hb⟩ := hd.exists_covers hc hclear
  refine ⟨b, fun bench ↦ ?_, fun bench i bench' h ↦ hb.foretells_follows h, ?_⟩
  · simp only [Machine.run]
    have hfits : b.Fits bench.stack.limit bench.stack.size ↔
        b.need ≤ bench.stack.size ∧ bench.stack.size + b.peak ≤ bench.stack.limit := by
      rw [Budget.Fits]
      omega
    rw [← hfits]
    rcases hb.run_cases bench with ⟨h, bench', hrun, hnet, -⟩ | ⟨h, fault, bench', hrun, -⟩ <;>
      rw [hrun]
    · exact ⟨iff_of_true rfl h, fun _ ↦ hnet⟩
    · have hfault : Except.error fault ≠ Except.ok () := fun heq ↦ by cases heq
      exact ⟨iff_of_false hfault h, fun heq ↦ absurd heq hfault⟩
  · intro e requests hprogram hq i s hs
    have hstart : e.scheduler.InRow b c.program e.scheduler.stack.limit e.scheduler.stack.size 0 :=
      ⟨fun _ ↦ ⟨hprogram, by simp, rfl⟩, fun h ↦ absurd (fun j hj ↦ absurd hj (Nat.not_lt_zero j)) h⟩
    have hrow := Engine.counted_starts (fun _ _ h ↦ h.step hb) (fun _ _ _ hst h ↦ h.alike hst) hq
      hstart hs
    rw [Nat.zero_add] at hrow
    exact hrow.foretells hb

/-- A word that replaces the value on top, and one that takes it. -/
theorem stack_budget_saw :
    sawAndOut.OfBank .whole ∧ ∃ c, compileTokens sawAndOut (tokenize ": s saw ; s >out1") = .ok c ∧
      (∀ name, .native name Builtin.clear ∉ Program.expand c.program) ∧
      ∃ b : Budget, ∀ bench : Bench Bank,
        ((Machine.run ⟨bench, some c.program⟩).1 = .ok () ↔
          b.need ≤ bench.stack.size ∧ bench.stack.size + b.peak ≤ bench.stack.limit) ∧
        ((Machine.run ⟨bench, some c.program⟩).1 = .ok () →
          ((Machine.run ⟨bench, some c.program⟩).2.stack.size : Int)
            = bench.stack.size + b.net) := by
  have h : ∃ c, compileTokens sawAndOut (tokenize ": s saw ; s >out1") = .ok c ∧
      Program.expand c.program
        = [.native "saw" (Native.unary Wave.saw), .native ">out1" Builtin.outLeft] := by
    rw [sawAndOut]
    generalize Native.unary Wave.saw = saw
    generalize Builtin.outLeft = out
    refine ⟨⟨[.call "s" 0 [.native "saw" saw], .native ">out1" out],
      [("s", .word 0 [.native "saw" saw])]⟩, ?_, rfl⟩
    cbv
  obtain ⟨c, hc, hexpand⟩ := h
  have hclear : ∀ name, .native name Builtin.clear ∉ Program.expand c.program := by
    -- on an empty stack both natives underflow, and a clear does not
    obtain ⟨bench, hempty⟩ : ∃ bench : Bench Bank, bench.stack.size = 0 :=
      ⟨⟨.empty, { modules := Bank.new {} 48000 }⟩, rfl⟩
    have hne : ∀ {act : Native Bank} {moves}, Native.Moves act (.take 1 :: moves) →
        act ≠ Builtin.clear := by
      rintro act moves h rfl
      have hboth := (h.outcome_eq bench).symm.trans (Builtin.moves_clear.outcome_eq bench)
      rw [hempty] at hboth
      cases hboth
    intro name hmem
    rw [hexpand, List.mem_cons, List.mem_singleton] at hmem
    rcases hmem with heq | heq
    · exact hne (Native.moves_unary Wave.saw) (Primitive.native.inj heq).2.symm
    · exact hne Builtin.moves_outLeft (Primitive.native.inj heq).2.symm
  obtain ⟨b, hb, -⟩ := stack_budget (sawAndOut_ofBank .whole) hc hclear
  exact ⟨sawAndOut_ofBank _, c, hc, hclear, b, hb⟩

end StackSynth
