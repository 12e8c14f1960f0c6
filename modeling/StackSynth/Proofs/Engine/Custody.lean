import StackSynth.Proofs.Engine.Silence

/-!
# The custody of programs

Giving up a program frees memory, which the audio side has no time for. So a program that faults is
parked by the frame that it faulted in, and only a build gives programs up: the one that it replaces
and the one that is parked (`Scheduler.exchange`).

There is one parking place, and a frame parks without looking. Nothing is ever overwritten there,
because the programs that a scheduler holds are never more than one (`Scheduler.held`): a frame that
parks empties the machine, and a build that fills the machine empties the parking place. So what is
given up, followed by what is held, is what was brought in, program by program and in order
(`Engine.handed_append_held`).
-/

namespace StackSynth

variable {σ : Type}

/-! ## Frames -/

namespace Scheduler

variable {s : Scheduler σ}

/-- The programs of a scheduler, the installed one before the parked one. -/
def held (s : Scheduler σ) : List (Program σ) := s.machine.program.toList ++ s.retired.toList

/-- A frame that faults parks the installed program. -/
theorem step_of_fault {fault : Fault} (h : s.fault? 0 = some fault) :
    ∃ p, s.machine.program = some p ∧ s.step.2.machine.program = none ∧
      s.step.2.retired = some p := by
  have herror : s.step.1 = .error fault := fault?_eq_some_iff.mp h
  cases hprogram : s.machine.program with
  | none =>
    rw [step_of_program_eq_none hprogram] at herror
    cases herror
  | some p =>
    rcases step_of_program hprogram with ⟨bench, -, hstep⟩ | ⟨fault', bench, -, hstep⟩
    · rw [hstep] at herror
      cases herror
    · refine ⟨p, rfl, ?_⟩
      rw [hstep]
      exact ⟨rfl, rfl⟩

/-- A frame that goes through leaves the programs where they are. -/
theorem step_of_no_fault (h : s.fault? 0 = none) :
    s.step.2.machine.program = s.machine.program ∧ s.step.2.retired = s.retired := by
  obtain ⟨frame, hok⟩ := fault?_eq_none_iff.mp h
  rw [later_zero] at hok
  rcases s.step_cases with ⟨bench, -, hstep⟩ | ⟨fault, bench, -, hstep⟩
  · rw [hstep]
    exact ⟨rfl, rfl⟩
  · rw [hstep] at hok
    cases hok

/-- Where one program is held at most, nothing is parked beside an installed one. -/
theorem retired_eq_none (h : s.held.length ≤ 1) {p : Program σ} (hp : s.machine.program = some p) :
    s.retired = none := by
  rw [held, hp] at h
  cases hretired : s.retired with
  | none => rfl
  | some q =>
    rw [hretired] at h
    exact absurd h (by simp)

theorem held_step (h : s.held.length ≤ 1) : s.step.2.held = s.held := by
  cases hfault : s.fault? 0 with
  | none =>
    obtain ⟨hprogram, hretired⟩ := step_of_no_fault hfault
    rw [held, hprogram, hretired, held]
  | some fault =>
    obtain ⟨p, hp, hprogram, hretired⟩ := step_of_fault hfault
    rw [held, hprogram, hretired, held, hp, retired_eq_none h hp]
    rfl

/-- Frames hold on to what is held. -/
theorem held_later (h : s.held.length ≤ 1) (n : Nat) : (s.later n).held = s.held := by
  induction n with
  | zero => rfl
  | succ n ih => rw [later_succ, held_step (by rwa [ih]), ih]

/-- What a frame does with the programs. -/
structure Guards (s : Scheduler σ) : Prop where
  /-- The installed and the parked program are not there at once. -/
  single : s.machine.program = none ∨ s.retired = none
  /-- A frame that goes through leaves the programs where they are. -/
  stays : s.fault? 0 = none →
    s.step.2.machine.program = s.machine.program ∧ s.step.2.retired = s.retired
  /-- A frame that faults moves the installed program to the parking place, which is empty. -/
  parks : ∀ fault, s.fault? 0 = some fault → ∃ p, s.machine.program = some p ∧ s.retired = none ∧
    s.step.2.machine.program = none ∧ s.step.2.retired = some p

theorem guards (h : s.held.length ≤ 1) : s.Guards where
  single := by
    cases hp : s.machine.program with
    | none => exact Or.inl rfl
    | some p => exact Or.inr (retired_eq_none h hp)
  stays := step_of_no_fault
  parks fault hfault := by
    obtain ⟨p, hp, hstep⟩ := step_of_fault hfault
    exact ⟨p, hp, retired_eq_none h hp, hstep⟩

end Scheduler

/-! ## Requests -/

namespace Engine

/-- The program that a request brings in, which is the one that a build with success installs. -/
def brought (e : Engine σ) (r : Request σ) : List (Program σ) :=
  match (e.perform r).1.report? with
  | some _ => (e.perform r).2.scheduler.machine.program.toList
  | none => []

/-- The programs that a request gives up for the one that it brings in: the one that is replaced and
the parked one. -/
def handed (e : Engine σ) (r : Request σ) : List (Program σ) :=
  (e.brought r).flatMap fun p ↦
    (e.scheduler.exchange p).1.1.toList ++ (e.scheduler.exchange p).1.2.toList

variable {e : Engine σ}

theorem brought_of_report?_eq_none {r : Request σ} (h : (e.perform r).1.report? = none) :
    e.brought r = [] := by
  rw [brought, h]

/-- A build that succeeds exchanges what is held for its program; every other request brings nothing
in, and what is held is up to frames. -/
theorem perform_programs (e : Engine σ) (r : Request σ) :
    (∃ p, e.brought r = [p] ∧ (e.perform r).2.scheduler = (e.scheduler.exchange p).2) ∨
      (e.perform r).1.report? = none ∧ ((∃ n, (e.perform r).2.scheduler = e.scheduler.later n) ∨
        (e.perform r).2.scheduler.held = e.scheduler.held) := by
  by_cases hr : r.IsBuild
  · rcases e.perform_of_isBuild hr with ⟨error, heq⟩ | ⟨tokens, c, -, heq⟩
    · rw [heq]
      exact Or.inr ⟨rfl, Or.inr rfl⟩
    · refine Or.inl ⟨c.program, ?_⟩
      rw [brought, heq]
      exact ⟨rfl, rfl⟩
  · cases r with
    | build | buildBytes => exact absurd trivial hr
    | processBlock left right =>
      exact Or.inr ⟨rfl, Or.inl ⟨room left right, scheduler_processBlock e left right⟩⟩
    | _ => exact Or.inr ⟨rfl, Or.inr rfl⟩

/-- What a build with success gives up is all that was held. -/
theorem handed_of_brought {r : Request σ} {p : Program σ} (h : e.brought r = [p]) :
    e.handed r = e.scheduler.held := by
  rw [handed, h, List.flatMap_singleton]
  rfl

/-- What a request gives up, followed by what is held behind it, is what was held and what it brings
in. -/
theorem handed_append_held_perform (h : e.scheduler.held.length ≤ 1) (r : Request σ) :
    e.handed r ++ (e.perform r).2.scheduler.held = e.scheduler.held ++ e.brought r ∧
      (e.perform r).2.scheduler.held.length ≤ 1 := by
  rcases e.perform_programs r with ⟨p, hp, hscheduler⟩ | ⟨hreport, hframes⟩
  · rw [handed_of_brought hp, hp, hscheduler]
    exact ⟨rfl, Nat.le_refl 1⟩
  · have hheld : (e.perform r).2.scheduler.held = e.scheduler.held := by
      rcases hframes with ⟨n, hn⟩ | hheld
      · rw [hn, Scheduler.held_later h]
      · exact hheld
    rw [handed, brought_of_report?_eq_none hreport, hheld]
    exact ⟨by simp, h⟩

/-! ## Histories -/

/-- What the requests of a history yield, one after the other. -/
def yields {α : Type} (f : Engine σ → Request σ → List α) (e : Engine σ) :
    List (Request σ) → List α
  | [] => []
  | r :: requests => f e r ++ (e.perform r).2.yields f requests

theorem yields_concat {α : Type} (f : Engine σ → Request σ → List α) (e : Engine σ)
    (requests : List (Request σ)) (r : Request σ) :
    e.yields f (requests ++ [r]) = e.yields f requests ++ f (e.after requests) r := by
  induction requests generalizing e with
  | nil => simp [yields]
  | cons first requests ih =>
    rw [List.cons_append, yields, ih, yields, List.append_assoc, after_cons]

/-- What is given up, followed by what is held, is what was held at the start and what was brought
in. -/
theorem handed_append_held (h : e.scheduler.held.length ≤ 1) (requests : List (Request σ)) :
    e.yields handed requests ++ (e.after requests).scheduler.held
        = e.scheduler.held ++ e.yields brought requests ∧
      (e.after requests).scheduler.held.length ≤ 1 := by
  induction requests generalizing e with
  | nil => exact ⟨by simp [yields], h⟩
  | cons r requests ih =>
    obtain ⟨hfirst, hsingle⟩ := handed_append_held_perform h r
    obtain ⟨hrest, hlast⟩ := ih hsingle
    refine ⟨?_, hlast⟩
    calc e.yields handed (r :: requests) ++ (e.after (r :: requests)).scheduler.held
        = e.handed r ++ ((e.perform r).2.yields handed requests
            ++ ((e.perform r).2.after requests).scheduler.held) := List.append_assoc ..
      _ = (e.handed r ++ (e.perform r).2.scheduler.held)
            ++ (e.perform r).2.yields brought requests := by
          rw [hrest, List.append_assoc]
      _ = e.scheduler.held ++ e.yields brought (r :: requests) := by
          rw [hfirst, List.append_assoc, yields]

/-- **The audio side gives up no program.** After every history, a frame finds one program at most,
installed or parked; it leaves it there, or faults and moves it from the machine to the parking
place, which is empty, and so a block holds on to what is held. The programs that a history brought
in were given up, each once and in order, except for the last one if it is still held; and a build
that succeeds gives up whatever was brought in before it and was not given up yet. -/
theorem programs_in_custody (spec : EngineSpec) (modules : σ) (requests : List (Request σ)) :
    (∀ k, (((new spec modules).after requests).scheduler.later k).Guards) ∧
      (∀ left right,
        (((new spec modules).after requests).perform (.processBlock left right)).2.scheduler.held
          = ((new spec modules).after requests).scheduler.held) ∧
      ((new spec modules).yields handed requests
          ++ ((new spec modules).after requests).scheduler.held
        = (new spec modules).yields brought requests ∧
        ((new spec modules).after requests).scheduler.held.length ≤ 1) ∧
      ∀ r report, (((new spec modules).after requests).perform r).1.report? = some report →
        (new spec modules).yields handed (requests ++ [r])
          = (new spec modules).yields brought requests := by
  have hcustody := handed_append_held (e := new spec modules) (Nat.zero_le 1) requests
  refine ⟨fun k ↦ ?_, fun left right ↦ ?_, hcustody, fun r report hr ↦ ?_⟩
  · exact Scheduler.guards (by rw [Scheduler.held_later hcustody.2]; exact hcustody.2)
  · rw [scheduler_processBlock, Scheduler.held_later hcustody.2]
  · rcases ((new spec modules).after requests).perform_programs r with ⟨p, hp, -⟩ | ⟨hnone, -⟩
    · rw [yields_concat, handed_of_brought hp, hcustody.1]
      rfl
    · rw [hnone] at hr
      cases hr

/-- A history in which a program faults at once and is parked. -/
def parking : List (Request Unit) := dropping ++ [.processBlock #[.half] #[.half]]

theorem brought_parking : (new {} ()).yields brought parking = [[.native "drop" Builtin.drop]] := by
  have hlookup : ((new {} ()).register "drop" Builtin.drop).dictionary.lookup "drop"
      = some (.native (Builtin.drop : Native Unit)) := by
    rw [register, define, Dictionary.lookup_define, if_pos rfl]
  have hbuild : ((new {} ()).register "drop" Builtin.drop).brought (.build "drop")
      = [[.native "drop" Builtin.drop]] := by
    rw [brought, perform_build_drop hlookup]
    rfl
  rw [parking, yields_concat, brought_of_report?_eq_none (r := .processBlock _ _) rfl, dropping,
    yields, yields, yields, brought_of_report?_eq_none (r := .register _ _) rfl]
  simp only [List.append_nil, List.nil_append]
  exact hbuild

/-- The frame parks the program, and the next build gives it up and nothing else. -/
theorem programs_in_custody_parking :
    ((new {} ()).after dropping).scheduler.fault? 0 = some (.underflow "drop") ∧
      ((new {} ()).after dropping).scheduler.Guards ∧
      (((new {} ()).after parking).perform (.build "drop")).1.report? = some ⟨1, []⟩ ∧
      (new {} ()).yields handed (parking ++ [.build "drop"])
        = [[.native "drop" Builtin.drop]] := by
  have hlookup : ((new {} ()).after parking).dictionary.lookup "drop"
      = some (.native (Builtin.drop : Native Unit)) := by
    have hdefined : ((new {} ()).after dropping).dictionary.lookup "drop"
        = some (.native (Builtin.drop : Native Unit)) := by
      rw [after_dropping, installed, Dictionary.lookup_commit]
      exact (Dictionary.lookup_define _ _ _ _).trans (if_pos rfl)
    have hparking : (new {} ()).after parking
        = (((new {} ()).after dropping).perform (.processBlock #[.half] #[.half])).2 := by
      rw [parking, after, List.foldl_append]
      rfl
    rw [hparking, perform_processBlock]
    exact hdefined
  have hreport :
      (((new {} ()).after parking).perform (.build "drop")).1.report? = some ⟨1, []⟩ := by
    rw [perform_build_drop hlookup]
    rfl
  refine ⟨?_, (programs_in_custody {} () dropping).1 0, hreport, ?_⟩
  · rw [after_dropping]
    rfl
  · rw [(programs_in_custody {} () parking).2.2.2 _ _ hreport, brought_parking]

end Engine

end StackSynth
