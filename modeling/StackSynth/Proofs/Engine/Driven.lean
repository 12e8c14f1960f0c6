import StackSynth.Proofs.Engine.Schedule

/-!
# A part of the modules that tickers drive

Some of the module state is no business of programs: natives may read it, but only tickers change
it. Let a view show such a part, and let all tickers together change it as `turn` says. Then every
step of every run sees the view as the tickers of its frame have left it, each frame changes it by
one turn, whether its run faults or not, and a history changes it by as many turns as it asks for
frames (`Engine.Driven.after`).

The view may also count: a ticker that counts its own calls counts the frames.
-/

namespace StackSynth

variable {σ τ : Type} {view : σ → τ} {turn : τ → τ}

/-- The tickers change the view as `turn` says, and the installed program keeps it. -/
structure Scheduler.Driven (view : σ → τ) (turn : τ → τ) (s : Scheduler σ) : Prop where
  program : ∀ p, s.machine.program = some p →
    Program.Uses (Keeps fun q ↦ view q.modules) p
  tick : ∀ p : Rig σ, view (s.tickers.foldl (fun p t ↦ t p) p).modules = turn (view p.modules)

namespace Scheduler.Driven

variable {s : Scheduler σ}

theorem ready (h : s.Driven view turn) :
    view s.ready.rig.modules = turn (view s.rig.modules) := h.tick s.rig

/-- Every step of the run sees what the tickers have left. -/
theorem visits (h : s.Driven view turn) :
    ∀ visit ∈ s.visits, view visit.2.rig.modules = turn (view s.rig.modules) := by
  rw [← h.ready, Scheduler.visits]
  cases hprogram : s.machine.program with
  | none => simp
  | some p => exact Program.visits_of_keeps (h.program p hprogram) s.ready

theorem step (h : s.Driven view turn) :
    s.step.2.Driven view turn ∧ view s.step.2.rig.modules = turn (view s.rig.modules) := by
  have hprogram : ∀ p, s.step.2.machine.program = some p → s.machine.program = some p :=
    fun p hp ↦ program_of_later (n := 1) hp
  refine ⟨⟨fun p hp ↦ h.program p (hprogram p hp), ?_⟩, ?_⟩
  · rw [tickers_step]
    exact h.tick
  rw [← h.ready]
  cases hp : s.machine.program with
  | none =>
    rw [step_of_program_eq_none hp]
    rfl
  | some p =>
    -- neither the run nor what a fault leads to changes the view
    have hkeeps := Program.keeps_run (h.program p hp) s.ready
    rcases step_of_program hp with ⟨bench, hrun, hstep⟩ | ⟨fault, bench, hrun, hstep⟩
    · rw [hrun] at hkeeps
      rw [hstep]
      exact hkeeps
    · rw [hrun] at hkeeps
      rw [hstep]
      exact hkeeps

theorem later (h : s.Driven view turn) (n : Nat) :
    (s.later n).Driven view turn ∧
      view (s.later n).rig.modules = turn^[n] (view s.rig.modules) := by
  induction n with
  | zero => exact ⟨h, rfl⟩
  | succ n ih =>
    obtain ⟨hlater, hview⟩ := ih
    rw [later_succ, Function.iterate_succ_apply', ← hview]
    exact hlater.step

end Scheduler.Driven

namespace Engine

/-- The tickers change the view as `turn` says, and neither the installed program nor any that can
be built changes it. -/
structure Driven (view : σ → τ) (turn : τ → τ) (e : Engine σ) : Prop where
  uses : e.Uses (Keeps fun p ↦ view p.modules)
  tick : ∀ p : Rig σ,
    view (e.scheduler.tickers.foldl (fun p t ↦ t p) p).modules = turn (view p.modules)

theorem modules_registerTicker (e : Engine σ) (t : Ticker σ) :
    (e.registerTicker t).modules = e.modules := rfl

/-- The request does nothing to the view and brings in nothing that does. -/
def Request.Keeps (view : σ → τ) : Request σ → Prop
  | .register _ act => StackSynth.Keeps (fun p ↦ view p.modules) act
  | .registerTicker t => ∀ p : Rig σ, view (t p).modules = view p.modules
  | .onModules f => ∀ modules, view (f modules) = view modules
  | .registerConstant _ _ | .build _ | .buildBytes _ | .setPlaying _ | .toggle
  | .processBlock _ _ | .drainFaults => True

namespace Driven

variable {e : Engine σ}

theorem scheduler (h : e.Driven view turn) : e.scheduler.Driven view turn :=
  ⟨h.uses.program, h.tick⟩

/-- The built-in words do nothing to the modules, and a new engine has no tickers. -/
theorem new (spec : EngineSpec) (modules : σ) : (Engine.new spec modules).Driven view id where
  uses := by
    refine .new (Builtin.uses_dictionary .unary .binary ?_) spec modules
    rw [List.forall_mem_append]
    refine ⟨Builtin.keeps_stackWords, ?_⟩
    simp only [Builtin.rigWords, List.forall_mem_cons]
    exact ⟨Builtin.keeps_playing, Builtin.keeps_outLeft fun _ _ ↦ rfl,
      Builtin.keeps_outRight fun _ _ ↦ rfl, by simp⟩
  tick _ := rfl

theorem onModules {α : Type} (h : e.Driven view turn) (f : σ → α × σ) :
    (e.onModules f).2.Driven view turn :=
  ⟨⟨h.uses.dictionary, h.uses.program⟩, h.tick⟩

theorem registerTicker (h : e.Driven view turn) {turn' : τ → τ} {t : Ticker σ}
    (ht : ∀ p : Rig σ, view (t p).modules = turn' (view p.modules)) :
    (e.registerTicker t).Driven view (turn' ∘ turn) := by
  refine ⟨⟨h.uses.dictionary, h.uses.program⟩, fun p ↦ ?_⟩
  change view ((e.scheduler.tickers.push t).foldl (fun p t ↦ t p) p).modules = _
  rw [Array.foldl_push, ht, h.tick]
  rfl

theorem perform (h : e.Driven view turn) {r : Request σ} (hr : r.Keeps view) :
    (e.perform r).2.Driven view turn ∧
      view (e.perform r).2.modules = turn^[r.room] (view e.modules) := by
  have huses : (e.perform r).2.Uses (StackSynth.Keeps fun p ↦ view p.modules) := by
    refine h.uses.perform ?_
    rintro name act rfl
    exact hr
  -- what leaves the tickers and the view where they are
  have hsame : ∀ {e' : Engine σ}, e'.Uses (StackSynth.Keeps fun p ↦ view p.modules) →
      e'.scheduler.tickers = e.scheduler.tickers → view e'.modules = view e.modules →
      e'.Driven view turn ∧ view e'.modules = view e.modules := by
    intro e' huses' htickers hview
    refine ⟨⟨huses', ?_⟩, hview⟩
    rw [htickers]
    exact h.tick
  have hbuilt : r.IsBuild → (e.perform r).2.scheduler.tickers = e.scheduler.tickers ∧
      view (e.perform r).2.modules = view e.modules :=
    built_induction (motive := fun e' ↦ e'.scheduler.tickers = e.scheduler.tickers ∧
      view e'.modules = view e.modules) ⟨rfl, rfl⟩ fun _ _ _ ↦ ⟨rfl, rfl⟩
  cases r with
  | registerTicker t =>
    have hdriven : (e.registerTicker t).Driven view (id ∘ turn) := h.registerTicker hr
    exact ⟨hdriven, rfl⟩
  | onModules f => exact hsame huses rfl (hr e.modules)
  | build | buildBytes =>
    obtain ⟨htickers, hview⟩ := hbuilt trivial
    exact hsame huses htickers hview
  | processBlock left right =>
    obtain ⟨hlater, hview⟩ := h.scheduler.later (room left right)
    have hscheduler := e.scheduler_processBlock left right
    rw [← hscheduler] at hlater hview
    exact ⟨⟨huses, hlater.tick⟩, hview⟩
  | register | registerConstant | setPlaying | toggle | drainFaults => exact hsame huses rfl rfl

theorem after (h : e.Driven view turn) {requests : List (Request σ)}
    (hrequests : ∀ r ∈ requests, r.Keeps view) :
    (e.after requests).Driven view turn ∧
      view (e.after requests).modules = turn^[rendered requests] (view e.modules) := by
  induction requests generalizing e with
  | nil => exact ⟨h, rfl⟩
  | cons r requests ih =>
    rw [List.forall_mem_cons] at hrequests
    obtain ⟨hdriven, hview⟩ := h.perform hrequests.1
    rw [after_cons, rendered_cons, Nat.add_comm, Function.iterate_add_apply, ← hview]
    exact ih hdriven hrequests.2

end Driven

end Engine

end StackSynth
