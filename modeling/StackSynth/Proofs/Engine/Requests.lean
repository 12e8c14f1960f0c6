import StackSynth.Engine.Basic

/-!
# Histories of an engine

Everything that can be asked of an engine is a `Request`: the control operations, the blocks that
the audio side asks for, and reading the faults. A history is a list of requests to a new engine, in
the order in which the engine gets to them, so what holds of a new engine and is kept by every
request holds after every history (`Engine.after_induction`).

## What a request can do

A frame either leaves the programs where they are or takes the installed one out and parks it
(`Scheduler.step_cases`), and a build that succeeds leaves the engine as `Engine.installed` says
(`Engine.build_eq_ok_iff`). Proofs about histories go through these and not through the code.
-/

namespace StackSynth

variable {σ : Type}

/-! ## Frames -/

namespace Scheduler

/-- The bench on which the program of a frame runs. -/
def ready (s : Scheduler σ) : Bench σ :=
  ⟨s.stack, (s.tickers.foldl (fun p t ↦ t p) s.rig).silence⟩

theorem tick_silence (s : Scheduler σ) :
    s.tick.mapRig Rig.silence = ⟨⟨s.ready, s.machine.program⟩, s.tickers, s.retired⟩ := rfl

theorem step_of_run_ok {s : Scheduler σ} {machine : Machine σ}
    (h : Machine.run ⟨s.ready, s.machine.program⟩ = (.ok (), machine)) :
    s.step = (.ok (machine.bench.rig.left, machine.bench.rig.right),
      ⟨machine, s.tickers, s.retired⟩) := by
  rw [step, tick_silence]
  simp only [h]

theorem step_of_run_error {s : Scheduler σ} {fault : Fault} {machine : Machine σ}
    (h : Machine.run ⟨s.ready, s.machine.program⟩ = (.error fault, machine)) :
    s.step = (.error fault, retire ⟨machine, s.tickers, s.retired⟩) := by
  rw [step, tick_silence]
  simp only [h]

/-- What a frame can do: its run goes through, or faults and takes the program out. -/
theorem step_cases (s : Scheduler σ) :
    (∃ bench, Machine.run ⟨s.ready, s.machine.program⟩ = (.ok (), ⟨bench, s.machine.program⟩) ∧
      s.step = (.ok (bench.rig.left, bench.rig.right),
        ⟨⟨bench, s.machine.program⟩, s.tickers, s.retired⟩)) ∨
    ∃ fault bench,
      Machine.run ⟨s.ready, s.machine.program⟩ = (.error fault, ⟨bench, s.machine.program⟩) ∧
      s.step = (.error fault, ⟨⟨⟨bench.stack.clear, bench.rig.silence⟩, none⟩, s.tickers,
        s.machine.program <|> s.retired⟩) := by
  -- a run leaves the program where it is
  obtain ⟨result, bench, hrun⟩ : ∃ result bench,
      Machine.run ⟨s.ready, s.machine.program⟩ = (result, ⟨bench, s.machine.program⟩) := by
    cases s.machine.program with
    | none => exact ⟨_, _, rfl⟩
    | some p => exact ⟨_, _, rfl⟩
  cases result with
  | ok => exact Or.inl ⟨bench, hrun, step_of_run_ok hrun⟩
  | error fault => exact Or.inr ⟨fault, bench, hrun, step_of_run_error hrun⟩

end Scheduler

namespace Rendering

/-- What holds before a rendering and is kept by every frame holds after it. -/
theorem frames_induction {motive : Scheduler σ → Prop} {s : Scheduler σ} (start : motive s)
    (step : ∀ s, motive s → motive s.step.2) (n : Nat) : motive (frames s n).scheduler := by
  induction n with
  | zero => exact start
  | succ n ih =>
    have hframe : (frames s (n + 1)).scheduler = (frames s n).scheduler.step.2 := by
      change (frame (frames s n)).scheduler = _
      rw [frame]
      rcases (frames s n).scheduler.step with ⟨_ | _, _⟩ <;> rfl
    rw [hframe]
    exact step _ ih

end Rendering

/-! ## Requests -/

namespace Engine

/-- What can be asked of an engine. -/
inductive Request (σ : Type) where
  /-- Let a name stand for a native. -/
  | register (name : String) (act : Native σ)
  /-- Let a name stand for a constant. -/
  | registerConstant (name : String) (value : Float)
  /-- Add a ticker. -/
  | registerTicker (t : Ticker σ)
  /-- Build a text. -/
  | build (source : String)
  /-- Build bytes that encode a text. -/
  | buildBytes (source : List UInt8)
  /-- Start or stop the transport. -/
  | setPlaying (playing : Bool)
  /-- Flip the transport. -/
  | toggle
  /-- Change the state of the modules from outside. -/
  | onModules (f : σ → σ)
  /-- Fill a pair of buffers. -/
  | processBlock (left right : Array Sample)
  /-- Take the faults that no one has read. -/
  | drainFaults

/-- What an engine answers. -/
inductive Reply where
  /-- Nothing to say. -/
  | done
  /-- What came of a build. -/
  | built (result : Except CompileError BuildReport)
  /-- The new state of the transport. -/
  | playing (playing : Bool)
  /-- A block and its fault. -/
  | block (buffers : Array Sample × Array Sample) (fault : Option Fault)
  /-- The faults that waited. -/
  | faults (waiting : Array Fault)

/-- What came of a build, and the engine after it. A build that fails leaves the engine alone. -/
def built (e : Engine σ) : Except CompileError (BuildReport × Engine σ) → Reply × Engine σ
  | .ok (report, e') => (.built (.ok report), e')
  | .error error => (.built (.error error), e)

/-- Does what is asked. -/
def perform (e : Engine σ) : Request σ → Reply × Engine σ
  | .register name act => (.done, e.register name act)
  | .registerConstant name value => (.done, e.registerConstant name value)
  | .registerTicker t => (.done, e.registerTicker t)
  | .build source => e.built (e.build source)
  | .buildBytes source => e.built (e.buildBytes source)
  | .setPlaying playing => (.done, e.setPlaying playing)
  | .toggle => (.playing e.toggle.1, e.toggle.2)
  | .onModules f => (.done, (e.onModules fun modules ↦ ((), f modules)).2)
  | .processBlock left right =>
    (.block (e.processBlock left right).1 (e.processBlock left right).2.1,
      (e.processBlock left right).2.2)
  | .drainFaults => (.faults e.drainFaults.1, e.drainFaults.2)

/-- The engine after some requests, the first of them first. -/
def after (e : Engine σ) (requests : List (Request σ)) : Engine σ :=
  requests.foldl (fun e r ↦ (e.perform r).2) e

/-- What holds at the start and is kept by every request of a history holds after it. -/
theorem after_induction_of_mem {motive : Engine σ → Prop} {e : Engine σ} (start : motive e)
    {requests : List (Request σ)}
    (perform : ∀ r ∈ requests, ∀ e, motive e → motive (e.perform r).2) :
    motive (e.after requests) := by
  induction requests generalizing e with
  | nil => exact start
  | cons r requests ih =>
    rw [List.forall_mem_cons] at perform
    exact ih (perform.1 e start) perform.2

/-- What holds at the start and is kept by every request holds after every history. -/
theorem after_induction {motive : Engine σ → Prop} {e : Engine σ} (start : motive e)
    (perform : ∀ e r, motive e → motive (e.perform r).2) (requests : List (Request σ)) :
    motive (e.after requests) :=
  after_induction_of_mem start fun r _ e ↦ perform e r

/-! ## Builds -/

/-- The engine with a program installed, its definitions committed, and no program parked. -/
def installed (e : Engine σ) (c : Compiled σ) : Engine σ :=
  { e with
    dictionary := e.dictionary.commit c
    scheduler := ⟨⟨e.scheduler.machine.bench, some c.program⟩, e.scheduler.tickers, none⟩ }

theorem build_eq_ok_iff {e e' : Engine σ} {source : String} {report : BuildReport} :
    e.build source = .ok (report, e') ↔ ∃ c, compile e.dictionary source = .ok c ∧
      report = ⟨c.program.length, c.names⟩ ∧ e' = e.installed c := by
  rw [build]
  cases compile e.dictionary source with
  | error error =>
    constructor
    · intro h; cases h
    · rintro ⟨c, h, -⟩; cases h
  | ok c =>
    constructor
    · intro h
      cases h
      exact ⟨c, rfl, rfl, rfl⟩
    · rintro ⟨c', h, rfl, rfl⟩
      cases h
      rfl

theorem buildBytes_eq_ok_iff {e e' : Engine σ} {source : List UInt8} {report : BuildReport} :
    e.buildBytes source = .ok (report, e') ↔
      ∃ text, Utf8.decode source = .ok text ∧ e.build text = .ok (report, e') := by
  rw [buildBytes]
  cases Utf8.decode source with
  | error error =>
    constructor
    · intro h; cases h
    · rintro ⟨text, h, -⟩; cases h
  | ok text =>
    constructor
    · intro h; exact ⟨text, rfl, h⟩
    · rintro ⟨text', h, h'⟩; cases h; exact h'

/-- A request to build a text or bytes that encode one. -/
def Request.IsBuild : Request σ → Prop
  | .build _ | .buildBytes _ => True
  | .register _ _ | .registerConstant _ _ | .registerTicker _ | .setPlaying _ | .toggle
  | .onModules _ | .processBlock _ _ | .drainFaults => False

/-- A build fails and leaves the engine alone, or it installs what compiled. -/
theorem perform_of_isBuild (e : Engine σ) {r : Request σ} (hr : r.IsBuild) :
    (∃ error, e.perform r = (.built (.error error), e)) ∨
      ∃ tokens c, compileTokens e.dictionary tokens = .ok c ∧
        e.perform r = (.built (.ok ⟨c.program.length, c.names⟩), e.installed c) := by
  have key : ∀ result : Except CompileError (BuildReport × Engine σ),
      (∀ report e', result = .ok (report, e') → ∃ source, e.build source = .ok (report, e')) →
      (∃ error, e.built result = (.built (.error error), e)) ∨
        ∃ tokens c, compileTokens e.dictionary tokens = .ok c ∧
          e.built result = (.built (.ok ⟨c.program.length, c.names⟩), e.installed c) := by
    intro result hsource
    cases result with
    | error error => exact Or.inl ⟨error, rfl⟩
    | ok value =>
      obtain ⟨report, e'⟩ := value
      obtain ⟨source, hbuild⟩ := hsource report e' rfl
      obtain ⟨c, hc, rfl, rfl⟩ := build_eq_ok_iff.mp hbuild
      exact Or.inr ⟨tokenize source, c, hc, rfl⟩
  cases r with
  | build source => exact key _ fun report e' h ↦ ⟨source, h⟩
  | buildBytes source =>
    refine key _ fun report e' h ↦ ?_
    obtain ⟨text, -, htext⟩ := buildBytes_eq_ok_iff.mp h
    exact ⟨text, htext⟩
  | _ => exact hr.elim

/-- What holds of an engine and of whatever it may install holds behind a build. -/
theorem built_induction {motive : Engine σ → Prop} {e : Engine σ} (start : motive e)
    (install : ∀ tokens c, compileTokens e.dictionary tokens = .ok c → motive (e.installed c))
    {r : Request σ} (hr : r.IsBuild) : motive (e.perform r).2 := by
  rcases e.perform_of_isBuild hr with ⟨error, heq⟩ | ⟨tokens, c, hc, heq⟩
  · rw [heq]
    exact start
  · rw [heq]
    exact install tokens c hc

end Engine

end StackSynth
