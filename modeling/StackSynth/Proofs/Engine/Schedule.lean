import Mathlib.Algebra.Ring.Nat
import StackSynth.Proofs.Engine.Natives
import StackSynth.Proofs.Machine.Outputs

/-!
# The schedule of frames

A frame is a list of turns taken one after the other: every ticker in the order of registration,
then the silencing of the output registers, then the program if there is one
(`Scheduler.step_eq_concluded`). Nothing else happens in a frame, and a fault, which cuts the turn
of the program short, comes too late to cost a ticker its turn.

## How often a ticker is called

The tickers of an engine are those that its history has registered, numbered in that order
(`Engine.tickers_after`). So each frame calls the ticker of a number once if it is registered by
then and not at all otherwise, and over a history the calls of one number can be counted
(`Engine.calls_eq_replicate`): they are as many as the frames that were asked for behind its
registration, in blocks of whatever size.

## What a channel is left with

The turn before the program silences both registers, so tickers and earlier frames leave nothing
behind in them. Of the natives, one writes the left register and one the right; all others keep both
(`Native.Orderly`). The sample of a channel is therefore that of the last value which its native has
popped in the run (`LastOut`).
-/

namespace StackSynth

variable {σ : Type}

/-! ## Turns -/

/-- What is called within a frame. -/
inductive Turn (σ : Type) where
  /-- The ticker of a number. -/
  | ticker (number : Nat) (t : Ticker σ)
  /-- The output registers are silenced. -/
  | silence
  /-- The program is run. -/
  | program (p : Program σ)

namespace Turn

/-- What a turn does to the bench. -/
def take : Turn σ → RunM σ Unit
  | .ticker _ t => fun bench ↦ (.ok (), { bench with rig := t bench.rig })
  | .silence => fun bench ↦ (.ok (), { bench with rig := bench.rig.silence })
  | .program p => Program.run p

/-- Takes turns one after the other. -/
def takeAll : List (Turn σ) → RunM σ Unit
  | [] => pure ()
  | turn :: turns => do
    turn.take
    takeAll turns

/-- The ticker that is called under a number. -/
def call? (number : Nat) : Turn σ → Option (Ticker σ)
  | .ticker number' t => if number' = number then some t else none
  | .silence | .program _ => none

theorem takeAll_append (p q : List (Turn σ)) :
    takeAll (p ++ q) = (do takeAll p; takeAll q) := by
  induction p with
  | nil => rw [List.nil_append, takeAll, pure_bind]
  | cons turn p ih => rw [List.cons_append, takeAll, ih, takeAll, bind_assoc]

theorem takeAll_tickers (tickers : List (Ticker σ)) (number : Nat → Nat) (bench : Bench σ) :
    takeAll (tickers.mapIdx fun i t ↦ .ticker (number i) t) bench
      = (.ok (), { bench with rig := tickers.foldl (fun p t ↦ t p) bench.rig }) := by
  induction tickers generalizing number bench with
  | nil => rfl
  | cons t tickers ih =>
    rw [List.mapIdx_cons, takeAll, RunM.bind_apply]
    exact ih _ _

theorem filterMap_call?_tickers (tickers : List (Ticker σ)) (number : Nat) :
    (tickers.mapIdx Turn.ticker).filterMap (call? number) = tickers[number]?.toList := by
  induction tickers using List.reverseRecOn with
  | nil => rfl
  | append_singleton tickers t ih =>
    rw [List.mapIdx_concat, List.filterMap_append, ih, List.filterMap_cons, List.filterMap_nil,
      call?]
    rcases Nat.lt_trichotomy number tickers.length with h | h | h
    · rw [List.getElem?_append_left h, if_neg (by omega)]
      exact List.append_nil _
    · rw [List.getElem?_eq_none (by omega), if_pos h.symm, h, List.getElem?_concat_length]
      rfl
    · rw [List.getElem?_eq_none (by omega), if_neg (by omega), List.getElem?_eq_none]
      · rfl
      · rw [List.length_append, List.length_singleton]
        omega

end Turn

namespace Scheduler

/-- The turns of the next frame. -/
def turns (s : Scheduler σ) : List (Turn σ) :=
  s.tickers.toList.mapIdx Turn.ticker ++ .silence :: s.machine.program.toList.map .program

/-- What comes of a frame whose turns have come to a result. -/
def concluded (s : Scheduler σ) : Except Fault Unit × Bench σ → Except Fault Frame × Scheduler σ
  | (.ok (), bench) => (.ok (bench.rig.left, bench.rig.right), { s with machine.bench := bench })
  | (.error fault, bench) => (.error fault, retire { s with machine.bench := bench })

variable {s : Scheduler σ}

/-- The turns before the program lead to the bench that it runs on. -/
theorem takeAll_turns (s : Scheduler σ) : Turn.takeAll s.turns s.machine.bench
    = Turn.takeAll (s.machine.program.toList.map .program) s.ready := by
  have htickers := Turn.takeAll_tickers s.tickers.toList id s.machine.bench
  simp only [id_eq] at htickers
  rw [turns, Turn.takeAll_append, RunM.bind_apply, htickers, ready, ← Array.foldl_toList]
  rfl

/-- A frame is its turns and what comes of them. -/
theorem step_eq_concluded (s : Scheduler σ) :
    s.step = s.concluded (Turn.takeAll s.turns s.machine.bench) := by
  have hrun : ∃ result bench, Turn.takeAll s.turns s.machine.bench = (result, bench) ∧
      Machine.run ⟨s.ready, s.machine.program⟩ = (result, ⟨bench, s.machine.program⟩) := by
    rw [takeAll_turns]
    cases s.machine.program with
    | none => exact ⟨_, _, rfl, rfl⟩
    | some p =>
      refine ⟨_, _, ?_, rfl⟩
      rw [Option.toList_some, List.map_singleton, Turn.takeAll, Turn.takeAll, bind_pure]
      rfl
  obtain ⟨result, bench, hturns, hrun⟩ := hrun
  rw [hturns]
  cases result with
  | ok => exact step_of_run_ok hrun
  | error fault => exact step_of_run_error hrun

/-- A frame calls the ticker of a number once, if it is registered. -/
theorem filterMap_call?_turns (s : Scheduler σ) (number : Nat) :
    s.turns.filterMap (Turn.call? number) = s.tickers.toList[number]?.toList := by
  have hrest : (Turn.silence :: s.machine.program.toList.map Turn.program).filterMap
      (Turn.call? number) = [] := by
    cases s.machine.program <;> rfl
  rw [turns, List.filterMap_append, Turn.filterMap_call?_tickers, hrest, List.append_nil]

theorem tickers_step (s : Scheduler σ) : s.step.2.tickers = s.tickers := by
  rcases s.step_cases with ⟨bench, -, hstep⟩ | ⟨fault, bench, -, hstep⟩ <;> rw [hstep]

theorem tickers_later (s : Scheduler σ) (n : Nat) : (s.later n).tickers = s.tickers := by
  induction n with
  | zero => rfl
  | succ n ih => rw [later_succ, tickers_step, ih]

end Scheduler

/-! ## Tickers over a history -/

namespace Engine

/-- The ticker that a request registers. -/
def Request.ticker? : Request σ → Option (Ticker σ)
  | .registerTicker t => some t
  | .register _ _ | .registerConstant _ _ | .build _ | .buildBytes _ | .setPlaying _ | .toggle
  | .onModules _ | .processBlock _ _ | .drainFaults => none

/-- Frames that a request asks for. -/
def Request.room : Request σ → Nat
  | .processBlock left right => Engine.room left right
  | .register _ _ | .registerConstant _ _ | .registerTicker _ | .build _ | .buildBytes _
  | .setPlaying _ | .toggle | .onModules _ | .drainFaults => 0

/-- Frames that a history asks for. -/
def rendered (requests : List (Request σ)) : Nat := (requests.map Request.room).sum

variable {e : Engine σ}

theorem rendered_cons (r : Request σ) (requests : List (Request σ)) :
    rendered (r :: requests) = r.room + rendered requests := by
  rw [rendered, List.map_cons, List.sum_cons, rendered]

theorem tickers_perform (e : Engine σ) (r : Request σ) :
    (e.perform r).2.scheduler.tickers.toList
      = e.scheduler.tickers.toList ++ r.ticker?.toList := by
  have hsame : ∀ {e' : Engine σ}, e'.scheduler.tickers = e.scheduler.tickers →
      e'.scheduler.tickers.toList = e.scheduler.tickers.toList ++ [] := fun h ↦ by
    rw [h, List.append_nil]
  have hbuilt : r.IsBuild → (e.perform r).2.scheduler.tickers = e.scheduler.tickers :=
    built_induction (motive := fun e' ↦ e'.scheduler.tickers = e.scheduler.tickers) rfl
      fun _ _ _ ↦ rfl
  cases r with
  | registerTicker t => exact Array.toList_push
  | build | buildBytes => exact hsame (hbuilt trivial)
  | processBlock left right =>
    refine hsame ?_
    rw [scheduler_processBlock, Scheduler.tickers_later]
  | _ => exact hsame rfl

/-- The tickers of an engine are those that were registered, in that order. -/
theorem tickers_after (e : Engine σ) (requests : List (Request σ)) :
    (e.after requests).scheduler.tickers.toList
      = e.scheduler.tickers.toList ++ requests.filterMap Request.ticker? := by
  induction requests generalizing e with
  | nil => exact (List.append_nil _).symm
  | cons r requests ih =>
    rw [after_cons, ih, tickers_perform, List.append_assoc, List.filterMap_eq_flatMap_toList,
      List.filterMap_eq_flatMap_toList, List.flatMap_cons]

theorem length_startsOf (e : Engine σ) (r : Request σ) : (e.startsOf r).length = r.room := by
  cases r with
  | processBlock left right => rw [startsOf, List.length_map, List.length_range, Request.room]
  | _ => rfl

theorem length_starts (e : Engine σ) (requests : List (Request σ)) :
    (e.starts requests).length = rendered requests := by
  induction requests generalizing e with
  | nil => rfl
  | cons r requests ih => rw [starts, List.length_append, ih, length_startsOf, rendered_cons]

/-- As many frames are answered as were asked for. -/
theorem length_frames_replies (e : Engine σ) (requests : List (Request σ)) :
    ((e.replies requests).flatMap Reply.frames).length = rendered requests := by
  have hperform : ∀ (e : Engine σ) (r : Request σ),
      (e.perform r).1.frames.length = r.room := by
    intro e r
    have hbuilt : ∀ result, (e.built result).1.frames = [] := by
      rintro (error | ⟨report, e'⟩) <;> rfl
    cases r with
    | processBlock left right =>
      rw [frames_processBlock, List.length_map, List.length_range, Request.room]
    | build | buildBytes => rw [perform, hbuilt]; rfl
    | _ => rfl
  induction requests generalizing e with
  | nil => rfl
  | cons r requests ih =>
    rw [replies_cons, List.flatMap_cons, List.length_append, ih, hperform, rendered_cons]

theorem starts_append (e : Engine σ) (p q : List (Request σ)) :
    e.starts (p ++ q) = e.starts p ++ (e.after p).starts q := by
  induction p generalizing e with
  | nil => rfl
  | cons r p ih => rw [List.cons_append, starts, ih, starts, List.append_assoc, after_cons]

/-- A frame finds the tickers that are registered by then. -/
theorem tickers_of_mem_starts {requests : List (Request σ)} {s : Scheduler σ}
    (hs : s ∈ e.starts requests) : ∃ seen rest, requests = seen ++ rest ∧
      s.tickers.toList = e.scheduler.tickers.toList ++ seen.filterMap Request.ticker? := by
  induction requests generalizing e with
  | nil => exact absurd hs List.not_mem_nil
  | cons r requests ih =>
    rw [starts, List.mem_append] at hs
    rcases hs with hs | hs
    · refine ⟨[], r :: requests, rfl, ?_⟩
      cases r with
      | processBlock left right =>
        obtain ⟨k, -, rfl⟩ := List.mem_map.mp hs
        rw [Scheduler.tickers_later, List.filterMap_nil, List.append_nil]
      | _ => exact absurd hs List.not_mem_nil
    · obtain ⟨seen, rest, rfl, htickers⟩ := ih hs
      refine ⟨r :: seen, rest, rfl, ?_⟩
      rw [htickers, tickers_perform, List.append_assoc, List.filterMap_eq_flatMap_toList,
        List.filterMap_eq_flatMap_toList, List.flatMap_cons]

/-- Calls of the ticker of a number over the frames of a history. -/
def calls (e : Engine σ) (requests : List (Request σ)) (number : Nat) : List (Ticker σ) :=
  ((e.starts requests).flatMap Scheduler.turns).filterMap (Turn.call? number)

theorem calls_eq (e : Engine σ) (requests : List (Request σ)) (number : Nat) :
    e.calls requests number
      = (e.starts requests).filterMap fun s ↦ s.tickers.toList[number]? := by
  rw [calls, List.filterMap_flatMap, List.filterMap_eq_flatMap_toList]
  simp only [Scheduler.filterMap_call?_turns]

/-- Behind its registration a ticker is called in every frame, and before it in none. -/
theorem calls_eq_replicate (e : Engine σ) (before after : List (Request σ)) (t : Ticker σ) :
    e.calls (before ++ .registerTicker t :: after)
        (e.after before).scheduler.tickers.size = List.replicate (rendered after) t := by
  have hbefore : ∀ s ∈ e.starts before,
      s.tickers.toList[(e.after before).scheduler.tickers.size]? = none := by
    intro s hs
    obtain ⟨seen, rest, rfl, hseen⟩ := tickers_of_mem_starts hs
    rw [List.getElem?_eq_none_iff, ← Array.length_toList, tickers_after, hseen,
      List.filterMap_append]
    simp only [List.length_append]
    omega
  have hafter : ∀ s ∈ ((e.after before).perform (.registerTicker t)).2.starts after,
      s.tickers.toList[(e.after before).scheduler.tickers.size]? = some t := by
    intro s hs
    obtain ⟨seen, rest, -, hseen⟩ := tickers_of_mem_starts hs
    rw [hseen, tickers_perform, Request.ticker?, Option.toList_some, List.append_assoc,
      ← Array.length_toList, List.getElem?_append_right (Nat.le_refl _), Nat.sub_self]
    rfl
  have hnone : (e.starts before).filterMap
      (fun s ↦ s.tickers.toList[(e.after before).scheduler.tickers.size]?) = [] :=
    List.filterMap_eq_nil_iff.mpr hbefore
  rw [calls_eq, starts_append, List.filterMap_append, hnone, List.nil_append, starts]
  change List.filterMap _ (((e.after before).perform (.registerTicker t)).2.starts after) = _
  rw [List.filterMap_congr hafter, List.filterMap_eq_map', List.map_const', length_starts]

end Engine

/-! ## Single frames -/

namespace Scheduler

/-- The primitive steps that the run of the next frame gets to, each with the bench it finds. -/
def visits (s : Scheduler σ) : List (Primitive σ × Bench σ) :=
  match s.machine.program with
  | none => []
  | some p => Program.visits p s.ready

/-- The next frame calls these tickers in their order, then silences, then runs the program if there
is one; and if it goes through, its samples are what the program has put out last. -/
structure OnSchedule (s : Scheduler σ) (tickers : List (Ticker σ)) : Prop where
  tickers_eq : s.tickers.toList = tickers
  turns_eq : s.turns
    = tickers.mapIdx .ticker ++ .silence :: s.machine.program.toList.map .program
  step_eq : s.step = s.concluded (Turn.takeAll s.turns s.machine.bench)
  left : ∀ frame, s.step.1 = .ok frame → LastOut Builtin.outLeft .zero s.visits frame.1
  right : ∀ frame, s.step.1 = .ok frame → LastOut Builtin.outRight .zero s.visits frame.2

variable {s : Scheduler σ}

theorem lastOut_of_step (hp : ∀ p, s.machine.program = some p → Program.Uses Native.Orderly p)
    {frame : Frame} (h : s.step.1 = .ok frame) :
    LastOut Builtin.outLeft .zero s.visits frame.1 ∧
      LastOut Builtin.outRight .zero s.visits frame.2 := by
  rw [visits]
  cases hprogram : s.machine.program with
  | none =>
    rw [step_of_program_eq_none hprogram] at h
    cases h
    exact ⟨.kept (by simp), .kept (by simp)⟩
  | some p =>
    rcases step_of_program hprogram with ⟨bench, hrun, hstep⟩ | ⟨fault, bench, -, hstep⟩
    · rw [hstep] at h
      cases h
      have huses := hp p hprogram
      exact ⟨Program.lastOut_of_run Builtin.writes_outLeft (huses.imp fun _ h ↦ h.left) hrun,
        Program.lastOut_of_run Builtin.writes_outRight (huses.imp fun _ h ↦ h.right) hrun⟩
    · rw [hstep] at h
      cases h

theorem onSchedule (hp : ∀ p, s.machine.program = some p → Program.Uses Native.Orderly p)
    (n : Nat) : (s.later n).OnSchedule s.tickers.toList where
  tickers_eq := by rw [tickers_later]
  turns_eq := by rw [turns, tickers_later]
  step_eq := step_eq_concluded _
  left _ h := (lastOut_of_step (fun p hlater ↦ hp p (program_of_later hlater)) h).1
  right _ h := (lastOut_of_step (fun p hlater ↦ hp p (program_of_later hlater)) h).2

end Scheduler

namespace Engine

/-- **The schedule of frames.** Whatever is asked of a new engine, each frame calls the tickers that
are registered by then, each once and in the order of registration, before it runs the program,
which it does once at most; and what a frame that goes through sounds like is what the program has
put out last. So a ticker is called as often as frames are asked for behind its registration, and
each frame that is asked for is answered. -/
theorem frame_schedule (spec : EngineSpec) (modules : σ) (requests : List (Request σ))
    (hregister : ∀ name act, .register name act ∈ requests → Native.Orderly act) :
    (∀ left right k, k < room left right →
      (((new spec modules).after requests).scheduler.later k).OnSchedule
          (requests.filterMap Request.ticker?) ∧
        ∀ frame, (((new spec modules).after requests).scheduler.later k).step.1 = .ok frame →
          (((new spec modules).after requests).perform (.processBlock left right)).1.frames[k]?
            = some frame) ∧
      (∀ before t after, requests = before ++ .registerTicker t :: after →
        (new spec modules).calls requests (before.filterMap Request.ticker?).length
          = List.replicate (rendered after) t) ∧
      ((new spec modules).starts requests).length = rendered requests ∧
      (((new spec modules).replies requests).flatMap Reply.frames).length
        = rendered requests := by
  have htickers : ∀ requests, ((new spec modules).after requests).scheduler.tickers.toList
      = requests.filterMap Request.ticker? := fun requests ↦ tickers_after _ requests
  have huses : ((new spec modules).after requests).Uses Native.Orderly :=
    (Uses.new Builtin.orderly_dictionary spec modules).after hregister
  refine ⟨?_, ?_, length_starts _ _, length_frames_replies _ _⟩
  · intro left right k hk
    refine ⟨?_, ?_⟩
    · rw [← htickers]
      exact Scheduler.onSchedule huses.program k
    · intro frame hok
      rw [frames_processBlock, List.getElem?_map, List.getElem?_range hk, Option.map_some,
        Scheduler.heard, hok]
  · rintro before t after rfl
    rw [← htickers, Array.length_toList]
    exact calls_eq_replicate _ before after t

/-- A ticker that leaves something in a register. -/
def loud : Ticker Unit := fun p ↦ { p with left := .half, right := .half }

/-- A history with a frame before its ticker, a frame behind it, and a program in the end. -/
def sounding : List (Request Unit) :=
  [.processBlock #[.half] #[.half], .registerTicker loud, .processBlock #[.half] #[.half],
    .register "one" (Native.push 1), .register "out" Builtin.outLeft, .build "one out"]

theorem step_sounding : ((new {} ()).after sounding).scheduler.step.1
    = .ok (.ofDouble 1, .zero) := by
  have htokens : tokenize "one out" = [⟨.name, "one", ⟨1, 1⟩⟩, ⟨.name, "out", ⟨1, 5⟩⟩] := by cbv
  have hcompile : ∀ e : Engine Unit, compile ((e.register "one" (Native.push 1)).register "out"
      Builtin.outLeft).dictionary "one out" = .ok (⟨[.native "one" (Native.push 1),
        .native "out" Builtin.outLeft], []⟩ : Compiled Unit) := by
    intro e
    rw [compile, htokens]
    refine compileTokens_natives
      [("one", ⟨1, 1⟩, Native.push 1), ("out", ⟨1, 5⟩, Builtin.outLeft)] ?_
    simp only [List.forall_mem_cons]
    refine ⟨?one, ?out, by simp⟩
    case one =>
      rw [register, define, Dictionary.lookup_define, if_neg (by decide), register, define,
        Dictionary.lookup_define, if_pos rfl]
    case out => rw [register, define, Dictionary.lookup_define, if_pos rfl]
  have hbuild := fun e ↦ build_eq_ok_iff.mpr ⟨_, hcompile e, rfl, rfl⟩
  rw [sounding]
  simp only [after_cons, after_nil, perform, hbuild]
  rfl

/-- The ticker is called once, and what it leaves in the registers is not heard. -/
theorem frame_schedule_sounding :
    (∀ name act, .register name act ∈ sounding → Native.Orderly act) ∧
      (new {} ()).calls sounding 0 = [loud] ∧
      LastOut Builtin.outLeft .zero ((new {} ()).after sounding).scheduler.visits (.ofDouble 1) ∧
      LastOut Builtin.outRight .zero ((new {} ()).after sounding).scheduler.visits .zero := by
  have horderly : ∀ name act, .register name act ∈ sounding → Native.Orderly act := by
    intro name act hmem
    simp only [sounding, List.mem_cons, List.not_mem_nil, or_false, false_or, reduceCtorEq,
      Request.register.injEq] at hmem
    rcases hmem with ⟨-, rfl⟩ | ⟨-, rfl⟩
    · exact Or.inr (Or.inr (.push 1))
    · exact Or.inl rfl
  obtain ⟨hframes, hcalls, -⟩ := frame_schedule {} () sounding horderly
  obtain ⟨hschedule, -⟩ := hframes #[.half] #[.half] 0 (by decide)
  exact ⟨horderly, hcalls [_] loud _ rfl, hschedule.left _ step_sounding,
    hschedule.right _ step_sounding⟩

end Engine

end StackSynth
