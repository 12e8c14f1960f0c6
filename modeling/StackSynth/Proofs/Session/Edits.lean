import Mathlib.Data.List.Induction
import StackSynth.Proofs.Engine.Requests
import StackSynth.Proofs.Storage.Writing
import StackSynth.Session.Play

/-!
# Saves of a watched program file

A session that watches its program file reads it in order to build it, and reads its stamp in order
to notice changes, at different moments. Somebody who saves the file may do so between any two of
them. `Watching` is a session as far as the file concerns it, cut at these moments, and a history
interleaves its steps with saves.

Every step is made of the functions that a session is made of: opening one takes the first two
steps (`Session.openOn_eq_steps`), and looking at the file takes one more step, or two if it has
changed (`Watcher.poll_eq_steps`).

## Which saves are built

Once a poll that began after the last save is over, the content built last is that of the last save,
unless the save fell between the first build and the first look at the stamp
(`Watching.last_built_iff`). The watcher then takes the stamp of that save for the one of the
content that was built, and no poll reports it. In every other phase the stamp of a new save is one
that the watcher does not know (`Watching.Unseen`), or the file has still to be read.
-/

namespace StackSynth

/-- How far a session has come with its program file. -/
inductive Watching.Phase where
  /-- The engine is made. -/
  | made
  /-- The program is built, or cannot be. -/
  | built
  /-- The file is watched. -/
  | idle (w : Watcher)
  /-- The file has changed and is not yet built. -/
  | changed (w : Watcher)
  deriving DecidableEq

/-- The watcher, once there is one. -/
def Watching.Phase.watcher? : Phase → Option Watcher
  | made | built => none
  | idle w | changed w => some w

/-- Whether a watcher waits for its next look. -/
def Watching.Phase.isIdle : Phase → Bool
  | idle _ => true
  | made | built | changed _ => false

/-- An engine that plays a program file which is watched. -/
structure Watching (σ : Type) where
  folder : Folder
  engine : Engine σ
  phase : Watching.Phase
  /-- What was read from the file and passed on to be built, in order. -/
  contents : List (Array UInt8)

namespace Watching

variable {σ : Type}

/-- What happens to a program file. -/
inductive Happening where
  /-- Somebody saves it. -/
  | save (content : Array UInt8) (stamp : Nat)
  /-- The session takes its next step. -/
  | step

/-- The session before its first build. -/
def start (folder : Folder) (e : Engine σ) : Watching σ := ⟨folder, e, .made, []⟩

/-- Reads the file and builds what it holds. -/
def rebuild (path : String) (s : Watching σ) : Watching σ :=
  { s with
    engine := match s.engine.reload s.folder path with
      | .ok (_, e) => e
      | .error _ => s.engine
    contents := s.contents ++ (s.folder.read path).toOption.toList }

/-- The next step of the session. -/
def step (path : String) (s : Watching σ) : Watching σ :=
  match s.phase with
  | .made => { s.rebuild path with phase := .built }
  | .built => { s with phase := .idle (.new s.folder path) }
  | .idle w =>
    match w.changed s.folder with
    | (true, w) => { s with phase := .changed w }
    | (false, w) => { s with phase := .idle w }
  | .changed w => { s.rebuild w.path with phase := .idle w }

/-- The session after something happened. A save that is refused changes nothing. -/
def perform (path : String) (s : Watching σ) : Happening → Watching σ
  | .save content stamp =>
    match s.folder.write path content stamp with
    | .ok folder => { s with folder }
    | .error _ => s
  | .step => s.step path

/-- The session after a history. -/
def run (path : String) (s : Watching σ) (history : List Happening) : Watching σ :=
  history.foldl (perform path) s

/-- The session after some steps without a save. -/
def steps (path : String) (s : Watching σ) (n : Nat) : Watching σ :=
  s.run path (List.replicate n .step)

variable {path : String} {s : Watching σ}

@[simp] theorem run_nil (path : String) (s : Watching σ) : s.run path [] = s := rfl

@[simp] theorem run_cons (path : String) (s : Watching σ) (h : Happening)
    (history : List Happening) :
    s.run path (h :: history) = (s.perform path h).run path history := rfl

theorem run_append (path : String) (s : Watching σ) (p q : List Happening) :
    s.run path (p ++ q) = (s.run path p).run path q := by
  rw [run, List.foldl_append, run, run]

@[simp] theorem perform_step (path : String) (s : Watching σ) :
    s.perform path .step = s.step path := rfl

theorem perform_save {folder : Folder} {content : Array UInt8} {stamp : Nat}
    (h : s.folder.write path content stamp = .ok folder) :
    s.perform path (.save content stamp) = { s with folder } := by
  rw [perform, h]

@[simp] theorem steps_zero (path : String) (s : Watching σ) : s.steps path 0 = s := rfl

theorem steps_succ (path : String) (s : Watching σ) (n : Nat) :
    s.steps path (n + 1) = (s.step path).steps path n := rfl

/-! ## What a step does -/

theorem step_of_made (h : s.phase = .made) :
    s.step path = { s.rebuild path with phase := .built } := by
  rw [step, h]

theorem step_of_built (h : s.phase = .built) :
    s.step path = { s with phase := .idle (.new s.folder path) } := by
  rw [step, h]

theorem step_of_idle {w w' : Watcher} (h : s.phase = .idle w)
    (hw : w.changed s.folder = (false, w')) : s.step path = { s with phase := .idle w' } := by
  simp only [step, h, hw]

theorem step_of_idle_of_changed {w w' : Watcher} (h : s.phase = .idle w)
    (hw : w.changed s.folder = (true, w')) : s.step path = { s with phase := .changed w' } := by
  simp only [step, h, hw]

theorem step_of_changed {w : Watcher} (h : s.phase = .changed w) :
    s.step path = { s.rebuild w.path with phase := .idle w } := by
  rw [step, h]

/-- A step reads nothing, or it rebuilds: the first one from the path that is played, later ones
from the path that is watched. -/
theorem step_cases (path : String) (s : Watching σ) :
    (∃ phase, s.step path = { s with phase }) ∨ ∃ p phase,
      (s.phase = .made ∧ p = path ∨ ∃ w, s.phase = .changed w ∧ p = w.path) ∧
        s.step path = { s.rebuild p with phase } := by
  cases h : s.phase with
  | made => exact Or.inr ⟨path, _, Or.inl ⟨rfl, rfl⟩, step_of_made h⟩
  | built => exact Or.inl ⟨_, step_of_built h⟩
  | idle w =>
    rcases hw : w.changed s.folder with ⟨_ | _, w'⟩
    · exact Or.inl ⟨_, step_of_idle h hw⟩
    · exact Or.inl ⟨_, step_of_idle_of_changed h hw⟩
  | changed w => exact Or.inr ⟨w.path, _, Or.inr ⟨w, rfl, rfl⟩, step_of_changed h⟩

/-- Only saves change the folder. -/
@[simp] theorem folder_step (path : String) (s : Watching σ) : (s.step path).folder = s.folder := by
  rcases step_cases path s with ⟨phase, h⟩ | ⟨p, phase, -, h⟩
  · rw [h]
  · rw [h]
    rfl

theorem contents_rebuild {content : Array UInt8} (h : s.folder.read path = .ok content) :
    (s.rebuild path).contents = s.contents ++ [content] := by
  rw [rebuild, h]
  rfl

theorem getLast?_contents_rebuild {content : Array UInt8} (h : s.folder.read path = .ok content) :
    (s.rebuild path).contents.getLast? = some content := by
  rw [contents_rebuild h, List.getLast?_concat]

end Watching

/-! ## Looks of a watcher -/

namespace Watcher

variable {folder : Folder} {w : Watcher}

@[simp] theorem path_changed (w : Watcher) (folder : Folder) :
    (w.changed folder).2.path = w.path := by
  rw [changed]
  split
  · split <;> rfl
  · rfl

theorem changed_of_eq (h : folder.modified? w.path = w.last) : w.changed folder = (false, w) := by
  rw [changed]
  split
  next stamp hstamp => rw [if_pos (hstamp.symm.trans h)]
  next => rfl

theorem changed_of_ne {stamp : Nat} (hstamp : folder.modified? w.path = some stamp)
    (h : w.last ≠ some stamp) : w.changed folder = (true, ⟨w.path, some stamp⟩) := by
  rw [changed, hstamp]
  exact if_neg (Ne.symm h)

/-- What a watcher remembers after a look it remembered before, or it is the stamp of the file. -/
theorem last_changed (w : Watcher) (folder : Folder) :
    (w.changed folder).2.last = w.last ∨
      (w.changed folder).2.last = folder.modified? w.path := by
  rw [changed]
  split
  next stamp hstamp =>
    split
    · exact Or.inl rfl
    · exact Or.inr hstamp.symm
  next => exact Or.inl rfl

end Watcher

namespace Watching

variable {σ : Type} {path : String} {s : Watching σ}

/-! ## What the steps are steps of -/

/-- A rebuild asks the engine to build what was read. -/
theorem engine_rebuild (path : String) (s : Watching σ) :
    (s.rebuild path).engine =
      s.engine.after ((s.folder.read path).toOption.toList.map fun c ↦ .buildBytes c.toList) := by
  simp only [rebuild, Engine.reload]
  rcases s.folder.read path with error | content
  · rfl
  · change _ = (s.engine.built (s.engine.buildBytes content.toList)).2
    simp only
    rcases s.engine.buildBytes content.toList with error | ⟨report, e⟩
    · rfl
    · rfl

/-- A step builds what it reads, and nothing else. -/
theorem exists_contents_step (path : String) (s : Watching σ) :
    ∃ new : List (Array UInt8), (s.step path).contents = s.contents ++ new ∧
      (s.step path).engine = s.engine.after (new.map fun c ↦ .buildBytes c.toList) := by
  rcases step_cases path s with ⟨phase, h⟩ | ⟨p, phase, -, h⟩
  · rw [h]
    exact ⟨[], (List.append_nil _).symm, rfl⟩
  · rw [h]
    exact ⟨_, rfl, engine_rebuild p s⟩

/-- The engine is the one that was made, after builds of the contents that were read. -/
theorem engine_run (folder : Folder) (e : Engine σ) (history : List Happening) :
    ((start folder e).run path history).engine =
      e.after (((start folder e).run path history).contents.map fun c ↦ .buildBytes c.toList) := by
  induction history using List.reverseRecOn with
  | nil => rfl
  | append_singleton history h ih =>
    rw [run_append, run_cons, run_nil]
    cases h with
    | save content stamp =>
      rw [perform]
      split <;> exact ih
    | step =>
      obtain ⟨new, hcontents, hengine⟩ :=
        exists_contents_step path ((start folder e).run path history)
      rw [perform, hcontents, hengine, ih, List.map_append, Engine.after, Engine.after,
        Engine.after, List.foldl_append]

end Watching

/-- Looking at a watched file is one step, or two if it has changed. -/
theorem Watcher.poll_eq_steps {σ : Type} {path : String} {s : Watching σ} {w : Watcher}
    (h : s.phase = .idle w) :
    ∃ n ∈ [1, 2], (s.steps path n).phase = .idle (w.poll s.folder s.engine).2.1 ∧
      (s.steps path n).engine = (w.poll s.folder s.engine).2.2 := by
  rw [poll]
  rcases hw : w.changed s.folder with ⟨_ | _, w'⟩
  · refine ⟨1, by simp, ?_⟩
    rw [Watching.steps_succ, Watching.steps_zero, Watching.step_of_idle h hw]
    exact ⟨rfl, rfl⟩
  · refine ⟨2, by simp, ?_⟩
    rw [Watching.steps_succ, Watching.steps_succ, Watching.steps_zero,
      Watching.step_of_idle_of_changed h hw, Watching.step_of_changed rfl]
    simp only [Watching.rebuild]
    rcases s.engine.reload s.folder w'.path with error | ⟨report, e⟩
    · exact ⟨rfl, rfl⟩
    · exact ⟨rfl, rfl⟩

/-- A step on the way to a session that another step follows. -/
theorem Opening.run_bind_eq_ok {α β : Type} {x : Opening α} {f : α → Opening β}
    {before after : Array Event} {b : β} (h : (x >>= f).run before = (.ok b, after)) :
    ∃ a events, x.run before = (.ok a, events) ∧ (f a).run events = (.ok b, after) := by
  rw [ExceptT.run_bind] at h
  change StateT.run (x.run >>= _) before = _ at h
  rw [StateT.run_bind] at h
  rcases hx : StateT.run x.run before with ⟨error | a, events⟩
  · rw [hx] at h
    cases h
  · rw [hx] at h
    exact ⟨a, events, hx, h⟩

/-- The first build of a session is the first step. -/
theorem Session.engine_of_buildFirst {folder : Folder} {path : String} {e e' : Engine Bank}
    {before after : Array Event} (h : (buildFirst folder path e).run before = (.ok e', after)) :
    ((Watching.start folder e).step path).engine = e' := by
  rw [buildFirst] at h
  rw [Watching.step_of_made rfl]
  simp only [Watching.rebuild, Watching.start]
  rcases he : e.reload folder path with error | ⟨report, e₁⟩
  · rw [he] at h
    cases h
    rfl
  · rw [he] at h
    cases h
    rfl

/-- Opening a session takes the first two steps. -/
theorem Session.openOn_eq_steps {folder : Folder} {machine : AudioMachine} {settings : Settings}
    {path : String} {s : Session} {events : Array Event}
    (h : openOn folder machine settings path true = (.ok s, events)) :
    ∃ recordings e, settings.makeEngine folder = .ok (recordings, e) ∧
      ((Watching.start folder e).steps path 2).engine = s.engine ∧
      ∃ w, s.watcher = some w ∧ ((Watching.start folder e).steps path 2).phase = .idle w := by
  rw [openOn] at h
  rcases hopening : (opening folder machine settings path true).run #[] with ⟨error | s', events'⟩
  · rw [hopening] at h
    cases h
  · rw [hopening] at h
    cases h
    rw [opening] at hopening
    obtain ⟨e, events₁, hmake, hopening⟩ := Opening.run_bind_eq_ok hopening
    obtain ⟨engine, events₂, hbuild, hopening⟩ := Opening.run_bind_eq_ok hopening
    obtain ⟨stream, events₃, -, hopening⟩ := Opening.run_bind_eq_ok hopening
    obtain ⟨watcher, events₄, hwatcher, hopening⟩ := Opening.run_bind_eq_ok hopening
    cases hopening
    cases hwatcher
    rw [makeEngine] at hmake
    rcases hsettings : settings.makeEngine folder with error | ⟨recordings, e'⟩
    · rw [hsettings] at hmake
      cases hmake
    · rw [hsettings] at hmake
      cases hmake
      refine ⟨recordings, e, rfl, ?_, _, rfl, ?_⟩
      · exact Session.engine_of_buildFirst hbuild
      · rfl

namespace Watching

variable {σ : Type} {path : String} {s : Watching σ} {content : Array UInt8} {stamp : Nat}

/-! ## What a watcher knows -/

/-- The watcher after a step is a new one or remembers what the one before it did, up to the stamp
of the file. -/
theorem watcher?_step {w : Watcher} (h : w ∈ (s.step path).phase.watcher?) :
    w = .new s.folder path ∨ ∃ w₀ ∈ s.phase.watcher?,
      w.path = w₀.path ∧ (w.last = w₀.last ∨ w.last = s.folder.modified? w₀.path) := by
  cases hphase : s.phase with
  | made =>
    rw [step_of_made hphase] at h
    cases h
  | built =>
    rw [step_of_built hphase] at h
    exact Or.inl (Option.mem_some.1 h).symm
  | idle w₀ =>
    have hw : w = (w₀.changed s.folder).2 := by
      rcases hchanged : w₀.changed s.folder with ⟨_ | _, w'⟩
      · rw [step_of_idle hphase hchanged] at h
        exact (Option.mem_some.1 h).symm
      · rw [step_of_idle_of_changed hphase hchanged] at h
        exact (Option.mem_some.1 h).symm
    refine Or.inr ⟨w₀, Option.mem_some.2 rfl, ?_⟩
    rw [hw]
    exact ⟨w₀.path_changed s.folder, w₀.last_changed s.folder⟩
  | changed w₀ =>
    rw [step_of_changed hphase] at h
    exact Or.inr ⟨w, h, rfl, Or.inl rfl⟩

/-- The watcher, once there is one, watches a path. -/
def Follows (path : String) (s : Watching σ) : Prop := ∀ w ∈ s.phase.watcher?, w.path = path

theorem Follows.step (h : s.Follows path) : (s.step path).Follows path := by
  intro w hw
  obtain rfl | ⟨w₀, hw₀, hpath, -⟩ := watcher?_step hw
  · rfl
  · rw [hpath, h w₀ hw₀]

/-- A stamp that neither the file nor what the watcher remembers has. -/
structure Unseen (path : String) (stamp : Nat) (s : Watching σ) : Prop where
  file : s.folder.modified? path ≠ some stamp
  follows : s.Follows path
  watcher : ∀ w ∈ s.phase.watcher?, w.last ≠ some stamp

namespace Unseen

theorem start {folder : Folder} (e : Engine σ) (h : folder.modified? path ≠ some stamp) :
    (Watching.start folder e).Unseen path stamp :=
  ⟨h, nofun, nofun⟩

theorem step (h : s.Unseen path stamp) : (s.step path).Unseen path stamp := by
  refine ⟨by rw [folder_step]; exact h.file, h.follows.step, fun w hw ↦ ?_⟩
  obtain rfl | ⟨w₀, hw₀, -, hlast | hlast⟩ := watcher?_step hw
  · exact h.file
  · rw [hlast]
    exact h.watcher w₀ hw₀
  · rw [hlast, h.follows w₀ hw₀]
    exact h.file

/-- Saves with other stamps leave a stamp unseen. -/
theorem save {stamp' : Nat} (h : s.Unseen path stamp) (hne : stamp' ≠ stamp) :
    (s.perform path (.save content stamp')).Unseen path stamp := by
  rw [perform]
  split
  next folder hwrite =>
    refine ⟨?_, h.follows, h.watcher⟩
    change folder.modified? path ≠ some stamp
    rw [Folder.modified?_write hwrite]
    exact fun heq ↦ hne (Option.some.inj heq)
  next => exact h

/-- A stamp stays unseen until there is a save that has it. -/
theorem run {history : List Happening} (h : s.Unseen path stamp)
    (hfresh : ∀ content, .save content stamp ∉ history) :
    (s.run path history).Unseen path stamp := by
  induction history generalizing s with
  | nil => exact h
  | cons happening history ih =>
    refine ih ?_ fun content hmem ↦ hfresh content (List.mem_cons_of_mem _ hmem)
    cases happening with
    | save content stamp' =>
      refine h.save ?_
      rintro rfl
      exact hfresh content List.mem_cons_self
    | step => exact h.step

end Unseen

/-! ## After the last save -/

theorem steps_add (path : String) (s : Watching σ) (m n : Nat) :
    s.steps path (m + n) = (s.steps path m).steps path n := by
  rw [steps, ← List.replicate_append_replicate, run_append, steps, steps]

/-- The watcher waits and knows the stamp of the file. -/
def Settled (path : String) (s : Watching σ) : Prop :=
  ∃ w, s.phase = .idle w ∧ w.path = path ∧ w.last = s.folder.modified? path

/-- Nothing happens any more. -/
theorem Settled.steps_eq (h : s.Settled path) (n : Nat) : s.steps path n = s := by
  obtain ⟨w, hphase, rfl, hlast⟩ := h
  have hstep : s.step w.path = s := by
    rw [step_of_idle hphase (Watcher.changed_of_eq hlast.symm), ← hphase]
  induction n with
  | zero => rfl
  | succ n ih => rw [steps_succ, hstep, ih]

/-- The file holds a content, under a stamp that the watcher does not know. -/
structure Saved (path : String) (content : Array UInt8) (stamp : Nat) (s : Watching σ) : Prop where
  read : s.folder.read path = .ok content
  modified : s.folder.modified? path = some stamp
  follows : s.Follows path
  watcher : ∀ w ∈ s.phase.watcher?, w.last ≠ some stamp

/-- A save under a stamp that was not seen before. -/
theorem Unseen.saved {folder : Folder} (h : s.Unseen path stamp)
    (hsave : s.folder.write path content stamp = .ok folder) :
    Saved path content stamp { s with folder } :=
  ⟨Folder.read_write hsave, Folder.modified?_write hsave, h.follows, h.watcher⟩

/-- The content that was passed on last is the content of the file. -/
structure Current (path : String) (content : Array UInt8) (s : Watching σ) : Prop where
  read : s.folder.read path = .ok content
  follows : s.Follows path
  last : s.contents.getLast? = some content

theorem current_rebuild (phase : Phase) (hread : s.folder.read path = .ok content)
    (hfollows : ∀ w ∈ phase.watcher?, w.path = path) :
    Current path content { s.rebuild path with phase } :=
  ⟨hread, hfollows, getLast?_contents_rebuild hread⟩

/-- A step passes on what the file holds, or nothing. -/
theorem Current.step (h : s.Current path content) : (s.step path).Current path content := by
  refine ⟨by rw [folder_step]; exact h.read, h.follows.step, ?_⟩
  rcases step_cases path s with ⟨phase, hstep⟩ | ⟨p, phase, hp, hstep⟩
  · rw [hstep]
    exact h.last
  · have hpath : p = path := by
      rcases hp with ⟨-, hp⟩ | ⟨w, hs, rfl⟩
      · exact hp
      · exact h.follows w (by rw [hs]; rfl)
    rw [hstep, hpath]
    exact getLast?_contents_rebuild h.read

theorem Current.steps (h : s.Current path content) (n : Nat) :
    (s.steps path n).Current path content := by
  induction n generalizing s with
  | zero => exact h
  | succ n ih => exact ih h.step

/-- A file that is about to be watched is watched from the next step on, with the stamp that it
has. -/
theorem settled_step_of_built (hs : s.phase = .built) : (s.step path).Settled path := by
  rw [step_of_built hs]
  exact ⟨_, rfl, rfl, rfl⟩

/-- A file that is about to be watched is not built any more until somebody saves it. -/
theorem contents_steps_of_built (hs : s.phase = .built) (n : Nat) :
    (s.steps path n).contents = s.contents := by
  cases n with
  | zero => rfl
  | succ n => rw [steps_succ, (settled_step_of_built hs).steps_eq, step_of_built hs]

namespace Saved

/-- A poll reports a stamp that the watcher does not know. -/
theorem step_of_idle {w : Watcher} (h : s.Saved path content stamp) (hs : s.phase = .idle w) :
    s.step path = { s with phase := .changed ⟨path, some stamp⟩ } := by
  have hw : w ∈ s.phase.watcher? := by rw [hs]; rfl
  have hpath : w.path = path := h.follows w hw
  refine step_of_idle_of_changed hs ?_
  rw [← hpath]
  exact Watcher.changed_of_ne (hpath ▸ h.modified) (h.watcher w hw)

/-- Two steps pass on what was saved, unless the file is about to be watched. -/
theorem current_steps_two (h : s.Saved path content stamp) (hphase : s.phase ≠ .built) :
    (s.steps path 2).Current path content := by
  rw [steps_succ]
  cases hs : s.phase with
  | made =>
    rw [step_of_made hs]
    exact (current_rebuild .built h.read nofun).steps 1
  | built => exact absurd hs hphase
  | idle w =>
    rw [h.step_of_idle hs, steps_succ, steps_zero, step_of_changed rfl]
    exact current_rebuild _ h.read fun w hw ↦ Option.mem_some.1 hw ▸ rfl
  | changed w =>
    have hpath : w.path = path := h.follows w (by rw [hs]; rfl)
    rw [step_of_changed hs, hpath]
    exact (current_rebuild _ h.read fun w' hw' ↦ h.follows w' (by rw [hs]; exact hw')).steps 1

/-- What was passed on last, after at least two steps. -/
theorem getLast?_contents_iff {n : Nat} (h : s.Saved path content stamp) (hn : 2 ≤ n) :
    (s.steps path n).contents.getLast? = some content ↔
      s.phase ≠ .built ∨ s.contents.getLast? = some content := by
  by_cases hs : s.phase = .built
  · rw [contents_steps_of_built hs, or_iff_right (not_not_intro hs)]
  · obtain ⟨m, rfl⟩ : ∃ m, n = 2 + m := ⟨n - 2, by omega⟩
    rw [steps_add]
    exact iff_of_true ((h.current_steps_two hs).steps m).last (Or.inl hs)

end Saved

/-! ## Which saves are built -/

/-- Within `n` steps a poll begins and is over. -/
def Polled (path : String) (s : Watching σ) (n : Nat) : Prop :=
  ∃ i j, i < j ∧ j ≤ n ∧ (s.steps path i).phase.isIdle ∧ (s.steps path j).phase.isIdle

/-- A poll that finds a stamp it does not know takes two steps. -/
theorem Saved.polled_two {w : Watcher} (h : s.Saved path content stamp) (hs : s.phase = .idle w) :
    s.Polled path 2 := by
  refine ⟨0, 2, by omega, by omega, ?_, ?_⟩
  · rw [steps_zero, hs]
    rfl
  · rw [steps_succ, h.step_of_idle hs, steps_succ, steps_zero, step_of_changed rfl]
    rfl

/-- No poll that finds a stamp it does not know takes less than two steps. -/
theorem Saved.two_le_of_polled {n : Nat} (h : s.Saved path content stamp)
    (hpolled : s.Polled path n) : 2 ≤ n := by
  obtain ⟨i, j, hij, hjn, hi, hj⟩ := hpolled
  by_contra hn
  obtain ⟨rfl, rfl⟩ : i = 0 ∧ j = 1 := by omega
  cases hs : s.phase with
  | made | built | changed => rw [steps_zero, hs] at hi; cases hi
  | idle w =>
    rw [steps_succ, steps_zero, h.step_of_idle hs] at hj
    cases hj

/-- **Which saves are built**: once a poll is over that began after the last save, the content that
was passed on last is the content of that save, unless the save fell between the first build and the
first look at the stamp. The content of a save that fell there was passed on last only if the first
build read the same. -/
theorem last_built_iff {folder folder' : Folder} {e : Engine σ} {before : List Happening} {n : Nat}
    (hsave : ((start folder e).run path before).folder.write path content stamp = .ok folder')
    (hnew : folder.modified? path ≠ some stamp) (hfresh : ∀ c, .save c stamp ∉ before)
    (hpolled : ((start folder e).run path (before ++ [.save content stamp])).Polled path n) :
    ((start folder e).run path
        (before ++ .save content stamp :: List.replicate n .step)).contents.getLast? =
      some content ↔
    ((start folder e).run path before).phase ≠ .built ∨
      ((start folder e).run path before).contents.getLast? = some content := by
  have hunseen : ((start folder e).run path before).Unseen path stamp :=
    (Unseen.start e hnew).run hfresh
  rw [run_append] at hpolled ⊢
  generalize (start folder e).run path before = s at hsave hunseen hpolled ⊢
  have hsaved := hunseen.saved hsave
  rw [run_cons, perform_save hsave] at hpolled ⊢
  exact hsaved.getLast?_contents_iff (hsaved.two_le_of_polled hpolled)

theorem isBare_patch : Path.IsBare "patch.fw" := by
  refine ⟨?_, by decide, by decide, by decide, by decide⟩
  rw [Path.splitOn_eq_singleton 8 (by decide) (by decide)]
  decide

/-- A session whose program file holds `1`, before its first build. -/
def startOne : Watching Unit := start (.single "patch.fw" #[49] 1) (.new {} ())

/-- The program file of `startOne` holds `2` after a save. -/
theorem write_startOne (history : List Happening)
    (h : (startOne.run "patch.fw" history).folder = startOne.folder) :
    (startOne.run "patch.fw" history).folder.write "patch.fw" #[50] 2 =
      .ok (.single "patch.fw" #[50] 2) := by
  rw [h]
  exact Folder.write_single isBare_patch _ _ _ _

theorem modified?_startOne : startOne.folder.modified? "patch.fw" ≠ some 2 := by
  rw [startOne, start, Folder.modified?_single isBare_patch]
  decide

/-- A file that is saved while it is watched, and the poll after that. -/
theorem last_built_iff_watched :
    (startOne.run "patch.fw"
        ([.step, .step] ++ .save #[50] 2 :: List.replicate 2 .step)).contents.getLast? =
      some #[50] := by
  have hunseen : (startOne.run "patch.fw" [.step, .step]).Unseen "patch.fw" 2 :=
    (Unseen.start _ modified?_startOne).run (by simp)
  have hsave := write_startOne [.step, .step] (by simp)
  have hphase : (startOne.run "patch.fw" [.step, .step]).phase ≠ .built := by
    rw [run_cons, run_cons, run_nil, perform_step, perform_step, step_of_built rfl]
    simp
  have hpolled : (startOne.run "patch.fw" ([.step, .step] ++ [.save #[50] 2])).Polled
      "patch.fw" 2 := by
    rw [run_append, run_cons, run_nil, perform_save hsave]
    exact (hunseen.saved hsave).polled_two rfl
  exact (last_built_iff hsave modified?_startOne (by simp) hpolled).2 (Or.inl hphase)

/-- **An edit that is lost**: the file is saved after the first build and before it is watched. From
then on it is polled, and what it holds is never built. -/
theorem edit_lost :
    let s := startOne.run "patch.fw" [.step, .save #[50] 2]
    s.folder.read "patch.fw" = .ok #[50] ∧ s.Polled "patch.fw" 2 ∧
      ∀ n, (s.steps "patch.fw" n).contents = [#[49]] := by
  have hsave := write_startOne [.step] (by simp)
  have hcontents : (startOne.step "patch.fw").contents = [#[49]] :=
    contents_rebuild (s := startOne) (Folder.read_single isBare_patch _ _)
  rw [run_cons, run_nil, perform_step] at hsave
  refine ⟨?_, ⟨1, 2, by omega, by omega, ?_, ?_⟩, fun n ↦ ?_⟩
  all_goals
    rw [run_cons, run_cons, run_nil, perform_step, perform_save hsave]
  · exact Folder.read_write hsave
  · rfl
  · rw [steps_succ, (settled_step_of_built rfl).steps_eq]
    rfl
  · rw [contents_steps_of_built rfl]
    exact hcontents

end Watching

end StackSynth
