import StackSynth.Proofs.Engine.Histories
import StackSynth.Proofs.Language.Definitions

/-!
# What a build may change

A build reads its source against the dictionary of the engine and stages what it defines. Only when
it has come to the end are the definitions committed and the program installed. So there are two
outcomes (`Engine.perform_build_cases`):

* a build that fails leaves the engine as it was, however many definitions it had closed by then;
* a build that succeeds changes the installed program, the parked one, and what the names that it
  defines stand for, and leaves alone all that a running sound depends on (`Engine.Undisturbed`).

A build that fails may therefore be put anywhere into a history, and nothing else in that history is
answered differently.
-/

namespace StackSynth

variable {σ : Type}

namespace Engine

/-! ## The two outcomes -/

/-- Nothing differs that a running sound depends on: the stack, the output registers, the transport,
the modules with the events that wait for them, the tickers and the faults that wait. -/
structure Undisturbed (e e' : Engine σ) : Prop where
  stack : e'.scheduler.stack = e.scheduler.stack
  left : e'.scheduler.rig.left = e.scheduler.rig.left
  right : e'.scheduler.rig.right = e.scheduler.rig.right
  playing : e'.scheduler.rig.playing = e.scheduler.rig.playing
  modules : e'.scheduler.rig.modules = e.scheduler.rig.modules
  tickers : e'.scheduler.tickers = e.scheduler.tickers
  faults : e'.faults = e.faults
  sampleRate : e'.sampleRate = e.sampleRate

/-- What becomes of an engine by a build that succeeds. -/
structure Installs (e : Engine σ) (report : BuildReport) (e' : Engine σ) : Prop where
  undisturbed : e.Undisturbed e'
  program : ∃ p, e'.scheduler.machine.program = some p ∧ p.length = report.instructions
  retired : e'.scheduler.retired = none
  defined : ∀ name ∈ report.definitions, ∃ label body,
    e'.dictionary.lookup name = some (.word label body)
  other : ∀ name, name ∉ report.definitions →
    e'.dictionary.lookup name = e.dictionary.lookup name

theorem undisturbed_installed (e : Engine σ) (c : Compiled σ) : e.Undisturbed (e.installed c) :=
  ⟨rfl, rfl, rfl, rfl, rfl, rfl, rfl, rfl⟩

theorem installs_installed (e : Engine σ) {tokens : List Token} {c : Compiled σ}
    (h : compileTokens e.dictionary tokens = .ok c) :
    e.Installs ⟨c.program.length, c.names⟩ (e.installed c) where
  undisturbed := e.undisturbed_installed c
  program := ⟨c.program, rfl, rfl⟩
  retired := rfl
  defined name hname := by
    obtain ⟨b, hread, -, -, rfl⟩ := compileTokens_eq_ok_iff.mp h
    obtain ⟨op, hmem, hlookup⟩ := e.dictionary.exists_lookup_defineAll hname
    obtain ⟨label, body, hop⟩ := Build.definitions_of_read hread _ hmem
    refine ⟨label, body, ?_⟩
    rw [← hop]
    exact hlookup
  other name hname := e.dictionary.lookup_defineAll_of_not_mem hname

/-- A build fails and leaves the engine as it was, or succeeds and installs. -/
theorem perform_build_cases (e : Engine σ) {r : Request σ} (hr : r.IsBuild) :
    (∃ error, e.perform r = (.built (.error error), e)) ∨
      ∃ report e', e.perform r = (.built (.ok report), e') ∧ e.Installs report e' := by
  rcases e.perform_of_isBuild hr with herror | ⟨tokens, c, hc, heq⟩
  · exact Or.inl herror
  · exact Or.inr ⟨_, _, heq, e.installs_installed hc⟩

theorem isBuild_of_built {e : Engine σ} {r : Request σ}
    {result : Except CompileError BuildReport} (h : (e.perform r).1 = .built result) :
    r.IsBuild := by
  cases r with
  | build | buildBytes => trivial
  | _ => cases h

/-- What is answered with an error leaves the engine as it was. -/
theorem perform_of_error {e : Engine σ} {r : Request σ} {error : CompileError}
    (h : (e.perform r).1 = .built (.error error)) : (e.perform r).2 = e := by
  rcases e.perform_build_cases (isBuild_of_built h) with ⟨error', heq⟩ | ⟨report, e', heq, -⟩
  · rw [heq]
  · rw [heq] at h
    cases h

/-! ## Builds put into a history -/

/-- What is not marked of a list in which some items are. -/
def unmarked {α : Type} (items : List (α × Bool)) : List α :=
  (items.filter fun item ↦ !item.2).map Prod.fst

theorem unmarked_cons_true {α : Type} (a : α) (items : List (α × Bool)) :
    unmarked ((a, true) :: items) = unmarked items := rfl

theorem unmarked_cons_false {α : Type} (a : α) (items : List (α × Bool)) :
    unmarked ((a, false) :: items) = a :: unmarked items := rfl

/-- Every request that is marked fails to build where it stands. -/
def MarksFail (e : Engine σ) (history : List (Request σ × Bool)) : Prop :=
  ∀ before r after, history = before ++ (r, true) :: after →
    ∃ error, ((e.after (before.map Prod.fst)).perform r).1 = .built (.error error)

theorem MarksFail.tail {e : Engine σ} {r : Request σ} {marked : Bool}
    {history : List (Request σ × Bool)} (h : e.MarksFail ((r, marked) :: history)) :
    (e.perform r).2.MarksFail history := by
  intro before r' after heq
  exact h ((r, marked) :: before) r' after (by rw [heq, List.cons_append])

/-- Without the builds that fail a history comes to the same. -/
theorem MarksFail.replies_unmarked {e : Engine σ} {history : List (Request σ × Bool)}
    (h : e.MarksFail history) :
    unmarked ((e.replies (history.map Prod.fst)).zip (history.map Prod.snd))
        = e.replies (unmarked history) ∧
      e.after (history.map Prod.fst) = e.after (unmarked history) := by
  induction history generalizing e with
  | nil => exact ⟨rfl, rfl⟩
  | cons item history ih =>
    obtain ⟨r, marked⟩ := item
    obtain ⟨hreplies, hafter⟩ := ih h.tail
    rw [List.map_cons, List.map_cons, replies_cons, List.zip_cons_cons, after_cons]
    cases marked with
    | true =>
      obtain ⟨error, herror⟩ := h [] r history rfl
      have hsame : (e.perform r).2 = e := perform_of_error herror
      rw [hsame] at hreplies hafter
      rw [unmarked_cons_true, unmarked_cons_true, hsame]
      exact ⟨hreplies, hafter⟩
    | false =>
      rw [unmarked_cons_false, unmarked_cons_false, replies_cons, after_cons, hreplies, hafter]
      exact ⟨rfl, rfl⟩

/-- **What a build may change.** A build fails and leaves the engine as it was, or it succeeds and
changes the programs and the names that it defines and nothing else. As long as it reads, it works
against the dictionary of the engine, whatever it has defined so far. So builds that fail can be put
into any history: everything else is answered as it was without them, and the engine is the same in
the end. -/
theorem build_frame (e : Engine σ) :
    (∀ r : Request σ, r.IsBuild → (∃ error, e.perform r = (.built (.error error), e)) ∨
      ∃ report e', e.perform r = (.built (.ok report), e') ∧ e.Installs report e') ∧
    (∀ seen b, (Build.start e.dictionary).read seen = .ok b → b.dictionary = e.dictionary) ∧
    ∀ history : List (Request σ × Bool), e.MarksFail history →
      unmarked ((e.replies (history.map Prod.fst)).zip (history.map Prod.snd))
          = e.replies (unmarked history) ∧
        e.after (history.map Prod.fst) = e.after (unmarked history) :=
  ⟨fun _ hr ↦ e.perform_build_cases hr, fun _ _ hread ↦ Build.read_dictionary hread,
    fun _ h ↦ h.replies_unmarked⟩

/-- Two builds that fail among other requests: a text that closes one definition more than it opens,
and bytes that encode no text. -/
def strayBuilds : List (Request Unit × Bool) :=
  [(.build ": f ; ;", true), (.toggle, false), (.buildBytes [255], true),
    (.processBlock #[.half] #[.half], false)]

theorem perform_strayText (e : Engine Unit) :
    (e.perform (.build ": f ; ;")).1 = .built (.error (.unexpectedDefinitionEnd ⟨1, 7⟩)) := by
  have htokens : tokenize ": f ; ;" = [⟨.definitionStart, ":", ⟨1, 1⟩⟩, ⟨.name, "f", ⟨1, 3⟩⟩,
      ⟨.definitionEnd, ";", ⟨1, 5⟩⟩, ⟨.definitionEnd, ";", ⟨1, 7⟩⟩] := by cbv
  have hcompile : compile e.dictionary ": f ; ;" = .error (.unexpectedDefinitionEnd ⟨1, 7⟩) := by
    rw [compile, htokens]
    rfl
  have hbuild : e.build ": f ; ;" = .error (.unexpectedDefinitionEnd ⟨1, 7⟩) := by
    rw [build, hcompile]
    rfl
  rw [perform, hbuild]
  rfl

theorem perform_strayBytes (e : Engine Unit) : (e.perform (.buildBytes [255])).1
    = .built (.error (.invalidEncoding ⟨0, some 1⟩)) := by
  have hdecode : Utf8.decode [255] = .error ⟨0, some 1⟩ := by rfl
  rw [perform, buildBytes, hdecode]
  rfl

/-- The definition that was closed before the error is not there, and the requests between the
builds are answered as without them. -/
theorem build_frame_stray :
    (Request.build ": f ; ;" : Request Unit).IsBuild ∧
      (new {} ()).perform (.build ": f ; ;")
        = (.built (.error (.unexpectedDefinitionEnd ⟨1, 7⟩)), new {} ()) ∧
      (new {} ()).MarksFail strayBuilds ∧
      unmarked (((new {} ()).replies (strayBuilds.map Prod.fst)).zip (strayBuilds.map Prod.snd))
        = (new {} ()).replies [.toggle, .processBlock #[.half] #[.half]] := by
  have hmarks : (new {} ()).MarksFail strayBuilds := by
    intro before r after heq
    match before, heq with
    | [], heq => cases heq; exact ⟨_, perform_strayText _⟩
    | [_], heq => cases heq
    | [_, _], heq => cases heq; exact ⟨_, perform_strayBytes _⟩
    | [_, _, _], heq => cases heq
    | _ :: _ :: _ :: _ :: before, heq =>
      have hlength := congrArg List.length heq
      simp [strayBuilds] at hlength
  have htext := perform_strayText (new {} ())
  refine ⟨trivial, ?_, hmarks, ((build_frame (new {} ())).2.2 strayBuilds hmarks).1⟩
  rcases (build_frame (new {} ())).1 (.build ": f ; ;") trivial with ⟨error, heq⟩ |
    ⟨report, e', heq, -⟩
  · rw [heq] at htext ⊢
    exact congrArg (·, new {} ()) htext
  · rw [heq] at htext
    cases htext

end Engine

end StackSynth
