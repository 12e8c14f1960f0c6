import StackSynth.Proofs.Engine.Frames

/-!
# What histories answer

`Engine.after` is what a history makes of an engine, and `Engine.replies` is what is answered on the
way. Of the answers to blocks it matters which frames are in the buffers (`Reply.frames`) and which
fault came with them (`Reply.fault?`), of the answers to builds whether they succeeded
(`Reply.report?`).

A block answers as its frames do one by one and leaves the engine `Engine.advanced` by as many
frames. Every other request answers without frames or faults, and as long as no build succeeds it
leaves the program and the stack alone (`Engine.perform_cases`). A history without a build that
succeeds is called quiet.

## Where frames start

`Engine.starts` lists the schedulers from which the frames of a history start, over all its blocks.
It says of every single frame what the answers say of blocks.
-/

namespace StackSynth

variable {σ : Type}

/-- Behind its fresh part a buffer is as it was. -/
theorem getElem?_overwrite {α : Type} (fresh buffer : Array α) {i : Nat} (hi : fresh.size ≤ i) :
    (overwrite fresh buffer)[i]? = buffer[i]? := by
  rw [overwrite, Array.getElem?_append_right hi, Array.getElem?_extract]
  split
  next h => rw [show fresh.size + (i - fresh.size) = i by omega]
  next h => rw [Array.getElem?_eq_none (by omega)]

/-! ## Answers -/

namespace Engine

namespace Reply

/-- The frames in the buffers of a block. Where the buffers differ in length, the longer one counts
as far as the shorter reaches. -/
def frames : Reply → List Frame
  | .block (left, right) _ => (left.zip right).toList
  | .done | .built _ | .playing _ | .faults _ => []

/-- The fault of a block. -/
def fault? : Reply → Option Fault
  | .block _ fault => fault
  | .done | .built _ | .playing _ | .faults _ => none

/-- The report of a build that succeeded. -/
def report? : Reply → Option BuildReport
  | .built (.ok report) => some report
  | .built (.error _) | .done | .playing _ | .block _ _ | .faults _ => none

end Reply

/-- What an engine answers to some requests, in order. -/
def replies (e : Engine σ) : List (Request σ) → List Reply
  | [] => []
  | r :: requests => (e.perform r).1 :: (e.perform r).2.replies requests

/-- No build succeeds. -/
def Quiet (e : Engine σ) (requests : List (Request σ)) : Prop :=
  ∀ reply ∈ e.replies requests, reply.report? = none

variable {e : Engine σ}

@[simp] theorem after_nil (e : Engine σ) : e.after [] = e := rfl

@[simp] theorem after_cons (e : Engine σ) (r : Request σ) (requests : List (Request σ)) :
    e.after (r :: requests) = (e.perform r).2.after requests := rfl

@[simp] theorem replies_nil (e : Engine σ) : e.replies [] = [] := rfl

@[simp] theorem replies_cons (e : Engine σ) (r : Request σ) (requests : List (Request σ)) :
    e.replies (r :: requests) = (e.perform r).1 :: (e.perform r).2.replies requests := rfl

theorem filterMap_replies_cons {α : Type} (f : Reply → Option α) (e : Engine σ) (r : Request σ)
    (requests : List (Request σ)) : (e.replies (r :: requests)).filterMap f =
      (f (e.perform r).1).toList ++ ((e.perform r).2.replies requests).filterMap f := by
  rw [replies_cons, List.filterMap_eq_flatMap_toList, List.flatMap_cons,
    ← List.filterMap_eq_flatMap_toList]

theorem replies_append (e : Engine σ) (p q : List (Request σ)) :
    e.replies (p ++ q) = e.replies p ++ (e.after p).replies q := by
  induction p generalizing e with
  | nil => rfl
  | cons r p ih =>
    rw [List.cons_append, replies_cons, ih, replies_cons, after_cons, List.cons_append]

@[simp] theorem length_replies (e : Engine σ) (requests : List (Request σ)) :
    (e.replies requests).length = requests.length := by
  induction requests generalizing e with
  | nil => rfl
  | cons r requests ih => rw [replies_cons, List.length_cons, ih, List.length_cons]

theorem quiet_cons_iff {r : Request σ} {requests : List (Request σ)} :
    e.Quiet (r :: requests) ↔
      (e.perform r).1.report? = none ∧ (e.perform r).2.Quiet requests := by
  rw [Quiet, replies_cons, List.forall_mem_cons, Quiet]

/-! ## Blocks -/

/-- The engine after `n` frames. -/
def advanced (e : Engine σ) (n : Nat) : Engine σ :=
  { e with
    scheduler := e.scheduler.later n
    faults := (e.scheduler.faults n).foldl (fun q fault ↦ (q.send fault).2) e.faults }

theorem advanced_zero (e : Engine σ) : e.advanced 0 = e := rfl

theorem advanced_add (e : Engine σ) (m n : Nat) :
    e.advanced (m + n) = (e.advanced m).advanced n := by
  rw [advanced, e.scheduler.later_add, e.scheduler.faults_add, List.foldl_append]
  rfl

/-- Frames that fit into both of two buffers. -/
def room (left right : Array Sample) : Nat := min left.size right.size

section Block

variable (e : Engine σ) (left right : Array Sample)

theorem processBlock_eq : e.processBlock left right =
    ((e.scheduler.render left right).1,
      (List.range (room left right)).findSome? e.scheduler.fault?,
      e.advanced (room left right)) := by
  rw [processBlock, Scheduler.render_eq, advanced, Scheduler.faults_eq_toList, room]
  cases (List.range (min left.size right.size)).findSome? e.scheduler.fault? <;> rfl

theorem perform_processBlock : e.perform (.processBlock left right) =
    (.block (e.scheduler.render left right).1
      ((List.range (room left right)).findSome? e.scheduler.fault?),
      e.advanced (room left right)) := by
  rw [perform, processBlock_eq]

theorem scheduler_processBlock : (e.perform (.processBlock left right)).2.scheduler =
    e.scheduler.later (room left right) := by
  rw [perform_processBlock, advanced]

theorem frames_processBlock : (e.perform (.processBlock left right)).1.frames =
    (List.range (room left right)).map e.scheduler.heard := by
  rw [perform_processBlock, Scheduler.render_eq, Reply.frames, Array.toList_zip, overwrite,
    overwrite, room]
  simp only [Array.toList_append, Array.toList_map, Array.toList_range, Array.toList_extract,
    Array.size_map, Array.size_range]
  -- behind the fresh frames one of the buffers is at its end
  have hbehind : (left.toList.extract (min left.size right.size) left.size).zip
      (right.toList.extract (min left.size right.size) right.size) = [] := by
    rw [List.zip_eq_nil_iff, List.eq_nil_iff_length_eq_zero, List.eq_nil_iff_length_eq_zero]
    simp only [List.extract_eq_take_drop, List.length_take, List.length_drop, Array.length_toList]
    omega
  rw [List.zip_append (by simp), hbehind, List.zip_map', List.append_nil]

theorem fault?_processBlock : (e.perform (.processBlock left right)).1.fault?.toList =
    e.scheduler.faults (room left right) := by
  rw [perform_processBlock, Scheduler.faults_eq_toList]
  rfl

theorem fault?_processBlock_eq_some_iff {f : Fault} :
    (e.perform (.processBlock left right)).1.fault? = some f ↔
      ∃ k < room left right, e.scheduler.fault? k = some f := by
  rw [← Option.mem_toList, fault?_processBlock, Scheduler.mem_faults]

/-- Behind the frames that fit into both buffers, both stay as they were. -/
theorem getElem?_processBlock {i : Nat} (hi : room left right ≤ i) :
    (e.processBlock left right).1.1[i]? = left[i]? ∧
      (e.processBlock left right).1.2[i]? = right[i]? := by
  rw [processBlock, Scheduler.render_eq]
  exact ⟨getElem?_overwrite _ _ (by simpa [room] using hi),
    getElem?_overwrite _ _ (by simpa [room] using hi)⟩

end Block

/-! ## What requests leave alone -/

/-- Nothing that a run starts from differs but the rig. -/
structure Alike (s t : Scheduler σ) : Prop where
  stack : t.stack = s.stack
  program : t.machine.program = s.machine.program

/-- What a request can do: render a block, build with success, or leave program and stack alone. -/
theorem perform_cases (e : Engine σ) (r : Request σ) :
    (∃ left right, r = .processBlock left right) ∨
      (∃ tokens c report, compileTokens e.dictionary tokens = .ok c ∧
        e.perform r = (.built (.ok report), e.installed c)) ∨
      (e.perform r).1.frames = [] ∧ (e.perform r).1.fault? = none ∧
        (e.perform r).1.report? = none ∧ Alike e.scheduler (e.perform r).2.scheduler := by
  by_cases hr : r.IsBuild
  · rcases e.perform_of_isBuild hr with ⟨error, heq⟩ | ⟨tokens, c, hc, heq⟩
    · rw [heq]
      exact Or.inr (Or.inr ⟨rfl, rfl, rfl, rfl, rfl⟩)
    · exact Or.inr (Or.inl ⟨tokens, c, _, hc, heq⟩)
  · cases r with
    | build | buildBytes => exact absurd trivial hr
    | processBlock left right => exact Or.inl ⟨left, right, rfl⟩
    | _ => exact Or.inr (Or.inr ⟨rfl, rfl, rfl, rfl, rfl⟩)

/-! ## Where frames start -/

/-- The schedulers from which the frames of a request start. -/
def startsOf (e : Engine σ) : Request σ → List (Scheduler σ)
  | .processBlock left right => (List.range (room left right)).map e.scheduler.later
  | _ => []

/-- The schedulers from which the frames of a history start, in order. -/
def starts (e : Engine σ) : List (Request σ) → List (Scheduler σ)
  | [] => []
  | r :: requests => e.startsOf r ++ (e.perform r).2.starts requests

theorem fault?_perform (e : Engine σ) (r : Request σ) : (e.perform r).1.fault?.toList =
    (e.startsOf r).filterMap fun s ↦ s.fault? 0 := by
  have hbuilt : ∀ result, (e.built result).1.fault? = none := by
    rintro (error | ⟨report, e'⟩) <;> rfl
  cases r with
  | processBlock left right =>
    rw [fault?_processBlock, startsOf, List.filterMap_map, Scheduler.faults]
    rfl
  | build | buildBytes => rw [perform, hbuilt]; rfl
  | _ => rfl

/-- The faults that are answered are those of the frames, each once and in order. -/
theorem filterMap_fault?_replies (e : Engine σ) (requests : List (Request σ)) :
    (e.replies requests).filterMap Reply.fault?
      = (e.starts requests).filterMap fun s ↦ s.fault? 0 := by
  induction requests generalizing e with
  | nil => rfl
  | cons r requests ih =>
    rw [filterMap_replies_cons, ih, starts, List.filterMap_append, fault?_perform]

section Counted

variable {motive : Nat → Scheduler σ → Prop} (step : ∀ n s, motive n s → motive (n + 1) s.step.2)
  (alike : ∀ n s t, Alike s t → motive n s → motive n t)

include step in
theorem counted_later {n : Nat} {s : Scheduler σ} (h : motive n s) (k : Nat) :
    motive (n + k) (s.later k) := by
  induction k with
  | zero => exact h
  | succ k ih => exact step _ _ ih

include step alike

/-- What frames count up and what does not depend on the rig is counted up by as many frames as a
request without a build has. -/
theorem counted_perform {r : Request σ} (hr : (e.perform r).1.report? = none) {n : Nat}
    (h : motive n e.scheduler) :
    motive (n + (e.startsOf r).length) (e.perform r).2.scheduler := by
  have hblock : ∀ left right, r = .processBlock left right →
      motive (n + (e.startsOf r).length) (e.perform r).2.scheduler := by
    rintro left right rfl
    rw [perform_processBlock, startsOf, List.length_map, List.length_range]
    exact counted_later step h _
  rcases e.perform_cases r with ⟨left, right, heq⟩ | ⟨tokens, c, report, -, hbuilt⟩ |
    ⟨-, -, -, halike⟩
  · exact hblock left right heq
  · rw [hbuilt] at hr
    cases hr
  · cases r with
    | processBlock left right => exact hblock left right rfl
    | _ => exact alike _ _ _ halike h

/-- Frame by frame through a quiet history. -/
theorem counted_starts {requests : List (Request σ)} (hq : e.Quiet requests) {n : Nat}
    (h : motive n e.scheduler) {i : Nat} {s : Scheduler σ}
    (hs : (e.starts requests)[i]? = some s) : motive (n + i) s := by
  induction requests generalizing e n i with
  | nil => cases hs
  | cons r requests ih =>
    rw [quiet_cons_iff] at hq
    rw [starts] at hs
    by_cases hi : i < (e.startsOf r).length
    · rw [List.getElem?_append_left hi] at hs
      cases r with
      | processBlock left right =>
        rw [startsOf, List.getElem?_map, Option.map_eq_some_iff] at hs
        obtain ⟨k, hk, rfl⟩ := hs
        obtain ⟨-, rfl⟩ := List.getElem?_eq_some_iff.mp hk
        rw [List.getElem_range]
        exact counted_later step h _
      | _ => exact absurd hi (Nat.not_lt_zero _)
    · rw [Nat.not_lt] at hi
      rw [List.getElem?_append_right hi] at hs
      have hrest := ih hq.2 (counted_perform step alike hq.1 h) hs
      rwa [show n + (e.startsOf r).length + (i - (e.startsOf r).length) = n + i by omega] at hrest

end Counted

section Quiet

variable {motive : Scheduler σ → Prop} (step : ∀ s, motive s → motive s.step.2)
  (alike : ∀ s t, Alike s t → motive s → motive t)

include step in
theorem later_of_step {s : Scheduler σ} (h : motive s) (n : Nat) : motive (s.later n) :=
  counted_later (motive := fun _ ↦ motive) (n := 0) (fun _ ↦ step) h n

include step alike

/-- What frames keep and what does not depend on the rig is kept by requests without a build. -/
theorem perform_of_step {r : Request σ} (hr : (e.perform r).1.report? = none)
    (h : motive e.scheduler) : motive (e.perform r).2.scheduler :=
  counted_perform (motive := fun _ ↦ motive) (n := 0) (fun _ ↦ step) (fun _ ↦ alike) hr h

theorem starts_of_step {requests : List (Request σ)} (hq : e.Quiet requests)
    (h : motive e.scheduler) : ∀ s ∈ e.starts requests, motive s := by
  intro s hs
  obtain ⟨i, hi⟩ := List.mem_iff_getElem?.mp hs
  exact counted_starts (motive := fun _ ↦ motive) (n := 0) (fun _ ↦ step) (fun _ ↦ alike) hq h hi

/-- What holds behind one frame of a quiet history holds where every later frame starts. -/
theorem starts_pairwise {requests : List (Request σ)} (hq : e.Quiet requests) :
    (e.starts requests).Pairwise fun s t ↦ motive s.step.2 → motive t := by
  induction requests generalizing e with
  | nil => exact .nil
  | cons r requests ih =>
    rw [quiet_cons_iff] at hq
    rw [starts, List.pairwise_append]
    refine ⟨?_, ih hq.2, ?_⟩
    · cases r with
      | processBlock left right =>
        rw [startsOf, List.pairwise_map]
        refine List.pairwise_lt_range.imp fun {i j} hij h ↦ ?_
        obtain ⟨m, rfl⟩ : ∃ m, j = (i + 1) + m := ⟨j - (i + 1), by omega⟩
        rw [Scheduler.later_add]
        exact later_of_step step h m
      | _ => exact .nil
    · cases r with
      | processBlock left right =>
        rw [startsOf, List.forall_mem_map]
        intro i hi t ht h
        refine starts_of_step step alike hq.2 ?_ t ht
        obtain ⟨m, hm⟩ : ∃ m, room left right = (i + 1) + m :=
          ⟨room left right - (i + 1), by rw [List.mem_range] at hi; omega⟩
        rw [scheduler_processBlock, hm, Scheduler.later_add]
        exact later_of_step step h m
      | _ => simp [startsOf]

end Quiet

end Engine

end StackSynth
