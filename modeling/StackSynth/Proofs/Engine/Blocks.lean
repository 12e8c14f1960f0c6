import Mathlib.Algebra.Ring.Nat
import StackSynth.CommandLine.Render
import StackSynth.Proofs.Engine.Histories

/-!
# Cutting frames into blocks

Whoever asks for frames chooses the sizes of the blocks: a device by its periods, a rendering into
a file by an argument. A block advances the engine by its frames and nothing else, so blocks in a
row do what one block does that has room for all their frames (`Engine.after_cut`,
`Engine.frames_cut`, `Engine.faults_cut`), wherever a fault falls.

Rendering into a file stops at the first block that faults. Since at most one of the frames faults,
it stops with the same fault for every size of blocks, and without a fault it has the same samples
in the end (`Engine.renderBlocks_eq`).
-/

namespace StackSynth

variable {σ : Type}

namespace Engine

/-- Requests to fill pairs of buffers, one pair after the other. -/
def cut (blocks : List (Array Sample × Array Sample)) : List (Request σ) :=
  blocks.map fun (left, right) ↦ .processBlock left right

/-- Frames that fit into pairs of buffers. -/
def rooms (blocks : List (Array Sample × Array Sample)) : Nat :=
  (blocks.map fun (left, right) ↦ room left right).sum

theorem rooms_cons (b : Array Sample × Array Sample) (blocks : List (Array Sample × Array Sample)) :
    rooms (b :: blocks) = room b.1 b.2 + rooms blocks := by
  rw [rooms, List.map_cons, List.sum_cons, rooms]

section Cut

variable (e : Engine σ) (blocks : List (Array Sample × Array Sample))

theorem after_cut : e.after (cut blocks) = e.advanced (rooms blocks) := by
  induction blocks generalizing e with
  | nil => rfl
  | cons b blocks ih =>
    rw [cut, List.map_cons, after_cons, ← cut, ih, perform_processBlock, ← advanced_add, rooms_cons]

theorem frames_cut : (e.replies (cut blocks)).flatMap Reply.frames =
    (List.range (rooms blocks)).map e.scheduler.heard := by
  induction blocks generalizing e with
  | nil => rfl
  | cons b blocks ih =>
    have hlater : ((List.range (rooms blocks)).map fun k ↦ e.scheduler.heard (room b.1 b.2 + k))
        = (List.range (rooms blocks)).map (e.advanced (room b.1 b.2)).scheduler.heard :=
      List.map_congr_left fun k _ ↦ e.scheduler.heard_add _ _
    rw [cut, List.map_cons, replies_cons, ← cut, List.flatMap_cons, ih, frames_processBlock,
      perform_processBlock, rooms_cons, List.range_add, List.map_append, List.map_map, ← hlater]
    rfl

theorem faults_cut : (e.replies (cut blocks)).filterMap Reply.fault? =
    e.scheduler.faults (rooms blocks) := by
  induction blocks generalizing e with
  | nil => rfl
  | cons b blocks ih =>
    rw [cut, List.map_cons, filterMap_replies_cons, ← cut, ih, fault?_processBlock,
      perform_processBlock, rooms_cons, Scheduler.faults_add]
    rfl

theorem replies_cut_append (e : Engine σ) (before after : List (Array Sample × Array Sample))
    (b : Array Sample × Array Sample) :
    (e.replies (cut (before ++ b :: after)))[before.length]? =
      some ((e.advanced (rooms before)).perform (.processBlock b.1 b.2)).1 := by
  have hlength : before.length = (e.replies (cut before)).length := by
    rw [length_replies, cut, List.length_map]
  rw [cut, List.map_append, ← cut, replies_append, after_cut, hlength,
    List.getElem?_append_right (Nat.le_refl _), Nat.sub_self]
  rfl

end Cut

/-! ## Rendering into a file -/

/-- Into buffers of one length nothing but frames is written. -/
theorem processBlock_of_size_eq (e : Engine σ) {left right : Array Sample} {n : Nat}
    (hleft : left.size = n) (hright : right.size = n) :
    e.processBlock left right =
      (((Array.range n).map fun k ↦ (e.scheduler.heard k).1,
        (Array.range n).map fun k ↦ (e.scheduler.heard k).2),
        (List.range n).findSome? e.scheduler.fault?, e.advanced n) := by
  have hroom : room left right = n := by rw [room, hleft, hright, Nat.min_self]
  have hfresh : ∀ channel buffer : Array Sample, channel.size = buffer.size →
      overwrite channel buffer = channel := by
    intro channel buffer h
    rw [overwrite, h, Array.extract_empty_of_stop_le_start (Nat.le_refl _), Array.append_empty]
  rw [processBlock_eq, Scheduler.render_eq, ← room, hroom, hfresh _ _ (by simp [hleft]),
    hfresh _ _ (by simp [hright])]

theorem processFrames_eq (e : Engine σ) (n : Nat) :
    e.processFrames n =
      (((Array.range n).map fun k ↦ (e.scheduler.heard k).1,
        (Array.range n).map fun k ↦ (e.scheduler.heard k).2),
        (List.range n).findSome? e.scheduler.fault?, e.advanced n) :=
  processBlock_of_size_eq e (by simp) (by simp)

/-- Rendering block after block stops at the first fault and is one long rendering if there is
none. -/
theorem renderBlocks_eq (e : Engine σ) (left right : Array Sample) (sizes : List Nat) :
    e.renderBlocks left right sizes =
      match (List.range sizes.sum).findSome? e.scheduler.fault? with
      | some fault => .error fault
      | none => .ok ((left ++ (Array.range sizes.sum).map fun k ↦ (e.scheduler.heard k).1,
          right ++ (Array.range sizes.sum).map fun k ↦ (e.scheduler.heard k).2),
          e.advanced sizes.sum) := by
  induction sizes generalizing e left right with
  | nil => simp [renderBlocks, advanced_zero]
  | cons size sizes ih =>
    have hheard : ∀ k, (e.advanced size).scheduler.heard k = e.scheduler.heard (size + k) :=
      fun k ↦ (e.scheduler.heard_add size k).symm
    have hfault : (e.advanced size).scheduler.fault? = fun k ↦ e.scheduler.fault? (size + k) :=
      funext fun k ↦ (e.scheduler.fault?_add size k).symm
    rw [renderBlocks, processFrames_eq, List.sum_cons, List.range_add, List.findSome?_append,
      List.findSome?_map]
    cases hfirst : (List.range size).findSome? e.scheduler.fault? with
    | some fault => rfl
    | none =>
      simp only [ih, hheard, hfault, ← advanced_add, Array.range_add, Array.map_append,
        Array.map_map, Array.append_assoc, Option.none_or]
      rfl

theorem sum_blockSizes (blockSize frames : Nat) :
    (blockSizes blockSize frames).sum = frames := by
  have hwhole := Nat.div_add_mod frames blockSize
  rw [blockSizes, List.sum_append, List.sum_replicate_nat, Nat.mul_comm]
  split
  next h => rw [List.sum_nil]; omega
  next h => rw [List.sum_singleton]; omega

end Engine

/-- A rendering into a file does not depend on the size of its blocks. -/
theorem RenderArguments.run_blockSize (a : RenderArguments) (w : Workplace) {m n : Nat}
    (hm : 1 ≤ m) (hn : 1 ≤ n) :
    { a with blockSize := m }.run w = { a with blockSize := n }.run w := by
  have hblocks : ∀ (e : Engine Bank) (frames : Nat),
      e.renderBlocks #[] #[] (blockSizes m frames)
        = e.renderBlocks #[] #[] (blockSizes n frames) := by
    intro e frames
    rw [Engine.renderBlocks_eq, Engine.renderBlocks_eq, Engine.sum_blockSizes,
      Engine.sum_blockSizes]
  have hm0 : m ≠ 0 := by omega
  have hn0 : n ≠ 0 := by omega
  simp only [run, hblocks, hm0, hn0, if_false]

namespace Engine

/-- **The size of blocks does not matter.** Any cut of frames into blocks, the empty block included,
gives the same frames and the same faults as one block for all of them and leaves the same engine;
a fault comes with the very block that holds the frame that faults. A block consists of the frames
that fit into both buffers, and behind these it leaves the buffers alone. So rendering into a file
comes to the same for every size of blocks. -/
theorem cut_eq_processBlock (e : Engine σ) (blocks : List (Array Sample × Array Sample))
    (left right : Array Sample) (h : rooms blocks = room left right) :
    ((e.replies (cut blocks)).flatMap Reply.frames
        = (e.perform (.processBlock left right)).1.frames ∧
      (e.replies (cut blocks)).filterMap Reply.fault?
        = (e.perform (.processBlock left right)).1.fault?.toList ∧
      e.after (cut blocks) = (e.perform (.processBlock left right)).2) ∧
    (∀ before b after, blocks = before ++ b :: after →
      ∃ reply, (e.replies (cut blocks))[before.length]? = some reply ∧
        ∀ fault, reply.fault? = some fault ↔
          ∃ k < room b.1 b.2, e.scheduler.fault? (rooms before + k) = some fault) ∧
    ((e.perform (.processBlock left right)).1.frames
        = (List.range (room left right)).map e.scheduler.heard ∧
      ∀ i, room left right ≤ i → (e.processBlock left right).1.1[i]? = left[i]? ∧
        (e.processBlock left right).1.2[i]? = right[i]?) ∧
    ∀ (a : RenderArguments) (w : Workplace) (m n : Nat), 1 ≤ m → 1 ≤ n →
      { a with blockSize := m }.run w = { a with blockSize := n }.run w := by
  refine ⟨⟨?_, ?_, ?_⟩, ?_, ⟨?_, fun i hi ↦ ?_⟩, fun a w m n hm hn ↦ ?_⟩
  · rw [frames_cut, h, frames_processBlock]
  · rw [faults_cut, h, fault?_processBlock]
  · rw [after_cut, h, perform_processBlock]
  · rintro before b after rfl
    refine ⟨_, replies_cut_append e before after b, fun fault ↦ ?_⟩
    simp only [fault?_processBlock_eq_some_iff, Scheduler.fault?_add, advanced]
  · exact frames_processBlock e left right
  · exact getElem?_processBlock e left right hi
  · exact a.run_blockSize w hm hn

/-- An engine whose stack is full after two frames. -/
def climbing : Engine Unit := (new { stackLimit := 2 } ()).installed ⟨[.push 1], []⟩

/-- The third frame overflows the stack, and it is the first one behind an empty block. -/
theorem cut_eq_processBlock_overflow :
    rooms [(#[.zero, .zero], #[.zero, .zero]), (#[], #[]), (#[.zero, .zero], #[.half])]
        = room #[.zero, .zero, .zero] #[.zero, .zero, .zero] ∧
      (climbing.replies (cut [(#[.zero, .zero], #[.zero, .zero]), (#[], #[]),
        (#[.zero, .zero], #[.half])])).filterMap Reply.fault? = [.overflow literalWord 2] := by
  have hrooms : rooms [(#[.zero, .zero], #[.zero, .zero]), (#[], #[]),
      (#[.zero, .zero], #[.half])] = room #[.zero, .zero, .zero] #[.zero, .zero, .zero] := by
    decide
  have hfaults := (cut_eq_processBlock climbing _ _ _ hrooms).1.2.1
  exact ⟨hrooms, hfaults.trans rfl⟩

end Engine

end StackSynth
