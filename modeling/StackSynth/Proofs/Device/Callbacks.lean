import StackSynth.Proofs.Device.Weaving
import StackSynth.Proofs.Engine.Blocks
import StackSynth.Session.Play

/-!
# What a device hears

A device calls back for samples whenever it needs some, and each time it brings a buffer of its own
with a length and a number of channels that it chooses. A stereo block is rendered for each call
into two buffers that are kept from call to call.

Nothing of this can be heard, as long as the renderer writes every frame that it is given
(`Renderer.WritesAll`): the device hears the blocks that the renderer gives over silence, one for
each call (`Interleaver.serve_eq`), and what stood in any of the buffers is gone. An engine writes
every frame, and its blocks in a row are the frames of one long block
(`Engine.flatMap_blocks`).
-/

namespace StackSynth

variable {σ : Type}

/-! ## Renderers -/

namespace Renderer

/-- A renderer that writes every frame it is given: its blocks are as long as those it was given,
and nothing that stood in those has come through. -/
structure WritesAll (render : Renderer σ) : Prop where
  size_left : ∀ state {left right}, left.size = right.size →
    (render state left right).1.1.size = left.size
  size_right : ∀ state {left right}, left.size = right.size →
    (render state left right).1.2.size = right.size
  fresh : ∀ state {left right left' right' : Array Sample}, left.size = right.size →
    left'.size = left.size → right'.size = right.size →
      render state left' right' = render state left right

/-- A block of some length, rendered over silence. -/
def block (render : Renderer σ) (state : σ) (n : Nat) : (Array Sample × Array Sample) × σ :=
  render state (Array.replicate n .zero) (Array.replicate n .zero)

/-- Blocks of some lengths, rendered one after the other over silence. -/
def blocks (render : Renderer σ) (state : σ) : List Nat → List (Array Sample × Array Sample)
  | [] => []
  | n :: sizes => (render.block state n).1 :: render.blocks (render.block state n).2 sizes

/-- The renderer that also writes down the lengths of the blocks it is given. -/
def logged (render : Renderer σ) : Renderer (σ × List (Nat × Nat)) :=
  fun (state, log) left right ↦
    let (block, state) := render state left right
    (block, state, log ++ [(left.size, right.size)])

theorem logged_apply (render : Renderer σ) (state : σ) (log : List (Nat × Nat))
    (left right : Array Sample) : render.logged (state, log) left right =
      ((render state left right).1, (render state left right).2,
        log ++ [(left.size, right.size)]) := rfl

variable {render : Renderer σ}

theorem WritesAll.size_block (h : render.WritesAll) (state : σ) (n : Nat) :
    (render.block state n).1.1.size = n ∧ (render.block state n).1.2.size = n := by
  have hsize : (Array.replicate n Sample.zero).size = (Array.replicate n Sample.zero).size := rfl
  refine ⟨(h.size_left state hsize).trans ?_, (h.size_right state hsize).trans ?_⟩ <;>
    rw [Array.size_replicate]

/-- Over whatever a block is rendered, it is as over silence. -/
theorem WritesAll.eq_block (h : render.WritesAll) (state : σ) {left right : Array Sample}
    {n : Nat} (hleft : left.size = n) (hright : right.size = n) :
    render state left right = render.block state n :=
  h.fresh state (by simp) (by simpa using hleft) (by simpa using hright)

end Renderer

/-! ## Calls of a device -/

/-- A call of a device: its buffer, with whatever stands in it, and the number of its channels. -/
structure Callback where
  output : Array Sample
  channels : Nat

namespace Callback

/-- Whole frames that fit into the buffer. -/
def frames (c : Callback) : Nat := c.output.size / max c.channels 1

/-- What a call is about, without what stands in the buffer. -/
def shape (c : Callback) : Nat × Nat := (c.output.size, c.channels)

end Callback

namespace Interleaver

theorem le_size_reserve (i : Interleaver) (frames : Nat) :
    frames ≤ (i.reserve frames).left.size := by
  rw [reserve]
  split
  next => exact Nat.le_of_eq (size_resize frames i.left).symm
  next h => exact Nat.le_of_not_lt h

/-- The buffers have room for the whole block, the left one and with it the right one. -/
theorem size_slices (i : Interleaver) (frames : Nat) :
    ((i.reserve frames).left.extract 0 frames).size = frames ∧
      ((i.reserve frames).right.extract 0 frames).size = frames := by
  have hroom := i.le_size_reserve frames
  have heq := (i.reserve frames).size_eq
  rw [Array.size_extract, Array.size_extract]
  omega

/-- Answers calls one after the other: the buffers of the device and the state of the renderer. -/
def serve (render : Renderer σ) (state : σ) (i : Interleaver) :
    List Callback → List (Array Sample) × σ
  | [] => ([], state)
  | c :: calls =>
    let (output, state, i) := i.fillInto render c.output c.channels state
    let (outputs, state) := serve render state i calls
    (output :: outputs, state)

theorem fillInto_logged (render : Renderer σ) (output : Array Sample) (channels : Nat) (state : σ)
    (log : List (Nat × Nat)) (i : Interleaver) :
    i.fillInto render.logged output channels (state, log)
      = ((i.fillInto render output channels state).1,
        ((i.fillInto render output channels state).2.1,
          log ++ [(output.size / max channels 1, output.size / max channels 1)]),
        (i.fillInto render output channels state).2.2) := by
  obtain ⟨hleft, hright⟩ := i.size_slices (output.size / max channels 1)
  simp only [fillInto, Renderer.logged_apply, hleft, hright]

/-- The renderer is called once for each call, with blocks of as many frames as fit. -/
theorem serve_logged (render : Renderer σ) (state : σ) (log : List (Nat × Nat)) (i : Interleaver)
    (calls : List Callback) :
    serve render.logged (state, log) i calls
      = ((serve render state i calls).1, (serve render state i calls).2,
        log ++ calls.map fun c ↦ (c.frames, c.frames)) := by
  induction calls generalizing state log i with
  | nil => simp [serve]
  | cons c calls ih =>
    rw [serve, fillInto_logged]
    simp only [ih]
    rw [serve, List.map_cons, List.append_assoc]
    rfl

variable {render : Renderer σ}

theorem fillInto_of_writesAll (h : render.WritesAll) (c : Callback) (state : σ) (i : Interleaver) :
    (i.fillInto render c.output c.channels state).1
        = weave (max c.channels 1) (render.block state c.frames).1.1
          (render.block state c.frames).1.2 c.output ∧
      (i.fillInto render c.output c.channels state).2.1 = (render.block state c.frames).2 := by
  obtain ⟨hleft, hright⟩ := i.size_slices c.frames
  have hblock := h.eq_block state hleft hright
  rw [← hblock]
  exact ⟨rfl, rfl⟩

/-- The device gets the blocks that the renderer gives over silence. -/
theorem serve_eq (h : render.WritesAll) (state : σ) (i : Interleaver) (calls : List Callback) :
    serve render state i calls
      = (List.zipWith (fun c block ↦ weave (max c.channels 1) block.1 block.2 c.output) calls
          (render.blocks state (calls.map Callback.frames)),
        (calls.map Callback.frames).foldl (fun state n ↦ (render.block state n).2) state) := by
  induction calls generalizing state i with
  | nil => rfl
  | cons c calls ih =>
    obtain ⟨houtput, hstate⟩ := fillInto_of_writesAll h c state i
    rw [serve]
    simp only [ih, houtput, hstate]
    rfl

/-- What stands in the buffers of the device, and in those that are kept, does not matter. -/
theorem serve_congr (h : render.WritesAll) (state : σ) (i i' : Interleaver)
    {calls calls' : List Callback} (hshape : calls'.map Callback.shape = calls.map Callback.shape) :
    serve render state i' calls' = serve render state i calls := by
  induction calls generalizing state i i' calls' with
  | nil =>
    rw [List.map_eq_nil_iff.mp hshape]
    rfl
  | cons c calls ih =>
    obtain ⟨c', rest, rfl, hfirst, hrest⟩ := List.map_eq_cons_iff.mp hshape
    have hsize : c'.output.size = c.output.size := congrArg Prod.fst hfirst
    have hchannels : c'.channels = c.channels := congrArg Prod.snd hfirst
    have hframes : c'.frames = c.frames := by
      rw [Callback.frames, hsize, hchannels, Callback.frames]
    obtain ⟨houtput, hstate⟩ := fillInto_of_writesAll h c state i
    obtain ⟨houtput', hstate'⟩ := fillInto_of_writesAll h c' state i'
    have hweave : (i'.fillInto render c'.output c'.channels state).1
        = (i.fillInto render c.output c.channels state).1 := by
      rw [houtput', houtput, hframes, hchannels, weave_congr (Nat.le_max_right _ _) hsize]
    rw [serve, serve]
    simp only [hweave, hstate', hstate, hframes]
    rw [ih _ _ _ hrest]

end Interleaver

/-! ## Engines -/

namespace Engine

theorem renderer_apply (e : Engine σ) {left right : Array Sample} {n : Nat}
    (hleft : left.size = n) (hright : right.size = n) :
    renderer e left right = (((Array.range n).map fun k ↦ (e.scheduler.heard k).1,
      (Array.range n).map fun k ↦ (e.scheduler.heard k).2), e.advanced n) := by
  rw [renderer, processBlock_of_size_eq e hleft hright]

/-- An engine writes every frame. -/
theorem writesAll_renderer : (renderer : Renderer (Engine σ)).WritesAll where
  size_left e left right h := by rw [renderer_apply e rfl h.symm]; simp
  size_right e left right h := by rw [renderer_apply e rfl h.symm]; simp [h]
  fresh e left right left' right' h hleft hright := by
    rw [renderer_apply e rfl h.symm, renderer_apply e hleft (hright.trans h.symm)]

theorem block_renderer (e : Engine σ) (n : Nat) :
    Renderer.block renderer e n = (((Array.range n).map fun k ↦ (e.scheduler.heard k).1,
      (Array.range n).map fun k ↦ (e.scheduler.heard k).2), e.advanced n) :=
  renderer_apply e (by simp) (by simp)

theorem foldl_block (e : Engine σ) (sizes : List Nat) :
    sizes.foldl (fun e n ↦ (Renderer.block renderer e n).2) e = e.advanced sizes.sum := by
  induction sizes generalizing e with
  | nil => rfl
  | cons n sizes ih => rw [List.foldl_cons, block_renderer, ih, ← advanced_add, List.sum_cons]

/-- Blocks in a row are the frames of one long block. -/
theorem flatMap_blocks (e : Engine σ) (sizes : List Nat) :
    (Renderer.blocks renderer e sizes).flatMap (fun block ↦ (block.1.zip block.2).toList)
      = (List.range sizes.sum).map e.scheduler.heard := by
  induction sizes generalizing e with
  | nil => rfl
  | cons n sizes ih =>
    have hfirst : ((Renderer.block renderer e n).1.1.zip (Renderer.block renderer e n).1.2).toList
        = (List.range n).map e.scheduler.heard := by
      rw [block_renderer, Array.toList_zip, Array.toList_map, Array.toList_map,
        Array.toList_range, List.zip_map']
    have hrest : (List.range sizes.sum).map (Renderer.block renderer e n).2.scheduler.heard
        = (List.range sizes.sum).map fun k ↦ e.scheduler.heard (n + k) := by
      rw [block_renderer]
      exact List.map_congr_left fun k _ ↦ (e.scheduler.heard_add n k).symm
    rw [Renderer.blocks, List.flatMap_cons, hfirst, ih, hrest, List.sum_cons, List.range_add,
      List.map_append, List.map_map]
    rfl

end Engine

namespace Interleaver

theorem size_getElem?_blocks {render : Renderer σ} (h : render.WritesAll) (state : σ)
    {sizes : List Nat} {k n : Nat} (hk : sizes[k]? = some n) :
    ∃ left right, (render.blocks state sizes)[k]? = some (left, right) ∧ left.size = n ∧
      right.size = n := by
  induction sizes generalizing state k with
  | nil => cases hk
  | cons m sizes ih =>
    cases k with
    | zero =>
      cases hk
      exact ⟨_, _, rfl, h.size_block state _⟩
    | succ k => exact ih _ hk

/-- **The device hears what is rendered.** For every call the renderer is called once, with two
blocks of as many frames as fit into the buffer of the device, and it makes no difference that it is
called from here. What the device finds in its buffer is the block that the renderer gives over
silence: half the sum of its channels on a device with one channel, and otherwise the left and the
right channel before silent ones, with silence behind the last whole frame. So it depends neither on
what stood in any of the buffers nor on how the kept buffers came about. When an engine renders, the
blocks are the frames of one long block that has room for all of them, and the engine is the one
behind that block. -/
theorem serve_plays {render : Renderer σ} (h : render.WritesAll) (state : σ) (i : Interleaver)
    (calls : List Callback) :
    serve render.logged (state, []) i calls = ((serve render state i calls).1,
        (serve render state i calls).2, calls.map fun c ↦ (c.frames, c.frames)) ∧
      (∀ (k : Nat) c, calls[k]? = some c → ∃ left right output,
        (render.blocks state (calls.map Callback.frames))[k]? = some (left, right) ∧
          left.size = c.frames ∧ right.size = c.frames ∧
          (serve render state i calls).1[k]? = some output ∧ output.size = c.output.size ∧
          Plays c.channels left right output) ∧
      (∀ i' calls', calls'.map Callback.shape = calls.map Callback.shape →
        serve render state i' calls' = serve render state i calls) ∧
      ∀ {τ : Type} (e : Engine τ) (left right : Array Sample),
        Engine.room left right = (calls.map Callback.frames).sum →
          (Engine.renderer : Renderer (Engine τ)).WritesAll ∧
            (Renderer.blocks Engine.renderer e (calls.map Callback.frames)).flatMap
                (fun block ↦ (block.1.zip block.2).toList)
              = (e.perform (.processBlock left right)).1.frames ∧
            (serve Engine.renderer e i calls).2 = (e.perform (.processBlock left right)).2 := by
  refine ⟨serve_logged render state [] i calls, fun k c hk ↦ ?_, fun i' calls' hshape ↦ ?_,
    fun e left right hroom ↦ ⟨Engine.writesAll_renderer, ?_, ?_⟩⟩
  · have hframes : (calls.map Callback.frames)[k]? = some c.frames := by
      rw [List.getElem?_map, hk, Option.map_some]
    obtain ⟨left, right, hblock, hleft, hright⟩ := size_getElem?_blocks h state hframes
    refine ⟨left, right, _, hblock, hleft, hright, ?_, size_weave _ _ _ _,
      plays_weave hleft hright⟩
    rw [serve_eq h, List.getElem?_zipWith, hk, hblock]
  · exact serve_congr h state i i' hshape
  · rw [Engine.flatMap_blocks, Engine.frames_processBlock, hroom]
  · rw [serve_eq Engine.writesAll_renderer, Engine.foldl_block, Engine.perform_processBlock, hroom]

/-- The renderer that numbers its blocks: the left samples bear the number, the right ones the next
one. -/
def numbering : Renderer Nat := fun n left right ↦
  ((Array.replicate left.size ⟨.ofNat n⟩, Array.replicate right.size ⟨.ofNat (n + 1)⟩), n + 1)

theorem writesAll_numbering : numbering.WritesAll where
  size_left n left right _ := Array.size_replicate ..
  size_right n left right _ := Array.size_replicate ..
  fresh n left right left' right' _ hleft hright := by
    rw [numbering, numbering, hleft, hright]

/-- Calls with half a frame too many, with no room for a frame, and with a channel too many;
something stands in every buffer. -/
def unevenCalls : List Callback :=
  [⟨Array.replicate 5 .half, 2⟩, ⟨#[.half], 2⟩, ⟨Array.replicate 3 .half, 3⟩]

/-- The second call, which gets no frame, counts as a block. -/
theorem serve_plays_uneven : numbering.WritesAll ∧
    (serve numbering.logged (0, []) {} unevenCalls).2.2 = [(2, 2), (0, 0), (1, 1)] ∧
      Plays 2 #[⟨0⟩, ⟨0⟩] #[⟨1⟩, ⟨1⟩] #[⟨0⟩, ⟨1⟩, ⟨0⟩, ⟨1⟩, .zero] ∧
      Plays 3 #[⟨2⟩] #[⟨3⟩] #[⟨2⟩, ⟨3⟩, .zero] := by
  obtain ⟨hlog, hplays, -⟩ := serve_plays writesAll_numbering 0 {} unevenCalls
  refine ⟨writesAll_numbering, ?_, ?_, ?_⟩
  · rw [hlog]
    rfl
  · obtain ⟨left, right, output, hblock, -, -, houtput, -, h⟩ := hplays 0 _ rfl
    cases hblock
    cases houtput
    exact h
  · obtain ⟨left, right, output, hblock, -, -, houtput, -, h⟩ := hplays 2 _ rfl
    cases hblock
    cases houtput
    exact h

end Interleaver

end StackSynth
