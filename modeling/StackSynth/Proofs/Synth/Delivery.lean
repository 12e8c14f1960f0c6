import Mathlib.Data.List.DropRight
import StackSynth.Console.Reply
import StackSynth.Proofs.Synth.Keeping

/-!
# The delivery of MIDI events

Control threads send events while frames are rendered, in any interleaving; the frames of a block
count one by one, since a block may be cut between any two of them. What becomes of an interleaving
is written down in a log, with the answer to each send and the scheduler from which each frame
starts (`Bank.log`).

Read against a log, an event is accepted if its send was answered so, and it waits if no frame has
started since. The two sides of the queue meet in one invariant (`Bank.Holds`): the queue holds the
accepted events that wait, in order, and the rest of the MIDI input is what the accepted events
before them have made of it. Every entry of a log is judged by the entries before it
(`Bank.Judged`), and the judgements together say that no event is lost, doubled or overtaken.
-/

namespace StackSynth

/-! ## The queue of the input -/

namespace BoundedQueue

variable {α : Type} {q : BoundedQueue α}

theorem drain_of_receive_eq_none (h : q.receive.1 = none) : q.drain.2 = q := by
  obtain ⟨capacity, ⟨items⟩, hle⟩ := q
  cases items with
  | nil => rfl
  | cons first rest => cases h

theorem waiting_of_receive_eq_some {a : α} (h : q.receive.1 = some a) :
    q.waiting.toList = a :: q.receive.2.waiting.toList := by
  obtain ⟨capacity, ⟨items⟩, hle⟩ := q
  cases items with
  | nil => cases h
  | cons first rest =>
    cases h
    simp [receive]

end BoundedQueue

namespace MidiInput

/-- Applying an event and changing what waits have nothing to do with each other. -/
theorem apply_pending (m : MidiInput) (event : MidiEvent) (q : BoundedQueue MidiEvent) :
    { m with pending := q }.apply event = { m.apply event with pending := q } := by
  have hrelease : ∀ note,
      { m with pending := q }.release note = { m.release note with pending := q } := by
    intro note
    simp only [release]
    split <;> rfl
  cases event with
  | noteOff note => exact hrelease note
  | noteOn note velocity =>
    by_cases hv : velocity = 0
    · rw [apply, apply, if_pos hv, if_pos hv]
      exact hrelease note
    · rw [apply, apply, if_neg hv, if_neg hv]
  | controlChange controller value => rfl

/-- Applying events leaves those that wait. -/
theorem pending_apply (m : MidiInput) (event : MidiEvent) :
    (m.apply event).pending = m.pending := by
  have h := congrArg MidiInput.pending (m.apply_pending event m.pending)
  exact h

theorem pending_foldl_apply (m : MidiInput) (events : List MidiEvent) :
    (events.foldl apply m).pending = m.pending := by
  induction events generalizing m with
  | nil => rfl
  | cons event events ih => rw [List.foldl_cons, ih, pending_apply]

theorem tick_eq_foldl (m : MidiInput) :
    m.tick = m.pending.waiting.toList.foldl apply { m with pending := m.pending.drain.2 } := by
  rw [Array.foldl_toList]
  rfl

/-- A tick is the loop that takes the oldest event and applies it, as long as one waits. -/
theorem tick_eq_receive (m : MidiInput) :
    (m.pending.receive.1 = none → m.tick = m) ∧
      ∀ event, m.pending.receive.1 = some event →
        m.tick = ({ m with pending := m.pending.receive.2 }.apply event).tick := by
  refine ⟨fun hnone ↦ ?_, fun event hsome ↦ ?_⟩
  · have hdrain := BoundedQueue.drain_of_receive_eq_none hnone
    have hwaiting : m.pending.waiting = #[] := congrArg BoundedQueue.waiting hdrain.symm
    rw [tick_eq_foldl, hdrain, hwaiting]
    rfl
  · have happly : { { m with pending := m.pending.receive.2 }.apply event with
        pending := m.pending.drain.2 } = { m with pending := m.pending.drain.2 }.apply event := by
      rw [m.apply_pending event m.pending.receive.2, m.apply_pending event m.pending.drain.2]
    rw [tick_eq_foldl, tick_eq_foldl, pending_apply,
      BoundedQueue.waiting_of_receive_eq_some hsome, List.foldl_cons, ← happly]
    rfl

end MidiInput

namespace Bank

/-! ## Logs -/

/-- What may happen to an engine with a bank. -/
inductive Input where
  /-- An event is sent. -/
  | send (event : MidiEvent)
  /-- Something else is asked for. -/
  | request (r : Engine.Request Bank)

/-- What is written down of it. -/
inductive Entry where
  /-- An event was sent, and accepted or not. -/
  | sent (event : MidiEvent) (accepted : Bool)
  /-- A frame was rendered from here. -/
  | frame (s : Scheduler Bank)

/-- Sends an event. -/
def send (event : MidiEvent) (e : Engine Bank) : Bool × Engine Bank :=
  e.onModules (midiPart.change (·.send event))

/-- The console sends in this way, and says so if there was no room. -/
theorem sendMidi_eq (event : MidiEvent) (e : Engine Bank) : Command.sendMidi .whole event e
    = (.say (if (send event e).1 then none else some "MIDI queue full, event dropped"),
      (send event e).2) := rfl

/-- The log of inputs in order. -/
def log (e : Engine Bank) : List Input → List Entry
  | [] => []
  | .send event :: inputs => .sent event (send event e).1 :: log (send event e).2 inputs
  | .request r :: inputs => (e.startsOf r).map .frame ++ log (e.perform r).2 inputs

/-- A block is cut into two without a trace, so sends may come between any two of its frames. -/
theorem log_block_add (e : Engine Bank) {left right left₁ right₁ left₂ right₂ : Array Sample}
    (h : Engine.room left right = Engine.room left₁ right₁ + Engine.room left₂ right₂)
    (inputs : List Input) :
    log e (.request (.processBlock left₁ right₁) :: .request (.processBlock left₂ right₂) :: inputs)
      = log e (.request (.processBlock left right) :: inputs) := by
  have hstarts : ∀ m n, (List.range (m + n)).map e.scheduler.later
      = (List.range m).map e.scheduler.later ++ (List.range n).map (e.scheduler.later m).later := by
    intro m n
    rw [List.range_add, List.map_append, List.map_map]
    exact congrArg _ (List.map_congr_left fun k _ ↦ e.scheduler.later_add m k)
  simp only [log, Engine.startsOf, Engine.perform_processBlock]
  rw [h, Engine.advanced_add, hstarts, List.map_append, List.append_assoc]
  rfl

namespace Entry

/-- The event of a send that was accepted. -/
def accepted? : Entry → Option MidiEvent
  | .sent event true => some event
  | .sent _ false | .frame _ => none

/-- Whether the entry is about a send. -/
def isSend : Entry → Bool
  | .sent _ _ => true
  | .frame _ => false

/-- The events that wait where a frame starts; its tick takes all of them. -/
def taken : Entry → List MidiEvent
  | .sent _ _ => []
  | .frame s => s.rig.modules.midi.pending.waiting.toList

end Entry

/-- The events that were accepted, in order. -/
def accepted (entries : List Entry) : List MidiEvent := entries.filterMap Entry.accepted?

/-- The events that were accepted since the last frame, in order. -/
def waiting (entries : List Entry) : List MidiEvent := accepted (entries.rtakeWhile Entry.isSend)

variable {entries : List Entry}

theorem accepted_concat (entries : List Entry) (entry : Entry) :
    accepted (entries ++ [entry]) = accepted entries ++ entry.accepted?.toList := by
  cases h : entry.accepted? <;> simp [accepted, List.filterMap_append, h]

theorem waiting_sent (entries : List Entry) (event : MidiEvent) (b : Bool) :
    waiting (entries ++ [.sent event b])
      = waiting entries ++ (Entry.sent event b).accepted?.toList := by
  rw [waiting, List.rtakeWhile_concat_pos _ _ _ rfl, accepted_concat, waiting]

theorem waiting_frame (entries : List Entry) (s : Scheduler Bank) :
    waiting (entries ++ [.frame s]) = [] := by
  rw [waiting, List.rtakeWhile_concat_neg _ _ _ Bool.false_ne_true]
  rfl

/-- The events that were accepted before the last frame, in order. -/
def settled (entries : List Entry) : List MidiEvent := accepted (entries.rdropWhile Entry.isSend)

theorem settled_append_waiting (entries : List Entry) :
    settled entries ++ waiting entries = accepted entries := by
  rw [settled, waiting, accepted, accepted, accepted, ← List.filterMap_append,
    List.rdropWhile_append_rtakeWhile]

theorem settled_sent (entries : List Entry) (event : MidiEvent) (b : Bool) :
    settled (entries ++ [.sent event b]) = settled entries := by
  rw [settled, List.rdropWhile_concat_pos _ _ _ rfl, settled]

theorem settled_frame (entries : List Entry) (s : Scheduler Bank) :
    settled (entries ++ [.frame s]) = accepted entries := by
  rw [settled, List.rdropWhile_concat_neg _ _ _ Bool.false_ne_true, accepted_concat]
  exact List.append_nil _

/-! ## The invariant -/

/-- The input as the events that a log has accepted leave it. -/
def played (events : List MidiEvent) : MidiInput := events.foldl MidiInput.apply .new

/-- The queue holds what waits by the log, and the rest has come of what was accepted before. -/
structure Holds (entries : List Entry) (m : MidiInput) : Prop where
  capacity : m.pending.capacity = MidiInput.queueSize
  pending : m.pending.waiting.toList = waiting entries
  rest : { m with pending := .withCapacity MidiInput.queueSize } = played (settled entries)

namespace Holds

variable {m : MidiInput}

theorem new : Holds [] .new := ⟨rfl, rfl, rfl⟩

/-- An event is accepted if there is room beside those that wait. -/
theorem sent (h : Holds entries m) (event : MidiEvent) :
    ((m.send event).1 = true ↔ (waiting entries).length < MidiInput.queueSize) ∧
      Holds (entries ++ [.sent event (m.send event).1]) (m.send event).2 := by
  have hlength : m.pending.waiting.size = (waiting entries).length := by
    rw [← h.pending, Array.length_toList]
  rw [MidiInput.send, BoundedQueue.send]
  by_cases hroom : m.pending.waiting.size < m.pending.capacity
  · rw [dif_pos hroom]
    rw [hlength, h.capacity] at hroom
    refine ⟨⟨fun _ ↦ hroom, fun _ ↦ rfl⟩, h.capacity, ?_, ?_⟩
    · rw [waiting_sent, ← h.pending]
      exact Array.toList_push
    · rw [settled_sent, ← h.rest]
  · rw [dif_neg hroom]
    rw [hlength, h.capacity] at hroom
    refine ⟨⟨fun hfalse ↦ absurd hfalse Bool.false_ne_true, fun hlt ↦ absurd hlt hroom⟩,
      h.capacity, ?_, ?_⟩
    · rw [waiting_sent, ← h.pending]
      exact (List.append_nil _).symm
    · rw [settled_sent, ← h.rest]

/-- A tick applies the events that wait. -/
theorem tick (h : Holds entries m) : m.tick = played (accepted entries) := by
  have hempty : m.pending.drain.2 = .withCapacity MidiInput.queueSize := by
    rw [← h.capacity]
    rfl
  rw [MidiInput.tick_eq_foldl, hempty, h.rest, h.pending, played, ← List.foldl_append,
    settled_append_waiting, played]

theorem frame (h : Holds entries m) (s : Scheduler Bank) :
    Holds (entries ++ [.frame s]) m.tick := by
  have hpending : (played (accepted entries)).pending = .withCapacity MidiInput.queueSize :=
    MidiInput.pending_foldl_apply _ _
  rw [h.tick]
  refine ⟨?_, ?_, ?_⟩
  · rw [hpending]
    rfl
  · rw [hpending, waiting_frame]
    rfl
  · rw [settled_frame, ← hpending]

end Holds

/-! ## Judging the entries of a log -/

/-- A frame behind some entries takes the events that wait, before its program runs, and at every
step of the run the input is as all accepted events together make it. -/
structure Delivers (entries : List Entry) (s : Scheduler Bank) : Prop where
  taken : (Entry.frame s).taken = waiting entries
  tick : s.ready.rig.modules.midi = s.rig.modules.midi.tick
  ready : s.ready.rig.modules.midi = played (accepted entries)
  visits : ∀ visit ∈ s.visits, visit.2.rig.modules.midi = played (accepted entries)

/-- What an entry behind others is to be. -/
def Judged (entries : List Entry) : Entry → Prop
  | .sent _ b => b = true ↔ (waiting entries).length < MidiInput.queueSize
  | .frame s => Delivers entries s

/-- Every entry of a log is as it should be by those before it. -/
def Sound (entries : List Entry) : Prop :=
  ∀ before entry after, entries = before ++ entry :: after → Judged before entry

namespace Sound

theorem nil : Sound [] := by
  intro before entry after heq
  exact absurd heq.symm (by simp)

theorem concat (h : Sound entries) {entry : Entry} (hentry : Judged entries entry) :
    Sound (entries ++ [entry]) := by
  intro before entry' after heq
  rcases List.eq_nil_or_concat after with rfl | ⟨after', last, rfl⟩
  · obtain ⟨rfl, hlast⟩ := List.append_inj' heq rfl
    cases hlast
    exact hentry
  · have hinit : entries ++ [entry] = (before ++ entry' :: after') ++ [last] := by
      rw [heq, List.concat_eq_append, List.append_assoc, List.cons_append]
    exact h before entry' after' (List.append_inj' hinit rfl).1

theorem of_append {entries' : List Entry} (h : Sound (entries ++ entries')) : Sound entries := by
  intro before entry after heq
  refine h before entry (after ++ entries') ?_
  rw [heq, List.append_assoc, List.cons_append]

/-- What the frames have taken and what still waits is what was accepted. -/
theorem taken_append_waiting (h : Sound entries) :
    entries.flatMap Entry.taken ++ waiting entries = accepted entries := by
  induction entries using List.reverseRecOn with
  | nil => rfl
  | append_singleton entries entry ih =>
    have hbefore := ih h.of_append
    have hjudged := h entries entry [] rfl
    rw [List.flatMap_append, List.flatMap_singleton, accepted_concat, ← hbefore]
    cases entry with
    | sent event b =>
      rw [waiting_sent, Entry.taken, List.append_nil, List.append_assoc]
    | frame s =>
      rw [waiting_frame, hjudged.taken, Entry.accepted?, Option.toList_none, List.append_nil]

end Sound

/-! ## Whole histories -/

theorem Holds.delivers {s : Scheduler Bank} (h : Holds entries s.rig.modules.midi)
    (hs : s.Driven Bank.midi MidiInput.tick) : Delivers entries s where
  taken := h.pending
  tick := hs.ready
  ready := hs.ready.trans h.tick
  visits visit hvisit := (hs.visits visit hvisit).trans h.tick

/-- Frames in a row drain the queue in the first of them and find it empty in the others. -/
theorem sound_frames {s : Scheduler Bank} (hs : s.Driven Bank.midi MidiInput.tick)
    (hsound : Sound entries) (hholds : Holds entries s.rig.modules.midi) (n : Nat) :
    Sound (entries ++ ((List.range n).map s.later).map .frame) ∧
      Holds (entries ++ ((List.range n).map s.later).map .frame) (s.later n).rig.modules.midi := by
  induction n with
  | zero =>
    rw [List.range_zero, List.map_nil, List.map_nil, List.append_nil]
    exact ⟨hsound, hholds⟩
  | succ n ih =>
    obtain ⟨ihSound, ihHolds⟩ := ih
    have hlater := (hs.later n).1
    have hstep : (s.later (n + 1)).rig.modules.midi = (s.later n).rig.modules.midi.tick :=
      hlater.step.2
    rw [List.range_succ, List.map_append, List.map_append, ← List.append_assoc, hstep]
    exact ⟨ihSound.concat (ihHolds.delivers hlater), ihHolds.frame _⟩

theorem sound_log {e : Engine Bank} (he : e.Driven Bank.midi MidiInput.tick)
    (hsound : Sound entries) (hholds : Holds entries e.modules.midi) {inputs : List Input}
    (hinputs : ∀ r, .request r ∈ inputs → r.Keeps Bank.midi) : Sound (entries ++ log e inputs) := by
  induction inputs generalizing e entries with
  | nil =>
    rw [log, List.append_nil]
    exact hsound
  | cons input inputs ih =>
    have hrest : ∀ r, .request r ∈ inputs → r.Keeps Bank.midi :=
      fun r hmem ↦ hinputs r (List.mem_cons_of_mem _ hmem)
    cases input with
    | send event =>
      obtain ⟨hjudged, hsent⟩ := hholds.sent event
      rw [log, List.append_cons]
      exact ih (he.onModules _) (hsound.concat hjudged) hsent hrest
    | request r =>
      obtain ⟨hdriven, hmidi⟩ := he.perform (hinputs r List.mem_cons_self)
      have hnone : ∀ m, m = e.modules.midi → Sound (entries ++ []) ∧ Holds (entries ++ []) m := by
        rintro m rfl
        rw [List.append_nil]
        exact ⟨hsound, hholds⟩
      have hframes : Sound (entries ++ (e.startsOf r).map .frame) ∧
          Holds (entries ++ (e.startsOf r).map .frame) (e.perform r).2.modules.midi := by
        cases r with
        | processBlock left right =>
          have hblock := sound_frames he.scheduler hsound hholds (Engine.room left right)
          rwa [← Engine.scheduler_processBlock] at hblock
        | _ => exact hnone _ hmidi
      rw [log, ← List.append_assoc]
      exact ih hdriven hframes.1 hframes.2 hrest

/-- A key is pressed, a frame is rendered, and the key is released. -/
def pressed : List Input :=
  [.send (.noteOn 60 100), .request (.processBlock #[.half] #[.half]), .send (.noteOff 60)]

end Bank

end StackSynth
