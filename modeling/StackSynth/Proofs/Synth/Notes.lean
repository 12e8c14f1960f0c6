import StackSynth.Proofs.Number.Exact
import StackSynth.Synth.Midi

/-!
# Notes and controllers by their history

What a MIDI input says is determined by the events that have been applied to it: a note is held if
the latest event about it is a press, the current note is the one that was pressed last among those
that are held, and a controller has the value that it was last set to.

The input remembers less than that. It keeps a list of held notes and one current note, and each
event changes them by a rule of its own. `Remembers` ties the list to the history: the list has
the notes that stand in it, in the order of the events that they stand for. One event at the end of
the history makes that event the latest one about its note and makes every other one older by one
(`latest_concat`, `age_concat`).
-/

namespace StackSynth

namespace MidiEvent

/-- Whether an event presses or releases a note. -/
def concerns (note : UInt8) : MidiEvent → Bool
  | .noteOn n _ => n = note
  | .noteOff n => n = note
  | .controlChange _ _ => false

/-- What an event sets a controller to, if it sets it. Numbers count modulo 128. -/
def setting? (number : Nat) : MidiEvent → Option UInt8
  | .controlChange controller value =>
    if controller.toNat % 128 = number % 128 then some value else none
  | _ => none

/-- The latest event that presses or releases a note. -/
def latest (note : UInt8) (events : List MidiEvent) : Option MidiEvent :=
  events.reverse.find? (concerns note)

/-- How many events have come since the latest one that presses or releases a note. -/
def age (note : UInt8) (events : List MidiEvent) : Nat := events.reverse.findIdx (concerns note)

/-- What a controller was last set to. -/
def latestSetting (number : Nat) (events : List MidiEvent) : Option UInt8 :=
  events.reverse.findSome? (setting? number)

variable {event : MidiEvent} {events : List MidiEvent} {note : UInt8}

theorem latest_concat : latest note (events ++ [event])
    = if event.concerns note = true then some event else latest note events := by
  rw [latest, List.reverse_append, List.reverse_singleton, List.singleton_append, List.find?_cons]
  split <;> simp [*, latest]

theorem age_concat : age note (events ++ [event])
    = if event.concerns note = true then 0 else age note events + 1 := by
  rw [age, List.reverse_append, List.reverse_singleton, List.singleton_append, List.findIdx_cons]
  split <;> simp [*, age]

theorem latestSetting_concat (number : Nat) : latestSetting number (events ++ [event])
    = (event.setting? number).or (latestSetting number events) := by
  rw [latestSetting, List.reverse_append, List.reverse_singleton, List.singleton_append,
    List.findSome?_cons]
  split <;> simp [*, latestSetting]

end MidiEvent

namespace MidiInput

open MidiEvent

variable {m : MidiInput} {event : MidiEvent} {events : List MidiEvent} {note velocity : UInt8}

/-- The input after events. -/
def played (events : List MidiEvent) : MidiInput := events.foldl apply new

theorem played_concat : played (events ++ [event]) = (played events).apply event :=
  List.foldl_concat ..

/-! ## Held notes -/

theorem held_release : (m.release note).held = m.held.filter (·.1 ≠ note) := by
  rw [release]
  split <;> rfl

theorem held_press (hv : velocity ≠ 0) : (m.apply (.noteOn note velocity)).held
    = m.held.filter (·.1 ≠ note) ++ [(note, velocity)] := by
  rw [apply, if_neg hv]

/-- The held notes are those that stand in the history, in its order. -/
structure Remembers (events : List MidiEvent) (m : MidiInput) : Prop where
  nodup : (m.held.map Prod.fst).Nodup
  mem : ∀ note velocity, (note, velocity) ∈ m.held ↔
    velocity ≠ 0 ∧ latest note events = some (.noteOn note velocity)
  ordered : m.held.Pairwise fun x y ↦ age y.1 events < age x.1 events

namespace Remembers

theorem new : Remembers [] new where
  nodup := List.nodup_nil
  mem _ _ := by simp [MidiInput.new, latest]
  ordered := List.Pairwise.nil

/-- An event that is not about notes leaves them as they are, and makes them older. -/
theorem of_not_concerns (h : Remembers events m) (hevent : ∀ note, event.concerns note = false)
    {m' : MidiInput} (hheld : m'.held = m.held) : Remembers (events ++ [event]) m' where
  nodup := by rw [hheld]; exact h.nodup
  mem note velocity := by rw [hheld, h.mem, latest_concat, hevent, if_neg Bool.false_ne_true]
  ordered := by
    rw [hheld]
    refine h.ordered.imp fun hlt ↦ ?_
    rw [age_concat, age_concat, hevent, hevent, if_neg Bool.false_ne_true,
      if_neg Bool.false_ne_true]
    exact Nat.succ_lt_succ hlt

/-- What an event about one note leaves of the others. -/
theorem others (h : Remembers events m) (hevent : ∀ n, event.concerns n = true ↔ note = n) :
    ((m.held.filter (·.1 ≠ note)).map Prod.fst).Nodup ∧
    (∀ n velocity, (n, velocity) ∈ m.held.filter (·.1 ≠ note) ↔ n ≠ note ∧ velocity ≠ 0 ∧
      latest n (events ++ [event]) = some (.noteOn n velocity)) ∧
    (m.held.filter (·.1 ≠ note)).Pairwise fun x y ↦
      age y.1 (events ++ [event]) < age x.1 (events ++ [event]) := by
  have hother : ∀ {n}, n ≠ note → ¬ event.concerns n = true := fun hn hc ↦
    hn ((hevent _).mp hc).symm
  refine ⟨h.nodup.sublist (List.filter_sublist.map _), fun n velocity ↦ ?_, ?_⟩
  · rw [List.mem_filter, h.mem, decide_eq_true_iff, and_comm]
    refine and_congr_right fun hn ↦ ?_
    rw [latest_concat, if_neg (hother hn)]
  · refine (h.ordered.filter _).imp_of_mem fun {x y} hx hy hlt ↦ ?_
    have hx' := of_decide_eq_true (List.mem_filter.mp hx).2
    have hy' := of_decide_eq_true (List.mem_filter.mp hy).2
    rw [age_concat, age_concat, if_neg (hother hx'), if_neg (hother hy')]
    exact Nat.succ_lt_succ hlt

theorem release (h : Remembers events m) (hevent : ∀ n, event.concerns n = true ↔ note = n)
    (hzero : ∀ velocity, event = .noteOn note velocity → velocity = 0) :
    Remembers (events ++ [event]) (m.release note) := by
  obtain ⟨hnodup, hmem, hordered⟩ := h.others hevent
  constructor <;> rw [held_release]
  · exact hnodup
  · intro n velocity
    rw [hmem]
    refine and_iff_right_of_imp ?_
    rintro ⟨hv, hlatest⟩ rfl
    rw [latest_concat, if_pos ((hevent n).mpr rfl), Option.some_inj] at hlatest
    exact hv (hzero velocity hlatest)
  · exact hordered

theorem press (h : Remembers events m) (hv : velocity ≠ 0) :
    Remembers (events ++ [.noteOn note velocity]) (m.apply (.noteOn note velocity)) := by
  have hevent : ∀ n, (MidiEvent.noteOn note velocity).concerns n = true ↔ note = n :=
    fun _ ↦ decide_eq_true_iff
  obtain ⟨hnodup, hmem, hordered⟩ := h.others hevent
  have hlatest :
      latest note (events ++ [.noteOn note velocity]) = some (.noteOn note velocity) := by
    rw [latest_concat, if_pos ((hevent note).mpr rfl)]
  constructor <;> rw [held_press hv]
  · rw [List.map_append, List.nodup_append]
    refine ⟨hnodup, List.nodup_singleton note, ?_⟩
    intro n hn b hb
    obtain ⟨⟨n', w⟩, hheld, rfl⟩ := List.mem_map.mp hn
    rw [List.mem_singleton.mp hb]
    exact ((hmem n' w).mp hheld).1
  · intro n w
    rw [List.mem_append, hmem, List.mem_singleton, Prod.mk.injEq]
    -- The note itself stands at the end only, and about the others nothing has changed.
    by_cases hn : n = note
    · subst hn
      rw [hlatest]
      constructor
      · rintro (⟨hne, -⟩ | ⟨-, rfl⟩)
        · exact absurd rfl hne
        · exact ⟨hv, rfl⟩
      · rintro ⟨-, heq⟩
        exact .inr ⟨rfl, (MidiEvent.noteOn.inj (Option.some_inj.mp heq)).2.symm⟩
    · simp [hn]
  -- The press is the latest event of all, so every other one is older.
  · refine List.pairwise_append.mpr ⟨hordered, List.pairwise_singleton .., fun x hx y hy ↦ ?_⟩
    have hx' := of_decide_eq_true (List.mem_filter.mp hx).2
    rw [List.mem_singleton.mp hy, age_concat, age_concat, if_pos ((hevent note).mpr rfl),
      if_neg fun hc ↦ hx' ((hevent x.1).mp hc).symm]
    exact Nat.succ_pos _

theorem apply (h : Remembers events m) (event : MidiEvent) :
    Remembers (events ++ [event]) (m.apply event) := by
  cases event with
  | noteOn note velocity =>
    by_cases hv : velocity = 0
    · subst hv
      exact h.release (fun _ ↦ decide_eq_true_iff) fun v heq ↦ (MidiEvent.noteOn.inj heq).2.symm
    · exact h.press hv
  | noteOff note => exact h.release (fun _ ↦ decide_eq_true_iff) fun _ heq ↦ by cases heq
  | controlChange controller value => exact h.of_not_concerns (fun _ ↦ rfl) rfl

theorem played (events : List MidiEvent) : Remembers events (played events) := by
  induction events using List.reverseRecOn with
  | nil => exact new
  | append_singleton events event ih =>
    rw [played_concat]
    exact ih.apply event

end Remembers

/-! ## The current note -/

/-- The current note and its velocity. -/
def current (m : MidiInput) : UInt8 × UInt8 := (m.note, m.rawVelocity)

/-- A release makes the last note that is left the current one. -/
theorem current_release :
    (m.release note).current = (m.release note).held.getLast?.getD m.current := by
  rw [held_release, release]
  split
  next n v hlast =>
    have hlast' : (m.held.filter (·.1 ≠ note)).getLast? = some (n, v) := hlast
    rw [hlast']
    rfl
  next hnone =>
    have hnone' : (m.held.filter (·.1 ≠ note)).getLast? = none := hnone
    rw [hnone']
    rfl

theorem current_apply (h : ∀ p, m.held.getLast? = some p → m.current = p) (event : MidiEvent) :
    (m.apply event).current = (m.apply event).held.getLast?.getD m.current := by
  cases event with
  | noteOn note velocity =>
    by_cases hv : velocity = 0
    · rw [apply, if_pos hv, current_release]
    · rw [held_press hv, List.getLast?_concat, apply, if_neg hv]
      rfl
  | noteOff note => exact current_release
  | controlChange controller value =>
    -- Nothing changes, so the last note has to be the current one already.
    change m.current = m.held.getLast?.getD m.current
    cases hlast : m.held.getLast? with
    | none => rfl
    | some p => exact h p hlast

/-- While notes are held, the current note is the last of them. -/
theorem current_of_getLast? {p : UInt8 × UInt8} (hlast : (played events).held.getLast? = some p) :
    (played events).current = p := by
  induction events using List.reverseRecOn generalizing p with
  | nil => cases hlast
  | append_singleton events event ih =>
    rw [played_concat] at hlast ⊢
    rw [current_apply (fun _ h ↦ ih h), hlast, Option.getD_some]

/-- The list became empty behind one history and has been empty up to another one. -/
structure Emptied (before events : List MidiEvent) (p : UInt8 × UInt8) : Prop where
  isPrefix : before <+: events
  last : (played before).held.getLast? = some p
  empty : ∀ longer, before <+: longer → longer <+: events → longer ≠ before →
    (played longer).held = []

/-- Once no note is held, the current one is that which was current before the last release. -/
theorem current_of_held_eq_nil (hnil : (played events).held = []) :
    ((∀ before, before <+: events → (played before).held = []) ∧
      (played events).current = (0, 0)) ∨
    ∃ before p, Emptied before events p ∧ (played events).current = p := by
  induction events using List.reverseRecOn with
  | nil =>
    refine .inl ⟨fun before h ↦ ?_, rfl⟩
    rw [List.prefix_nil.mp h]
    rfl
  | append_singleton events event ih =>
    -- An event that leaves no note held changes the current one as little.
    have hcurrent : (played (events ++ [event])).current = (played events).current := by
      rw [played_concat] at hnil ⊢
      rw [current_apply (fun _ ↦ current_of_getLast?), hnil]
      rfl
    rw [hcurrent]
    by_cases hheld : (played events).held = []
    · rcases ih hheld with ⟨hempty, hzero⟩ | ⟨before, p, hemptied, hp⟩
      · refine .inl ⟨fun before h ↦ ?_, hzero⟩
        rcases List.prefix_concat_iff.mp h with rfl | h
        · exact hnil
        · exact hempty before h
      · refine .inr ⟨before, p, ⟨hemptied.isPrefix.trans (List.prefix_append ..), hemptied.last,
          fun longer h h' hne ↦ ?_⟩, hp⟩
        rcases List.prefix_concat_iff.mp h' with rfl | h'
        · exact hnil
        · exact hemptied.empty longer h h' hne
    -- The event was the last release, and the history before it is the one that is asked for.
    · have hlast := List.getLast?_eq_some_getLast hheld
      refine .inr ⟨events, _, ⟨List.prefix_append .., hlast, fun longer h h' hne ↦ ?_⟩,
        current_of_getLast? hlast⟩
      rcases List.prefix_concat_iff.mp h' with rfl | h'
      · exact hnil
      · exact absurd (h'.eq_of_length_le h.length_le) hne

/-! ## Controllers -/

theorem controllers_release : (m.release note).controllers = m.controllers := by
  rw [release]
  split <;> rfl

/-- An event that sets no controller leaves them all as they are. -/
theorem controllers_apply_of_note (hevent : ∀ number, event.setting? number = none) :
    (m.apply event).controllers = m.controllers := by
  cases event with
  | noteOn note velocity =>
    rw [apply]
    split
    · exact controllers_release
    · rfl
  | noteOff note => exact controllers_release
  | controlChange controller value =>
    have hsome := hevent controller.toNat
    rw [setting?, if_pos rfl] at hsome
    cases hsome

theorem getElem?_controllers_apply {number : Nat} (hnumber : number < 128) :
    (m.apply event).controllers[number]?
      = (event.setting? number).or m.controllers[number]? := by
  cases event with
  | noteOn note velocity => rw [controllers_apply_of_note (fun _ ↦ rfl)]; rfl
  | noteOff note => rw [controllers_apply_of_note (fun _ ↦ rfl)]; rfl
  | controlChange controller value =>
    rw [apply, setting?, Nat.mod_eq_of_lt hnumber, Vector.getElem?_setIfInBounds]
    by_cases heq : controller.toNat % 128 = number
    · rw [if_pos heq, if_pos heq, if_pos (by omega)]
      rfl
    · rw [if_neg heq, if_neg heq]
      rfl

theorem getElem?_controllers_played {number : Nat} (hnumber : number < 128) :
    (played events).controllers[number]? = some ((latestSetting number events).getD 0) := by
  induction events using List.reverseRecOn with
  | nil => exact Vector.getElem?_replicate_of_lt hnumber
  | append_singleton events event ih =>
    rw [played_concat, getElem?_controllers_apply hnumber, latestSetting_concat, ih]
    cases event.setting? number <;> rfl

theorem controller_ofNat {number : Nat} (hnumber : number < 128) :
    m.controller (.ofNat number) = .ofNat (m.controllers[number]?.getD 0).toNat / 127 := by
  have hvalue : Double.HasValue (.ofNat number) number := Double.hasValue_ofNat (by omega)
  have hlast : Double.HasValue 128 (128 : Nat) := Double.hasValue_ofNat (by decide)
  have hge : (0 : Float) ≤ .ofNat number := (Double.hasValue_zero.le_iff hvalue).mpr (by positivity)
  have hlt : Float.ofNat number < 128 := (hvalue.lt_iff hlast).mpr (by exact_mod_cast hnumber)
  rw [controller, decide_eq_true hge, decide_eq_true hlt, Bool.and_self, if_pos rfl,
    Double.toNat_of_hasValue hvalue (by omega)]

/-! ## Last-note priority -/

/-- **The state after events is determined by their history.** The held notes are those whose latest
event is a press, once each, in the order of these events and with their velocities; the gate is
open if there are any. The current note is the last of them, and if there are none, the one that was
current when the list became empty, or zero if it has always been empty. A controller has the value
that it was last set to. Notes and controllers leave each other alone. -/
theorem last_note_priority (events : List MidiEvent) :
    ((played events).held.map Prod.fst).Nodup ∧
    (∀ note velocity, (note, velocity) ∈ (played events).held ↔
      velocity ≠ 0 ∧ latest note events = some (.noteOn note velocity)) ∧
    ((played events).held.Pairwise fun x y ↦ age y.1 events < age x.1 events) ∧
    ((played events).gate = true ↔
      ∃ note velocity, velocity ≠ 0 ∧ latest note events = some (.noteOn note velocity)) ∧
    (∀ note velocity, (played events).held.getLast? = some (note, velocity) →
      (played events).note = note ∧ (played events).velocity = .ofNat velocity.toNat / 127) ∧
    ((played events).held = [] →
      ((∀ before, before <+: events → (played before).held = []) ∧
        (played events).note = 0 ∧ (played events).velocity = 0) ∨
      ∃ before note velocity, Emptied before events (note, velocity) ∧
        (played events).note = note ∧ (played events).velocity = .ofNat velocity.toNat / 127) ∧
    (∀ number < 128, (played events).controller (.ofNat number)
      = match latestSetting number events with
        | some value => .ofNat value.toNat / 127
        | none => 0) ∧
    (∀ (m : MidiInput) (event : MidiEvent), (∀ number, event.setting? number = none) →
      (m.apply event).controllers = m.controllers) ∧
    ∀ (m : MidiInput) (controller value : UInt8),
      (m.apply (.controlChange controller value)).held = m.held ∧
      (m.apply (.controlChange controller value)).current = m.current := by
  have hremembers := Remembers.played events
  refine ⟨hremembers.nodup, hremembers.mem, hremembers.ordered, ?_, fun note velocity hlast ↦ ?_,
    fun hnil ↦ ?_, fun number hnumber ↦ ?_, fun _ _ ↦ controllers_apply_of_note,
    fun _ _ _ ↦ ⟨rfl, rfl⟩⟩
  · rw [gate, Bool.not_eq_true', List.isEmpty_eq_false_iff_exists_mem]
    simp only [Prod.exists, hremembers.mem]
  · obtain ⟨rfl, rfl⟩ := Prod.mk.inj (current_of_getLast? hlast)
    exact ⟨rfl, rfl⟩
  · rcases current_of_held_eq_nil hnil with ⟨hempty, hzero⟩ | ⟨before, ⟨n, v⟩, hemptied, hp⟩
    · obtain ⟨hnote, hvelocity⟩ := Prod.mk.inj hzero
      refine .inl ⟨hempty, hnote, ?_⟩
      rw [velocity, hvelocity]
      decide +kernel
    · obtain ⟨rfl, rfl⟩ := Prod.mk.inj hp
      exact .inr ⟨before, _, _, hemptied, rfl, rfl⟩
  · rw [controller_ofNat hnumber, getElem?_controllers_played hnumber]
    cases latestSetting number events with
    | none => decide +kernel
    | some value => rfl

/-- A press, a newer one and its release make the first note the current one again, and controller
129 counts as controller 1. -/
theorem last_note_priority_released :
    let m := played [.noteOn 60 127, .noteOn 64 63, .controlChange 129 64, .noteOff 64]
    m.gate = true ∧ m.note = 60 ∧ m.velocity = .ofNat 127 / 127 ∧
      m.controller (.ofNat 1) = .ofNat 64 / 127 := by
  intro m
  obtain ⟨-, -, -, hgate, hcurrent, -, hcontroller, -⟩ :=
    last_note_priority [.noteOn 60 127, .noteOn 64 63, .controlChange 129 64, .noteOff 64]
  obtain ⟨hnote, hvelocity⟩ := hcurrent 60 127 (by decide)
  exact ⟨hgate.mpr ⟨60, 127, by decide, by decide⟩, hnote, hvelocity, hcontroller 1 (by decide)⟩

end MidiInput

end StackSynth
