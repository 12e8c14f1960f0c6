import StackSynth.Proofs.Settings.Reaching

/-!
# The room that an engine reserves

An engine reserves room for its operand stack, for the faults that wait and for the history of every
delay line when it is made, and no array can have more than `maxArrayBytes` bytes. Settings bound
the stack and the delay lines far below that. The queue of faults has a least length but no greatest
one, so that it is the only array that may be too long, and nothing else decides whether an engine
has the room it asks for (`reserved_fits_iff`). Settings may ask for a queue that has not
(`reserves_too_much`).
-/

namespace StackSynth

/-- The most bytes that one array may have. -/
def maxArrayBytes : Nat := twoTo 63 - 1

/-- Bytes of the arrays that an engine reserves when it is made, if a place in the queue of faults
takes `slot` bytes. A number takes eight. -/
def Engine.reserved (slot : Nat) (e : Engine Bank) : List Nat :=
  8 * e.scheduler.stack.limit :: slot * e.faults.capacity
    :: e.modules.delays.toList.map fun line ↦ 8 * line.buffer.size

/-- Nothing that an engine gets after it was made changes what it has reserved. -/
theorem Bank.Furnished.reserved_eq {spec : EngineSpec} {bank : BankSpec} {e e' : Engine Bank}
    (h : Furnished spec bank e) (h' : Furnished spec bank e') (slot : Nat) :
    e.reserved slot = e'.reserved slot := by
  obtain ⟨samplers, hmodules⟩ := h.modules
  obtain ⟨samplers', hmodules'⟩ := h'.modules
  rw [Engine.reserved, Engine.reserved, h.stack, h'.stack, h.faults, h'.faults, hmodules, hmodules']

namespace Settings

variable {s : Settings}

/-- The engine that settings describe, before it has words, tickers and recordings. -/
def bareEngine (s : Settings) : Engine Bank :=
  .new s.engineSpec (.new s.modules (.ofNat s.audio.sampleRate))

theorem furnished_bareEngine (s : Settings) :
    Bank.Furnished s.engineSpec s.modules s.bareEngine := ⟨rfl, rfl, #[], rfl⟩

/-- The stack is bounded by the setting for it. -/
theorem InRange.stack_fits (h : InRange s) :
    8 * s.bareEngine.scheduler.stack.limit ≤ maxArrayBytes := by
  have hmost : s.engine.stackLimit ≤ 1048576 := h.stackLimit.2
  rw [(h.follows (furnished_bareEngine s)).stackLimit, maxArrayBytes,
    show twoTo 63 = 9223372036854775808 from rfl]
  omega

/-- The delay lines are bounded by the settings for the rate and for the longest delay together. -/
theorem InRange.delays_fit (h : InRange s) {line : DelayLine}
    (hline : line ∈ s.bareEngine.modules.delays) : 8 * line.buffer.size ≤ maxArrayBytes := by
  obtain ⟨seconds, hseconds, hrate, hratepos, hpos, hframes⟩ := h.exists_history
  obtain ⟨w, -, -, hw, hsize⟩ :=
    DelayLine.exists_size_new hrate hseconds hratepos hpos (hframes.trans (by norm_num))
  obtain ⟨-, -, rfl⟩ := Array.mem_map.mp hline
  have hceil : ⌈w⌉₊ ≤ 192000 * 60 :=
    (Nat.ceil_le.mpr hw).trans (Nat.ceil_le.mpr (by exact_mod_cast hframes))
  rw [hsize, maxArrayBytes, show twoTo 63 = 9223372036854775808 from rfl]
  omega

/-- **Settings that pass the check bound everything that an engine reserves but the queue of
faults.** The stack and every delay line have the room they ask for, so that all arrays have if and
only if the queue has. That is settled before any recording is loaded: an engine that is made has
reserved the same. -/
theorem reserved_fits_iff (hcheck : s.check = .ok ()) (slot : Nat) :
    8 * s.bareEngine.scheduler.stack.limit ≤ maxArrayBytes ∧
      (∀ line ∈ s.bareEngine.modules.delays, 8 * line.buffer.size ≤ maxArrayBytes) ∧
      ((∀ bytes ∈ s.bareEngine.reserved slot, bytes ≤ maxArrayBytes) ↔
        slot * s.engine.faultQueue ≤ maxArrayBytes) ∧
      ∀ folder names e, s.makeEngine folder = .ok (names, e) →
        e.reserved slot = s.bareEngine.reserved slot := by
  have h := check_eq_ok_iff.mp hcheck
  refine ⟨h.stack_fits, fun _ ↦ h.delays_fit, ?_, fun folder names e he ↦
    (Bank.Furnished.of_engine he).reserved_eq (furnished_bareEngine s) slot⟩
  have hqueue := (h.follows (furnished_bareEngine s)).faultQueue
  rw [Engine.reserved, List.forall_mem_cons, List.forall_mem_cons, List.forall_mem_map, hqueue]
  constructor
  · rintro ⟨-, hfits, -⟩
    exact hfits
  · intro hfits
    exact ⟨h.stack_fits, hfits, fun line hline ↦ h.delays_fit (Array.mem_toList_iff.mp hline)⟩

/-- The defaults, with 48 bytes for a fault that waits. -/
theorem reserved_fits_iff_defaults : ({} : Settings).check = .ok () ∧
    ∀ bytes ∈ ({} : Settings).bareEngine.reserved 48, bytes ≤ maxArrayBytes := by
  have hcheck : ({} : Settings).check = .ok () := rfl
  exact ⟨hcheck, (reserved_fits_iff hcheck 48).2.2.1.mpr (by decide)⟩

/-- Settings that ask for a queue of `2 ^ 60` faults pass the check, and so does the file that they
are written to; but with eight bytes for a fault the queue takes one byte more than an array may
have. -/
theorem reserves_too_much : ∃ s : Settings,
    s = { engine := { faultQueue := 2 ^ 60 } } ∧ s.check = .ok () ∧
      (∃ text, s.write = .ok text ∧ read "/home/u" text = .ok s) ∧
      8 * s.engine.faultQueue ∈ s.bareEngine.reserved 8 ∧
      maxArrayBytes < 8 * s.engine.faultQueue := by
  have hcheck : ({ engine := { faultQueue := 2 ^ 60 } } : Settings).check = .ok () := rfl
  obtain ⟨text, hwrite, htext⟩ := (fits_of_check hcheck (by decide)).exists_write
  exact ⟨_, rfl, hcheck, ⟨text, hwrite, read_of_eq_some htext hcheck⟩,
    List.mem_cons_of_mem _ List.mem_cons_self, by decide⟩

end Settings

end StackSynth
