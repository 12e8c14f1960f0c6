import StackSynth.Proofs.Number.Product
import StackSynth.Proofs.Settings.RoundTrip
import StackSynth.Proofs.Synth.Recordings
import StackSynth.Settings.Engine

/-!
# Settings that pass the check reach the engine

The stack, the queue of faults, patterns, tables and delay lines each put a size right that they
cannot have: a ceiling above the greatest one is lowered, a length of zero is raised to one, a
negative time counts as zero. None of them says so. The check of settings has its own bounds, and
they are the ones that leave nothing to put right: what passes it is what the engine has
(`makeEngine_follows`).

A delay line is the one that computes with its setting. The product of two numbers is rounded, and
may come out below the time that was asked for; but rounding does not pass a whole number, and the
ring has one place more than the ceiling of the product needs (`DelayLine.exists_maxDelay_new`).
-/

namespace StackSynth

open Double

/-! ## Delay lines -/

/-- The zeroing of negative times leaves a time above zero alone. -/
theorem Double.HasValue.greatest_zero {x : Float} {a : ℚ} (hx : HasValue x a) (ha : 0 < a) :
    greatest x 0 = x := by
  rw [greatest, hx.isNaN, if_neg Bool.false_ne_true, if_neg]
  rw [hx.lt_iff hasValue_zero]
  exact not_lt.mpr ha.le

/-- A delay line has two places more than the ceiling of the product of its rate and its time, which
rounding has not carried past a whole number. -/
theorem DelayLine.exists_size_new {rate seconds : Float} {a b : ℚ} (hrate : HasValue rate a)
    (hseconds : HasValue seconds b) (ha : 0 < a) (hb : 0 < b) (hsize : a * b ≤ 2 ^ 52) :
    ∃ w, HasValue (rate * seconds) w ∧ ⌊a * b⌋₊ ≤ w ∧ w ≤ ⌈a * b⌉₊ ∧
      (new rate seconds).buffer.size = ⌈w⌉₊ + 2 := by
  have hpos : 0 < a * b := mul_pos ha hb
  have hceil : ⌈a * b⌉₊ ≤ 2 ^ 52 := Nat.ceil_le.mpr (by exact_mod_cast hsize)
  have hfloor : ⌊a * b⌋₊ ≤ 2 ^ 52 := (Nat.floor_le_ceil _).trans hceil
  obtain ⟨w, hw, hlo, hhi⟩ := hrate.mul_between hseconds ha hb
    (representable_natCast (by omega : ⌊a * b⌋₊ ≤ 2 ^ 53))
    (representable_natCast (by omega : ⌈a * b⌉₊ ≤ 2 ^ 53)) (Nat.floor_le hpos.le)
    (Nat.le_ceil (a * b)) (Nat.cast_nonneg _)
  have hw0 : 0 ≤ w := (Nat.cast_nonneg _).trans hlo
  have hceil' : ⌈w⌉₊ ≤ ⌈a * b⌉₊ := Nat.ceil_le.mpr hhi
  have hwlt : w < 2 ^ 53 := by
    refine hhi.trans_lt ?_
    exact_mod_cast (by omega : ⌈a * b⌉₊ < 2 ^ 53)
  refine ⟨w, hw, hlo, hhi, ?_⟩
  rw [new, Array.size_replicate, hseconds.greatest_zero hb,
    toNat_of_hasValue (hw.ceil hw0 hwlt) (by omega)]

/-- The longest tap of a delay line goes beyond the time it was made for, by less than two
frames. -/
theorem DelayLine.exists_maxDelay_new {rate seconds : Float} {a b : ℚ} (hrate : HasValue rate a)
    (hseconds : HasValue seconds b) (ha : 0 < a) (hb : 0 < b) (hsize : a * b ≤ 2 ^ 52) :
    ∃ longest, HasValue (new rate seconds).maxDelay longest ∧ a * b < longest ∧
      longest < a * b + 2 := by
  have hceil : ⌈a * b⌉₊ ≤ 2 ^ 52 := Nat.ceil_le.mpr (by exact_mod_cast hsize)
  obtain ⟨w, -, hlo, hhi, hbuffer⟩ := exists_size_new hrate hseconds ha hb hsize
  have hceil' : ⌈w⌉₊ ≤ ⌈a * b⌉₊ := Nat.ceil_le.mpr hhi
  refine ⟨(⌈w⌉₊ + 1 : Nat), ?_, ?_, ?_⟩
  · rw [maxDelay, hbuffer]
    exact hasValue_ofNat (by omega)
  · -- The product is less than one above the whole number that rounding does not pass.
    calc a * b < ⌊a * b⌋₊ + 1 := Nat.lt_floor_add_one _
      _ ≤ w + 1 := by linarith
      _ ≤ (⌈w⌉₊ + 1 : Nat) := by
        push_cast
        linarith [Nat.le_ceil w]
  · have hlt := Nat.ceil_lt_add_one (mul_pos ha hb).le
    have hle : (⌈w⌉₊ : ℚ) ≤ ⌈a * b⌉₊ := by exact_mod_cast hceil'
    push_cast
    linarith

/-! ## What is checked -/

namespace Settings

/-- Settings are within their ranges. -/
structure InRange (s : Settings) : Prop where
  sampleRate : 8000 ≤ s.audio.sampleRate ∧ s.audio.sampleRate ≤ 192000
  bufferSize : 16 ≤ s.audio.bufferSize ∧ s.audio.bufferSize ≤ 8192
  stackLimit : 1 ≤ s.engine.stackLimit ∧ s.engine.stackLimit ≤ maxStackLimit
  faultQueue : 1 ≤ s.engine.faultQueue
  operators : s.modules.operators ≤ maxModules
  envelopes : s.modules.envelopes ≤ maxModules
  mixers : s.modules.mixers ≤ maxModules
  delays : s.modules.delays ≤ maxModules
  sequencers : s.modules.sequencers ≤ maxModules
  tables : s.modules.tables ≤ maxModules
  steps : 1 ≤ s.modules.steps ∧ s.modules.steps ≤ 1024
  maxDelaySeconds : 0 < s.modules.maxDelaySeconds ∧ s.modules.maxDelaySeconds ≤ 60

/-- The check accepts the settings that are within their ranges. -/
theorem check_eq_ok_iff {s : Settings} : s.check = .ok () ↔ InRange s := by
  constructor
  · intro h
    have hkept := kept_of_check h
    simp only [rules, within, fewModules, List.forall_mem_cons, Bool.and_eq_true,
      decide_eq_true_eq] at hkept
    obtain ⟨hrate, hbuffer, hstack, hqueue, hoperators, henvelopes, hmixers, hdelays, hsequencers,
      htables, hsteps, hseconds, -⟩ := hkept
    exact ⟨hrate, hbuffer, hstack, hqueue, hoperators, henvelopes, hmixers, hdelays, hsequencers,
      htables, hsteps, hseconds⟩
  · intro h
    have hnone : s.rules.find? (fun rule ↦ !rule.kept) = none := by
      simp only [List.find?_eq_none, rules, within, fewModules, List.forall_mem_cons,
        Bool.not_eq_true', Bool.not_eq_false, Bool.and_eq_true, decide_eq_true_eq]
      exact ⟨h.sampleRate, h.bufferSize, h.stackLimit, h.faultQueue, h.operators, h.envelopes,
        h.mixers, h.delays, h.sequencers, h.tables, h.steps, h.maxDelaySeconds,
        List.forall_mem_nil _⟩
    rw [check, hnone]

variable {s : Settings}

theorem InRange.exists_seconds (h : InRange s) :
    ∃ seconds, HasValue s.modules.maxDelaySeconds seconds ∧ 0 < seconds ∧ seconds ≤ 60 := by
  obtain ⟨hpos, hsixty⟩ := h.maxDelaySeconds
  have hmost : HasValue 60 60 := by
    have hsixty := hasValue_ofNat (n := 60) (by decide)
    rwa [Nat.cast_ofNat] at hsixty
  have hvalue := hasValue_value (isPositive_of_pos_of_le hpos hsixty hmost.finite).isFinite
  exact ⟨_, hvalue, (hasValue_zero.lt_iff hvalue).mp hpos, (hvalue.le_iff hmost).mp hsixty⟩

/-- The history that a delay line is asked for takes fewer than twelve million frames. -/
theorem InRange.exists_history (h : InRange s) :
    ∃ seconds, HasValue s.modules.maxDelaySeconds seconds ∧
      HasValue (.ofNat s.audio.sampleRate) s.audio.sampleRate ∧ (0 : ℚ) < s.audio.sampleRate ∧
      0 < seconds ∧ s.audio.sampleRate * seconds ≤ 192000 * 60 := by
  obtain ⟨seconds, hseconds, hpos, hsixty⟩ := h.exists_seconds
  obtain ⟨hleast, hmost⟩ := h.sampleRate
  have hratepos : (0 : ℚ) < s.audio.sampleRate := by exact_mod_cast hleast.trans_lt' (by decide)
  have hratemost : (s.audio.sampleRate : ℚ) ≤ 192000 := by exact_mod_cast hmost
  exact ⟨seconds, hseconds, hasValue_ofNat (hmost.trans (by decide)), hratepos, hpos,
    mul_le_mul hratemost hsixty hpos.le (by norm_num)⟩

end Settings

/-! ## What is made -/

namespace Bank

variable {folder : Folder} {e : Engine Bank}

/-- The sources of recordings stand for files that can be loaded under names that differ. -/
def SamplesLoad (folder : Folder) (sources : List String) : Prop :=
  ∃ paths, Recording.files folder sources = .ok paths ∧ (paths.map Recording.wordName?).Nodup ∧
    ∀ path ∈ paths, ∃ name recording, Recording.wordName? path = some name ∧
      Recording.load folder path = .ok recording

theorem exists_loadSamplers {f : Focus Bank Bank} {taken : List (String × String)}
    {paths : List String}
    (hnodup : (taken.map (some ∘ Prod.fst) ++ paths.map Recording.wordName?).Nodup)
    (hload : ∀ path ∈ paths, ∃ name recording, Recording.wordName? path = some name ∧
      Recording.load folder path = .ok recording) :
    ∃ loaded, loadSamplers f folder taken e paths = .ok loaded := by
  induction paths generalizing taken e with
  | nil => exact ⟨_, rfl⟩
  | cons path paths ih =>
    obtain ⟨⟨name, recording, hname, hrecording⟩, hrest⟩ := List.forall_mem_cons.mp hload
    rw [List.map_cons, hname] at hnodup
    rw [loadSamplers]
    split
    next n first htaken =>
      rw [hname, Option.bind_some] at htaken
      have hsame := List.find?_some htaken
      obtain rfl : n = name := of_decide_eq_true hsame
      have hmem := List.mem_map_of_mem (f := some ∘ Prod.fst) (List.mem_of_find?_eq_some htaken)
      exact (List.disjoint_of_nodup_append hnodup hmem List.mem_cons_self).elim
    next =>
      rw [loadSampler_eq_ok_iff.mpr ⟨hname, recording, hrecording, rfl⟩]
      refine ih ?_ hrest
      rwa [List.map_append, List.append_assoc]

theorem exists_engine (spec : EngineSpec) {bank : BankSpec} (h : SamplesLoad folder bank.samples) :
    ∃ names e, engine folder spec bank = .ok (names, e) := by
  obtain ⟨paths, hfiles, hnodup, hload⟩ := h
  have hnodup' : (([] : List (String × String)).map (some ∘ Prod.fst)
      ++ paths.map Recording.wordName?).Nodup := hnodup
  obtain ⟨loaded, hloaded⟩ := exists_loadSamplers (f := .whole) hnodup' hload
  rw [engine, installAt]
  exact ⟨_, _, Except.bind_eq_ok_iff.mpr ⟨paths, hfiles,
    Except.bind_eq_ok_iff.mpr ⟨loaded, hloaded, rfl⟩⟩⟩

/-- An engine has the stack, the queue of faults and the modules that it was made with; there may be
samplers. -/
structure Furnished (spec : EngineSpec) (bank : BankSpec) (e : Engine Bank) : Prop where
  stack : e.scheduler.stack = .withLimit spec.stackLimit
  faults : e.faults = .withCapacity (max spec.faultQueue 1)
  modules : ∃ samplers, e.modules = { new bank (.ofNat spec.sampleRate) with samplers }

namespace Furnished

variable {spec : EngineSpec} {bank : BankSpec}

theorem defineWords (h : Furnished spec bank e) (words : Words Bank) :
    Furnished spec bank (defineWords words e) := by
  induction words generalizing e with
  | nil => exact h
  | cons word words ih => exact ih ⟨h.stack, h.faults, h.modules⟩

theorem defineTickers (h : Furnished spec bank e) (tickers : List (Ticker Bank)) :
    Furnished spec bank (defineTickers tickers e) := by
  induction tickers generalizing e with
  | nil => exact h
  | cons ticker tickers ih => exact ih ⟨h.stack, h.faults, h.modules⟩

theorem addSampler (h : Furnished spec bank e) (name : String) (recording : Recording Float) :
    Furnished spec bank (addSampler .whole name recording e) := by
  obtain ⟨samplers, hmodules⟩ := h.modules
  have hadded : (Bank.addSampler .whole name recording e).modules = { e.modules with
      samplers := e.modules.samplers.push (.new recording (.ofNat e.sampleRate)) } := rfl
  refine ⟨h.stack, h.faults, samplers.push (.new recording (.ofNat e.sampleRate)), ?_⟩
  rw [hadded, hmodules]

/-- Neither words nor tickers nor recordings change what an engine was made with. -/
theorem of_engine {names : List String} (h : engine folder spec bank = .ok (names, e)) :
    Furnished spec bank e := by
  have hloaded := installAt_induction (motive := Furnished spec bank) h
    (((⟨rfl, rfl, #[], rfl⟩ : Furnished spec bank _).defineWords _).defineTickers _)
    fun name recording _ h ↦ h.addSampler name recording
  obtain ⟨e₁, h₁, rfl⟩ := hloaded
  exact h₁.defineWords _

end Furnished

end Bank

namespace Settings

/-- An engine is what settings describe. -/
structure Follows (s : Settings) (e : Engine Bank) : Prop where
  stackLimit : e.scheduler.stack.limit = s.engine.stackLimit
  faultQueue : e.faults.capacity = s.engine.faultQueue
  gates : e.modules.gates.size = s.modules.sequencers ∧
    ∀ pattern ∈ e.modules.gates, pattern.entries.size = s.modules.steps
  values : e.modules.values.size = s.modules.sequencers ∧
    ∀ pattern ∈ e.modules.values, pattern.entries.size = s.modules.steps
  tables : e.modules.tables.size = s.modules.tables ∧
    ∀ table ∈ e.modules.tables, table.pattern.entries.size = s.modules.steps
  /-- The longest tap is the time asked for, in frames, and less than two frames more. -/
  delays : e.modules.delays.size = s.modules.delays ∧
    ∀ line ∈ e.modules.delays, ∃ seconds longest, HasValue s.modules.maxDelaySeconds seconds ∧
      HasValue line.maxDelay longest ∧ seconds * s.audio.sampleRate < longest ∧
      longest < seconds * s.audio.sampleRate + 2

/-- No size among settings is one that would be put right. -/
structure NothingPutRight (s : Settings) : Prop where
  stackLimit : max 1 (min s.engine.stackLimit Stack.maxLimit) = s.engine.stackLimit
  faultQueue : max s.engine.faultQueue 1 = s.engine.faultQueue
  steps : max s.modules.steps 1 = s.modules.steps
  maxDelaySeconds : greatest s.modules.maxDelaySeconds 0 = s.modules.maxDelaySeconds

theorem InRange.nothingPutRight {s : Settings} (h : InRange s) : NothingPutRight s := by
  obtain ⟨seconds, hseconds, hpos, -⟩ := h.exists_seconds
  refine ⟨?_, max_eq_left h.faultQueue, max_eq_left h.steps.1, hseconds.greatest_zero hpos⟩
  -- The greatest ceiling of a stack is the greatest one that can be chosen.
  have hmost : s.engine.stackLimit ≤ Stack.maxLimit := h.stackLimit.2
  rw [min_eq_left hmost, max_eq_right h.stackLimit.1]

theorem InRange.follows {s : Settings} (h : InRange s) {e : Engine Bank}
    (he : Bank.Furnished s.engineSpec s.modules e) : Follows s e := by
  obtain ⟨hlimit, hqueue, hsteps, -⟩ := h.nothingPutRight
  obtain ⟨samplers, hmodules⟩ := he.modules
  have hentries : ∀ {α : Type} (entry : α),
      (Pattern.new s.modules.steps entry).entries.size = s.modules.steps := by
    intro α entry
    rw [Pattern.new, Array.size_replicate, hsteps]
  refine ⟨?stack, ?faults, ?gates, ?values, ?tables, ?delays⟩
  case stack =>
    rw [he.stack]
    exact hlimit
  case faults =>
    rw [he.faults]
    exact hqueue
  all_goals
    rw [hmodules]
    refine ⟨by simp [Bank.new], ?_⟩
  case gates | values =>
    intro pattern hpattern
    obtain rfl := Array.eq_of_mem_replicate hpattern
    exact hentries _
  case tables =>
    intro table htable
    obtain rfl := Array.eq_of_mem_replicate htable
    exact hentries _
  case delays =>
    intro line hline
    obtain ⟨-, -, rfl⟩ := Array.mem_map.mp hline
    obtain ⟨seconds, hseconds, hrate, hratepos, hpos, hframes⟩ := h.exists_history
    obtain ⟨longest, hlongest, hlt, hgt⟩ :=
      DelayLine.exists_maxDelay_new hrate hseconds hratepos hpos (hframes.trans (by norm_num))
    rw [mul_comm] at hlt hgt
    exact ⟨seconds, longest, hseconds, hlongest, hlt, hgt⟩

end Settings

end StackSynth
