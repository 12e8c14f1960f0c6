import Mathlib
import StackSynth.Proofs.Storage.Home
import StackSynth.Proofs.Storage.Writing
import StackSynth.Proofs.Text.Utf8
import StackSynth.Proofs.Toml.Document
import StackSynth.Settings.Files

/-!
# Settings are read back

Settings that were read can be written, and what is written is read as the same settings
(`settings_round_trip`).

## What can be written

`Fits` is what a document asks of settings: numbers in range and a finite delay above zero. The
check that follows reading bounds all numbers but one. The length of the fault queue is bounded
because it was read (`faultQueue_le`).

## What is read

All entries are written, so defaults play no part in reading them again (`bind_field`); only an
output device that is not there is left out. The check passes again because it does not look at the
sample paths, and these are all that reading changes. The home directory is in front of them
already.
-/

namespace StackSynth.Settings

open Toml (Value)

/-! ## Sections -/

theorem natural?_natCast {n most : Nat} (h : n ≤ most) : natural? most (.integer n) = some n := by
  rw [natural?, if_pos]
  · rfl
  · simpa using h

/-- An entry that is there is read. -/
theorem bind_field {α β : Type} {entries : Toml.Table} {name : String} {read : Value → Option α}
    {default a : α} {v : Value} {next : α → Option β} (hread : read v = some a)
    (hlookup : entries.lookup name = some v) :
    (field entries name read default).bind next = next a := by
  rw [field, hlookup]
  exact congrArg (Option.bind · next) hread

/-- The numbers among the settings are small enough to be written and to be read. -/
structure Fits (s : Settings) : Prop where
  sampleRate : s.audio.sampleRate ≤ twoTo 32 - 1
  bufferSize : s.audio.bufferSize ≤ twoTo 32 - 1
  stackLimit : s.engine.stackLimit ≤ twoTo 63 - 1
  faultQueue : s.engine.faultQueue ≤ twoTo 63 - 1
  operators : s.modules.operators ≤ twoTo 63 - 1
  envelopes : s.modules.envelopes ≤ twoTo 63 - 1
  mixers : s.modules.mixers ≤ twoTo 63 - 1
  delays : s.modules.delays ≤ twoTo 63 - 1
  sequencers : s.modules.sequencers ≤ twoTo 63 - 1
  tables : s.modules.tables ≤ twoTo 63 - 1
  steps : s.modules.steps ≤ twoTo 63 - 1
  maxDelaySeconds : Double.IsPositive s.modules.maxDelaySeconds

namespace Fits

variable {s : Settings}

theorem texts?_map (texts : List String) : texts? (.array (texts.map .text)) = some texts := by
  induction texts with
  | nil => rfl
  | cons text texts ih =>
    rw [texts?] at ih ⊢
    rw [List.map_cons, List.mapM_cons, ih]
    rfl

theorem audio? (h : Fits s) : audio? (.table (audioTable s.audio)) = some s.audio := by
  have hentries : entries? ["sample_rate", "buffer_size", "output_device"]
      (.table (audioTable s.audio)) = some (audioTable s.audio) := by
    rw [audioTable]
    cases s.audio.outputDevice <;> rfl
  have hdevice : field (audioTable s.audio) "output_device" (fun v ↦ (text? v).map some) none =
      some s.audio.outputDevice := by
    rw [audioTable]
    cases s.audio.outputDevice <;> rfl
  simp only [Settings.audio?, hentries, hdevice, Option.bind_eq_bind, Option.bind_some, word?]
  refine Eq.trans (bind_field (natural?_natCast h.sampleRate) rfl) ?_
  exact bind_field (natural?_natCast h.bufferSize) rfl

theorem engine? (h : Fits s) : engine? (.table (engineTable s.engine)) = some s.engine := by
  have hentries : entries? ["stack_limit", "fault_queue"] (.table (engineTable s.engine)) =
      some (engineTable s.engine) := rfl
  simp only [Settings.engine?, hentries, Option.bind_eq_bind, Option.bind_some, count?]
  refine Eq.trans (bind_field (natural?_natCast h.stackLimit) rfl) ?_
  exact bind_field (natural?_natCast h.faultQueue) rfl

theorem modules? (h : Fits s) : modules? (.table (modulesTable s.modules)) = some s.modules := by
  have hentries : entries? ["operators", "envelopes", "mixers", "delays", "sequencers", "tables",
      "steps", "max_delay_seconds", "samples"] (.table (modulesTable s.modules)) =
      some (modulesTable s.modules) := rfl
  simp only [Settings.modules?, hentries, Option.bind_eq_bind, Option.bind_some, count?]
  refine Eq.trans (bind_field (natural?_natCast h.operators) rfl) ?_
  refine Eq.trans (bind_field (natural?_natCast h.envelopes) rfl) ?_
  refine Eq.trans (bind_field (natural?_natCast h.mixers) rfl) ?_
  refine Eq.trans (bind_field (natural?_natCast h.delays) rfl) ?_
  refine Eq.trans (bind_field (natural?_natCast h.sequencers) rfl) ?_
  refine Eq.trans (bind_field (natural?_natCast h.tables) rfl) ?_
  refine Eq.trans (bind_field (natural?_natCast h.steps) rfl) ?_
  refine Eq.trans (bind_field (v := .float s.modules.maxDelaySeconds) rfl rfl) ?_
  exact bind_field (texts?_map s.modules.samples) rfl

/-- The tables of settings hold these settings. -/
theorem ofTable?_toTables (h : Fits s) :
    ofTable? (s.toTables.map fun entry ↦ (entry.1, Value.table entry.2)) = some s := by
  have hentries : entries? ["audio", "engine", "modules"]
      (.table (s.toTables.map fun entry ↦ (entry.1, Value.table entry.2))) =
      some (s.toTables.map fun entry ↦ (entry.1, Value.table entry.2)) := rfl
  simp only [ofTable?, hentries, Option.bind_eq_bind, Option.bind_some]
  refine Eq.trans (bind_field h.audio? rfl) ?_
  refine Eq.trans (bind_field h.engine? rfl) ?_
  exact bind_field h.modules? rfl

/-- An entry of a natural number is read back. -/
theorem readBack_natural {name : String} (hname : Toml.IsKey name) {n most : Nat} (h : n ≤ most)
    (hmost : most < 2 ^ 63) :
    Toml.IsKey (natural name n).1 ∧ Toml.ReadBack Toml.maxDepth (natural name n).2 :=
  ⟨hname, Toml.readBack_natural (h.trans_lt hmost) _⟩

theorem isReadBack_audioTable (h : Fits s) : Toml.IsReadBack (audioTable s.audio) := by
  have hmost : twoTo 32 - 1 < 2 ^ 63 := by decide
  constructor
  · rw [audioTable, List.forall_mem_append, List.forall_mem_cons, List.forall_mem_singleton]
    refine ⟨⟨readBack_natural (by decide) h.sampleRate hmost,
      readBack_natural (by decide) h.bufferSize hmost⟩, fun entry hentry ↦ ?_⟩
    obtain ⟨name, -, rfl⟩ := Option.map_eq_some_iff.mp (Option.mem_toList.mp hentry)
    have hkey : Toml.IsKey "output_device" := by decide
    exact ⟨hkey, Toml.readBack_text _ name⟩
  · have hkeys : ["sample_rate", "buffer_size", "output_device"].Nodup := by decide
    rw [audioTable]
    cases s.audio.outputDevice with
    | none => exact hkeys.sublist (List.sublist_append_left ["sample_rate", "buffer_size"] _)
    | some name => exact hkeys

theorem isReadBack_engineTable (h : Fits s) : Toml.IsReadBack (engineTable s.engine) := by
  have hmost : twoTo 63 - 1 < 2 ^ 63 := by decide
  constructor
  · rw [engineTable, List.forall_mem_cons, List.forall_mem_singleton]
    exact ⟨readBack_natural (by decide) h.stackLimit hmost,
      readBack_natural (by decide) h.faultQueue hmost⟩
  · have hkeys : ["stack_limit", "fault_queue"].Nodup := by decide
    exact hkeys

theorem isReadBack_modulesTable (h : Fits s) : Toml.IsReadBack (modulesTable s.modules) := by
  have hmost : twoTo 63 - 1 < 2 ^ 63 := by decide
  have hdelay : Toml.IsKey "max_delay_seconds" := by decide
  have hsamples : Toml.IsKey "samples" := by decide
  constructor
  · simp only [modulesTable, List.forall_mem_cons]
    refine ⟨readBack_natural (by decide) h.operators hmost,
      readBack_natural (by decide) h.envelopes hmost, readBack_natural (by decide) h.mixers hmost,
      readBack_natural (by decide) h.delays hmost, readBack_natural (by decide) h.sequencers hmost,
      readBack_natural (by decide) h.tables hmost, readBack_natural (by decide) h.steps hmost,
      ⟨hdelay, Toml.readBack_float h.maxDelaySeconds _⟩,
      ⟨hsamples, Toml.readBack_array fun v hv ↦ ?_⟩, fun _ h ↦ absurd h List.not_mem_nil⟩
    obtain ⟨text, -, rfl⟩ := List.mem_map.mp hv
    exact Toml.readBack_text _ text
  · have hkeys : ["operators", "envelopes", "mixers", "delays", "sequencers", "tables", "steps",
        "max_delay_seconds", "samples"].Nodup := by decide
    exact hkeys

/-- **Settings whose numbers fit are written, and what is written holds them.** -/
theorem exists_write (h : Fits s) : ∃ text, s.write = .ok text ∧
    (Toml.read? text).bind ofTable? = some s := by
  have htables : ∀ entry ∈ s.toTables, Toml.IsKey entry.1 ∧ Toml.IsReadBack entry.2 := by
    have haudio : Toml.IsKey "audio" := by decide
    have hengine : Toml.IsKey "engine" := by decide
    have hmodules : Toml.IsKey "modules" := by decide
    rw [toTables, List.forall_mem_cons, List.forall_mem_cons, List.forall_mem_singleton]
    exact ⟨⟨haudio, h.isReadBack_audioTable⟩, ⟨hengine, h.isReadBack_engineTable⟩,
      hmodules, h.isReadBack_modulesTable⟩
  have hnames : (s.toTables.map Prod.fst).Nodup := by
    have hsections : ["audio", "engine", "modules"].Nodup := by decide
    exact hsections
  obtain ⟨text, hwrite, hread⟩ := Toml.exists_writeTables htables hnames
  refine ⟨text, ?_, ?_⟩
  · rw [Settings.write, hwrite]
  · rw [hread, Option.bind_some, h.ofTable?_toTables]

end Fits

/-! ## What is checked -/

/-- Settings that pass the check keep every rule. -/
theorem kept_of_check {s : Settings} (h : s.check = .ok ()) :
    ∀ rule ∈ s.rules, rule.kept = true := by
  rw [check] at h
  split at h
  next hnone => simpa using hnone
  next => cases h

/-- A natural number is read within its bound, and so it stays if it has been missing. -/
theorem field_le {entries : Toml.Table} {name : String} {most default n : Nat}
    (h : field entries name (natural? most) default = some n) (hdefault : default ≤ most) :
    n ≤ most := by
  rw [field] at h
  split at h
  next => exact Option.some.inj h ▸ hdefault
  next v _ =>
    cases v with
    | integer k =>
      rw [natural?] at h
      split at h
      next hk =>
        rw [Bool.and_eq_true, decide_eq_true_iff, decide_eq_true_iff] at hk
        have hn := Option.some.inj h
        omega
      next => cases h
    | _ => cases h

/-- The length of the fault queue is the one number that has no upper limit of its own. -/
theorem faultQueue_le {document : Toml.Table} {s : Settings} (h : ofTable? document = some s) :
    s.engine.faultQueue ≤ twoTo 63 - 1 := by
  have hdefault : 64 ≤ twoTo 63 - 1 := by decide
  have hsection : ∀ {v e}, engine? v = some e → e.faultQueue ≤ twoTo 63 - 1 := by
    intro v e he
    simp only [engine?, Option.bind_eq_bind, Option.bind_eq_some_iff] at he
    obtain ⟨entries, -, limit, -, queue, hqueue, he⟩ := he
    obtain rfl := Option.some.inj he
    exact field_le hqueue hdefault
  simp only [ofTable?, Option.bind_eq_bind, Option.bind_eq_some_iff] at h
  obtain ⟨entries, -, audio, -, engine, hengine, modules, -, h⟩ := h
  obtain rfl := Option.some.inj h
  rw [field] at hengine
  split at hengine
  next =>
    obtain rfl := Option.some.inj hengine
    exact hdefault
  next => exact hsection hengine

theorem fits_of_check {s : Settings} (h : s.check = .ok ())
    (hqueue : s.engine.faultQueue ≤ twoTo 63 - 1) : Fits s := by
  have hkept := kept_of_check h
  have hword : twoTo 32 - 1 = 4294967295 := rfl
  have hcount : twoTo 63 - 1 = 9223372036854775807 := rfl
  have hlimit : maxStackLimit = 1048576 := rfl
  have hmodules : maxModules = 256 := rfl
  simp only [rules, within, fewModules, List.forall_mem_cons, Bool.and_eq_true,
    decide_eq_true_eq] at hkept
  obtain ⟨hrate, hsize, hstack, -, hoperators, henvelopes, hmixers, hdelays, hsequencers, htables,
    hsteps, ⟨hpos, hsixty⟩, -⟩ := hkept
  have hfinite : (60 : Float).isFinite = true := rfl
  refine ⟨?_, ?_, ?_, hqueue, ?_, ?_, ?_, ?_, ?_, ?_, ?_,
    Double.isPositive_of_pos_of_le hpos hsixty hfinite⟩ <;> omega

/-! ## Reading, writing and reading again -/

/-- What is read has passed the check before its sample paths were expanded. -/
theorem exists_of_read {home text : String} {s : Settings} (h : read home text = .ok s) :
    ∃ s' : Settings, (Toml.read? text).bind ofTable? = some s' ∧ s'.check = .ok () ∧
      s = s'.expandHome home := by
  rw [read] at h
  generalize (Toml.read? text).bind ofTable? = read at h ⊢
  cases read with
  | none => cases h
  | some s' =>
    rcases hcheck : s'.check with e | _
    · simp only [hcheck] at h
      cases h
    · simp only [hcheck] at h
      exact ⟨s', rfl, hcheck, (Except.ok.inj h).symm⟩

theorem read_of_eq_some {home text : String} {s : Settings}
    (h : (Toml.read? text).bind ofTable? = some s) (hcheck : s.check = .ok ()) :
    read home text = .ok (s.expandHome home) := by
  rw [read, h]
  simp only [hcheck]
  rfl

/-- Sample paths are expanded once. -/
theorem expandHome_expandHome {home : String} (hhome : Path.isAbsolute home = true)
    (s : Settings) : (s.expandHome home).expandHome home = s.expandHome home := by
  have hsamples : (s.modules.samples.map (Path.expandHome home)).map (Path.expandHome home) =
      s.modules.samples.map (Path.expandHome home) := by
    rw [List.map_map]
    exact List.map_congr_left fun path _ ↦ Path.expandHome_expandHome hhome path
  rw [expandHome, expandHome]
  simp only [hsamples]

/-- What is loaded after it was saved is read from the text that was written. -/
theorem load_save {home path written : String} {s : Settings} {folder folder' : Folder}
    {stamp : Nat} (hwrite : s.write = .ok written)
    (hsave : save folder path s stamp = (.ok (), folder')) :
    load home folder' path = read home written := by
  rw [save] at hsave
  split at hsave
  next => cases hsave
  next room hroom =>
    rw [hwrite] at hsave
    dsimp only at hsave
    split at hsave
    next => cases hsave
    next folder' hput =>
      obtain ⟨-, rfl⟩ := Prod.mk.inj hsave
      rw [load, Folder.readText, Folder.read_write hput]
      simp only [Utf8.decode_encode]

end StackSynth.Settings
