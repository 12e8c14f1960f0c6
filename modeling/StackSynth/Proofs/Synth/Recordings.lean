import StackSynth.Proofs.Engine.Requests
import StackSynth.Proofs.Language.Definitions
import StackSynth.Proofs.Language.Names
import StackSynth.Proofs.Storage.Writing
import StackSynth.Proofs.Synth.Depth

/-!
# Which recordings can be played

A recording is played by the word that is named after its file. The name of a file may be anything,
and not every text reads as one name: `808.wav` gives a numeral, `my kick.wav` two words. Such files
are loaded like all others, and their names are listed, but no program gets to their samplers by
them. Nor does it by the names of the plain words, which are registered behind the recordings.

These are the only obstacles (`Bank.builds_sampler_iff`). No two recordings have one name, so a
sampler that is added leaves the entries of those before it alone (`Bank.Loaded.addSampler`), and
words of modules are registered before the recordings.
-/

namespace StackSynth

variable {σ : Type}

/-- What the word of a sampler does. -/
def Sampler.play (f : Focus σ (Sampler Float)) : NativeM σ Unit := do
  let flag ← Native.pop
  if Builtin.isTrue flag then f.update Sampler.trigger
  Native.push (← f.read Sampler.value)

theorem Sampler.words_eq (name : String) (f : Focus σ (Sampler Float)) :
    Sampler.words name f = [(name, .native (play f))] := rfl

/-- A text builds, and leaves a program installed. -/
def Engine.BuildsTo (e : Engine σ) (source : String) (p : Program σ) : Prop :=
  ∃ report e', e.build source = .ok (report, e') ∧ e'.scheduler.machine.program = some p

theorem Engine.buildsTo_iff {e : Engine σ} {source : String} {p : Program σ} :
    e.BuildsTo source p ↔ ∃ c, compile e.dictionary source = .ok c ∧ c.program = p := by
  constructor
  · rintro ⟨report, e', hbuild, hprogram⟩
    obtain ⟨c, hc, -, rfl⟩ := build_eq_ok_iff.mp hbuild
    exact ⟨c, hc, Option.some.inj hprogram⟩
  · rintro ⟨c, hc, rfl⟩
    exact ⟨_, _, build_eq_ok_iff.mpr ⟨c, hc, rfl, rfl⟩, rfl⟩

/-- Only a name builds to steps that invoke a native under that name. -/
theorem Engine.isName_of_buildsTo {e : Engine σ} {name : String} {p : Program σ} {act : Native σ}
    (h : e.BuildsTo name p) (hmem : .native name act ∈ p) : IsName name := by
  obtain ⟨c, hc, rfl⟩ := buildsTo_iff.mp h
  exact isName_of_native_mem hc hmem

/-- A name builds to the step that its entry makes of it. -/
theorem Engine.buildsTo_of_isName {e : Engine σ} {name : String} (h : IsName name)
    {op : Operation σ} (hop : e.dictionary.lookup name = some op) :
    e.BuildsTo name [op.compiled name] :=
  buildsTo_iff.mpr ⟨_, compile_of_isName h hop, rfl⟩

namespace Bank

variable {folder : Folder} {e : Engine Bank}

/-- The native of the sampler at a place of an engine's bank. -/
def playAt (k : Nat) : Native Bank := Sampler.play (Focus.whole.comp (samplerPart k))

/-! ## Adding a sampler -/

theorem dictionary_addSampler (name : String) (recording : Recording Float) (e : Engine Bank) :
    (addSampler .whole name recording e).dictionary =
      e.dictionary.define name (.native (playAt e.modules.samplers.size)) := by
  simp only [addSampler, Sampler.words_eq]
  rfl

theorem samplers_addSampler (name : String) (recording : Recording Float) (e : Engine Bank) :
    (addSampler .whole name recording e).modules.samplers =
      e.modules.samplers.push (Sampler.new recording (.ofNat e.sampleRate)) := rfl

theorem sampleRate_addSampler (name : String) (recording : Recording Float) (e : Engine Bank) :
    (addSampler .whole name recording e).sampleRate = e.sampleRate := rfl

/-- The recording in a file is the one at a place of an engine's bank. -/
structure LoadedAt (folder : Folder) (e : Engine Bank) (k : Nat) (name path : String) : Prop where
  named : Recording.wordName? path = some name
  sampler : ∃ recording, Recording.load folder path = .ok recording ∧
    e.modules.samplers[k]? = some (Sampler.new recording (.ofNat e.sampleRate))

/-- What loading recordings has led to so far: the names taken are those of the samplers, in order,
and each of them stands for its sampler. -/
structure Loaded (folder : Folder) (taken : List (String × String)) (e : Engine Bank) : Prop where
  nodup : (taken.map Prod.fst).Nodup
  size : e.modules.samplers.size = taken.length
  loaded : ∀ k name path, taken[k]? = some (name, path) → LoadedAt folder e k name path
  lookup : ∀ k name path, taken[k]? = some (name, path) →
    e.dictionary.lookup name = some (.native (playAt k))

theorem LoadedAt.addSampler {k : Nat} {name path : String} (h : LoadedAt folder e k name path)
    (other : String) (recording : Recording Float) :
    LoadedAt folder (Bank.addSampler .whole other recording e) k name path := by
  obtain ⟨hnamed, recording', hload, hsampler⟩ := h
  refine ⟨hnamed, recording', hload, ?_⟩
  rw [samplers_addSampler, sampleRate_addSampler, Array.getElem?_push, if_neg, hsampler]
  rintro rfl
  rw [Array.getElem?_eq_none le_rfl] at hsampler
  cases hsampler

/-- A sampler of a new name is added behind the others and leaves them alone. -/
theorem Loaded.addSampler {taken : List (String × String)} (h : Loaded folder taken e)
    {name path : String} {recording : Recording Float}
    (hname : Recording.wordName? path = some name)
    (hload : Recording.load folder path = .ok recording) (hnew : name ∉ taken.map Prod.fst) :
    Loaded folder (taken ++ [(name, path)]) (Bank.addSampler .whole name recording e) := by
  have hlast : ∀ {k n p}, (taken ++ [(name, path)])[k]? = some (n, p) →
      taken[k]? = some (n, p) ∨ k = taken.length ∧ (n, p) = (name, path) := by
    intro k n p hk
    rcases Nat.lt_trichotomy k taken.length with hlt | rfl | hgt
    · rw [List.getElem?_append_left hlt] at hk
      exact Or.inl hk
    · rw [List.getElem?_concat_length] at hk
      exact Or.inr ⟨rfl, (Option.some.inj hk).symm⟩
    · rw [List.getElem?_eq_none (by rw [List.length_append]; exact hgt)] at hk
      cases hk
  refine ⟨?_, ?_, ?_, ?_⟩
  · rw [List.map_append, List.map_singleton, List.nodup_append]
    refine ⟨h.nodup, List.pairwise_singleton _ _, fun n hn n' hn' ↦ ?_⟩
    rw [List.mem_singleton.mp hn']
    rintro rfl
    exact hnew hn
  · rw [samplers_addSampler, Array.size_push, h.size, List.length_append, List.length_singleton]
  · intro k n p hk
    rcases hlast hk with hk | ⟨rfl, heq⟩
    · exact (h.loaded k n p hk).addSampler name recording
    · cases heq
      refine ⟨hname, recording, hload, ?_⟩
      rw [samplers_addSampler, ← h.size, Array.getElem?_push_size, sampleRate_addSampler]
  · intro k n p hk
    rw [dictionary_addSampler, Dictionary.lookup_define]
    rcases hlast hk with hk | ⟨rfl, heq⟩
    · have hne : name ≠ n := by
        rintro rfl
        exact hnew (List.mem_map_of_mem (List.mem_of_getElem? hk))
      rw [if_neg hne]
      exact h.lookup k n p hk
    · cases heq
      rw [if_pos rfl, h.size]

/-- Every recording that is loaded stays loaded, and none is passed over. -/
theorem Loaded.loadSamplers {taken taken' : List (String × String)} {paths : List String}
    {e' : Engine Bank} (h : Loaded folder taken e)
    (hload : Bank.loadSamplers .whole folder taken e paths = .ok (taken', e')) :
    Loaded folder taken' e' ∧ taken'.map Prod.snd = taken.map Prod.snd ++ paths := by
  induction paths generalizing taken e with
  | nil =>
    rw [Bank.loadSamplers] at hload
    cases hload
    exact ⟨h, (List.append_nil _).symm⟩
  | cons path paths ih =>
    rw [Bank.loadSamplers] at hload
    split at hload
    next => cases hload
    next hnone =>
      obtain ⟨⟨name, e₁⟩, hone, hrest⟩ := Except.bind_eq_ok_iff.mp hload
      obtain ⟨hname, recording, hrecording, rfl⟩ := loadSampler_eq_ok_iff.mp hone
      have hnew : name ∉ taken.map Prod.fst := by
        rw [hname, Option.bind_some, List.find?_eq_none] at hnone
        intro hmem
        obtain ⟨entry, hentry, rfl⟩ := List.mem_map.mp hmem
        exact hnone entry hentry (decide_eq_true rfl)
      obtain ⟨hloaded, hpaths⟩ := ih (h.addSampler hname hrecording hnew) hrest
      refine ⟨hloaded, ?_⟩
      rw [hpaths, List.map_append, List.map_singleton, List.append_assoc]
      rfl

/-! ## Installing a bank -/

/-- Words change no module. -/
theorem modules_defineWords (words : Words Bank) (e : Engine Bank) :
    (defineWords words e).modules = e.modules ∧
      (defineWords words e).sampleRate = e.sampleRate := by
  induction words generalizing e with
  | nil => exact ⟨rfl, rfl⟩
  | cons word words ih => exact ih (e.define word.1 word.2)

theorem modules_defineTickers (tickers : List (Ticker Bank)) (e : Engine Bank) :
    (defineTickers tickers e).modules = e.modules := by
  induction tickers generalizing e with
  | nil => rfl
  | cons t tickers ih => exact ih (e.registerTicker t)

/-- The names of the words without a module. -/
def plainNames : List String := ["sine", "tri", "saw", "sqr", "clip", "prompt", "srate", "m2f"]

theorem map_plainWords (f : Focus σ Bank) (sampleRate : Float) :
    (plainWords f sampleRate).map Prod.fst = plainNames := rfl

theorem isName_of_mem_plainNames : ∀ name ∈ plainNames, IsName name := by decide

theorem nodup_plainNames : plainNames.Nodup := by decide

/-- The plain words stand for what they are registered for. -/
theorem lookup_plainWords (d : Dictionary σ) {f : Focus σ Bank} {sampleRate : Float} {name : String}
    {op : Operation σ} (h : (name, op) ∈ plainWords f sampleRate) :
    (d.defineAll (plainWords f sampleRate)).lookup name = some op := by
  refine d.lookup_defineAll_of_mem ?_ h
  rw [map_plainWords]
  exact nodup_plainNames

theorem LoadedAt.defineWords {k : Nat} {name path : String} (h : LoadedAt folder e k name path)
    (words : Words Bank) : LoadedAt folder (Bank.defineWords words e) k name path := by
  obtain ⟨hmodules, hrate⟩ := modules_defineWords words e
  refine ⟨h.named, ?_⟩
  rw [hmodules, hrate]
  exact h.sampler

/-- An installed bank has all its recordings loaded, before the plain words are registered. -/
theorem exists_loaded_of_installAt {spec : BankSpec} {e₀ : Engine Bank} {names : List String}
    (h : installAt .whole folder spec e₀ = .ok (names, e)) :
    ∃ taken e₁, Recording.files folder spec.samples = .ok (taken.map Prod.snd) ∧
      names = taken.map Prod.fst ∧ Loaded folder taken e₁ ∧
      e = defineWords (plainWords .whole (.ofNat e₀.sampleRate)) e₁ := by
  rw [installAt] at h
  obtain ⟨paths, hpaths, h⟩ := Except.bind_eq_ok_iff.mp h
  obtain ⟨⟨taken, e₁⟩, hload, h⟩ := Except.bind_eq_ok_iff.mp h
  cases h
  have hstart : Loaded folder [] (defineTickers (tickers .whole spec)
      (defineWords (moduleWords .whole spec)
        (e₀.onModules (Focus.whole.change fun _ ↦ ((), new spec (.ofNat e₀.sampleRate)))).2)) := by
    refine ⟨List.nodup_nil, ?_, by simp, by simp⟩
    rw [modules_defineTickers, (modules_defineWords _ _).1]
    rfl
  obtain ⟨hloaded, hpaths'⟩ := hstart.loadSamplers hload
  rw [List.map_nil, List.nil_append] at hpaths'
  exact ⟨taken, e₁, by rw [hpaths', hpaths], rfl, hloaded, rfl⟩

/-- A single recording is installed if its file can be loaded and names something. -/
theorem exists_installAt_single {f : Focus σ Bank} {spec : BankSpec} {path name : String}
    {recording : Recording Float} (hfiles : Recording.files folder spec.samples = .ok [path])
    (hname : Recording.wordName? path = some name)
    (hload : Recording.load folder path = .ok recording) (e₀ : Engine σ) :
    ∃ e, installAt f folder spec e₀ = .ok ([name], e) := by
  rw [installAt, hfiles]
  change ∃ e, (loadSamplers f folder [] _ [path] >>= _) = Except.ok ([name], e)
  rw [loadSamplers, hname, Option.bind_some, List.find?_nil,
    loadSampler_eq_ok_iff.mpr ⟨hname, recording, hload, rfl⟩]
  exact ⟨_, rfl⟩

/-- **Which recordings can be played**: the recordings of an installed bank are those of the files
that its sources stand for, in order, under the names of the files. The name of a recording that is
no plain word builds to the one step that invokes its sampler if and only if it reads as one name,
and a plain word builds to its own step. -/
theorem builds_sampler_iff {spec : BankSpec} {e₀ : Engine Bank} {names : List String}
    (h : installAt .whole folder spec e₀ = .ok (names, e)) :
    ∃ paths, Recording.files folder spec.samples = .ok paths ∧ names.length = paths.length ∧
      ∀ k name path, names[k]? = some name → paths[k]? = some path →
        LoadedAt folder e k name path ∧
        (name ∉ plainNames → (e.BuildsTo name [.native name (playAt k)] ↔ IsName name)) ∧
        ∀ op, (name, op) ∈ plainWords .whole (.ofNat e₀.sampleRate) →
          e.BuildsTo name [op.compiled name] := by
  obtain ⟨taken, e₁, hfiles, rfl, hloaded, rfl⟩ := exists_loaded_of_installAt h
  refine ⟨_, hfiles, by rw [List.length_map, List.length_map], ?_⟩
  intro k name path hname hpath
  have htaken : taken[k]? = some (name, path) := by
    rw [List.getElem?_map] at hname hpath
    obtain ⟨⟨name', path'⟩, hk, rfl⟩ := Option.map_eq_some_iff.mp hname
    rw [hk] at hpath
    cases hpath
    exact hk
  refine ⟨(hloaded.loaded k name path htaken).defineWords _, fun hplain ↦ ⟨?_, ?_⟩, ?_⟩
  · exact fun hbuild ↦ Engine.isName_of_buildsTo hbuild List.mem_cons_self
  · intro hisName
    have hlookup : (defineWords (plainWords .whole (.ofNat e₀.sampleRate)) e₁).dictionary.lookup
        name = some (.native (playAt k)) := by
      rw [dictionary_defineWords, Dictionary.lookup_defineAll_of_not_mem _ hplain]
      exact hloaded.lookup k name path htaken
    exact Engine.buildsTo_of_isName hisName hlookup
  · intro op hop
    refine Engine.buildsTo_of_isName
      (isName_of_mem_plainNames name (List.mem_map_of_mem (f := Prod.fst) hop)) ?_
    rw [dictionary_defineWords]
    exact lookup_plainWords _ hop

/-- A wave file without frames. -/
def emptyWave : List UInt8 :=
  WaveFile.tag "RIFF" ++ [36, 0, 0, 0] ++ WaveFile.tag "WAVE" ++ WaveFile.tag "fmt "
    ++ [16, 0, 0, 0, 1, 0, 1, 0, 0x80, 0xbb, 0, 0, 0x80, 0xbb, 0, 0, 1, 0, 8, 0]
    ++ WaveFile.tag "data" ++ [0, 0, 0, 0]

theorem decode_emptyWave : Recording.decode emptyWave = .ok ⟨#[], 48000⟩ := by
  have hwave : WaveFile.decode emptyWave = .ok ⟨⟨1, 48000, 8, 1, .integer⟩, #[]⟩ := rfl
  have hmix : Recording.mixFrames 1 #[] = #[] := by simp [Recording.mixFrames]
  rw [Recording.decode, hwave]
  change Except.ok (Recording.mk (Recording.mixFrames 1 #[]) 48000) = _
  rw [hmix]

/-! Such a file in the working directory, as the only one. -/

section

variable {file : String} (h : Path.IsBare file)

include h

theorem files_bare : Recording.files (.single file emptyWave.toArray 0) [file] = .ok [file] := by
  rw [Recording.files, List.mapM_cons, Recording.filesOf, Folder.get_single h]
  rfl

theorem wordName?_bare : Recording.wordName? file = some (Path.splitName file).1 := by
  rw [Recording.wordName?, Path.stem?, h.fileName?]
  simp

theorem load_bare :
    Recording.load (.single file emptyWave.toArray 0) file = .ok ⟨#[], 48000⟩ := by
  rw [Recording.load, Folder.read_single h]
  change (Recording.decode emptyWave.toArray.toList).mapError _ = _
  rw [List.toList_toArray, decode_emptyWave]
  rfl

/-- A file in the working directory is installed under the stem of its name. -/
theorem exists_installAt_bare (e₀ : Engine Bank) :
    ∃ e, installAt .whole (.single file emptyWave.toArray 0) { samples := [file] } e₀ =
      .ok ([(Path.splitName file).1], e) :=
  exists_installAt_single (files_bare h) (wordName?_bare h) (load_bare h) e₀

end

theorem isBare_kick : Path.IsBare "kick.wav" := by
  refine ⟨?_, by decide, by decide, by decide, by decide⟩
  rw [Path.splitOn_eq_singleton 8 (by decide) (by decide)]
  decide

theorem isBare_my_kick : Path.IsBare "my kick.wav" := by
  refine ⟨?_, by decide, by decide, by decide, by decide⟩
  rw [Path.splitOn_eq_singleton 11 (by decide) (by decide)]
  decide

/-- A recording named by one word can be played. -/
theorem builds_sampler_iff_kick :
    ∃ e, installAt .whole (.single "kick.wav" emptyWave.toArray 0) { samples := ["kick.wav"] }
        (Engine.new {} (new {} 48000)) = .ok (["kick"], e) ∧
      e.BuildsTo "kick" [.native "kick" (playAt 0)] := by
  obtain ⟨e, h⟩ := exists_installAt_bare isBare_kick (Engine.new {} (new {} 48000))
  have hstem : (Path.splitName "kick.wav").1 = "kick" := by decide
  rw [hstem] at h
  obtain ⟨paths, hpaths, hlength, hall⟩ := builds_sampler_iff h
  obtain ⟨path, rfl⟩ := List.length_eq_one_iff.mp hlength.symm
  obtain ⟨-, hiff, -⟩ := hall 0 "kick" path rfl rfl
  exact ⟨e, h, (hiff (by decide)).mpr (by decide)⟩

/-- **A recording that cannot be played**: a file named by two words is installed under both of
them, and that is not one name in any program. -/
theorem installed_unplayable :
    ∃ e, installAt .whole (.single "my kick.wav" emptyWave.toArray 0) { samples := ["my kick.wav"] }
        (Engine.new {} (new {} 48000)) = .ok (["my kick"], e) ∧
      ¬e.BuildsTo "my kick" [.native "my kick" (playAt 0)] := by
  obtain ⟨e, h⟩ := exists_installAt_bare isBare_my_kick (Engine.new {} (new {} 48000))
  have hstem : (Path.splitName "my kick.wav").1 = "my kick" := by decide
  rw [hstem] at h
  refine ⟨e, h, fun hbuild ↦ ?_⟩
  have hname : IsName "my kick" := Engine.isName_of_buildsTo hbuild List.mem_cons_self
  exact absurd hname (by decide)

end Bank

end StackSynth
