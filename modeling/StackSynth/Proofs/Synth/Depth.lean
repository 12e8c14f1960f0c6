import StackSynth.Proofs.Machine.Depth
import StackSynth.Synth.Install

/-!
# The words of the modules seen as depths

No word of a module looks at the depth of the stack beyond the values it takes, and whether it takes
or leaves a value never depends on a value: a flag decides what happens to the module and not to the
stack. So every word that a bank brings makes moves only (`Bank.Provides.onlyMoves`), and of all its
words only the one that clears the stack makes another move than a relative one
(`Bank.Provides.relative`).
-/

namespace StackSynth

open Native

variable {σ τ : Type}

theorem Focus.moves_update (f : Focus σ τ) (g : τ → τ) : Moves (f.update g) [] := moves_onModules _

theorem Focus.moves_read {α : Type} (f : Focus σ τ) (g : τ → α) : Moves (f.read g) [] :=
  moves_onModules _

theorem Focus.moves_act {α : Type} (f : Focus σ τ) (g : τ → α × τ) : Moves (f.act g) [] :=
  moves_onModules _

theorem Operator.words_relative (name : String) (f : Focus σ Operator) :
    ∀ word ∈ Operator.words name f, word.2.OnlyRelativeMoves := by
  simp only [Operator.words, List.forall_mem_cons]
  exact ⟨⟨_, moves_pop.bind fun _ ↦ (f.moves_update _).bind fun _ ↦ (f.moves_read _).bind fun _ ↦
      moves_push _, by decide⟩,
    ⟨_, moves_pop.bind fun _ ↦ .ite _ (f.moves_update _) (.pure _), by decide⟩,
    ⟨_, (f.moves_act _).bind fun _ ↦ moves_push _, by decide⟩, nofun⟩

theorem Envelope.words_relative (name : String) (f : Focus σ (Envelope Float)) :
    ∀ word ∈ Envelope.words name f, word.2.OnlyRelativeMoves := by
  simp only [Envelope.words, List.forall_mem_cons]
  exact ⟨⟨_, moves_pop2.bind fun _ ↦ (f.moves_update _).bind fun _ ↦ (f.moves_read _).bind fun _ ↦
      moves_push _, by decide⟩,
    ⟨_, moves_pop.bind fun _ ↦ .ite _ (f.moves_update _) (.pure _), by decide⟩, nofun⟩

theorem registerWords_relative (name : String) (f : Focus σ Float) :
    ∀ word ∈ registerWords name f, word.2.OnlyRelativeMoves := by
  simp only [registerWords, List.forall_mem_cons]
  exact ⟨⟨_, moves_pop.bind fun _ ↦ f.moves_update _, by decide⟩,
    ⟨_, (f.moves_read _).bind fun _ ↦ moves_push _, by decide⟩, nofun⟩

theorem Mixer.words_relative (name : String) (f : Focus σ Mixer) :
    ∀ word ∈ Mixer.words name f, word.2.OnlyRelativeMoves := by
  simp only [Mixer.words, List.forall_mem_cons]
  exact ⟨⟨_, moves_pop.bind fun _ ↦ f.moves_update _, by decide⟩,
    ⟨_, (f.moves_act _).bind fun _ ↦ moves_push _, by decide⟩, nofun⟩

theorem DelayLine.words_relative (name : String) (f : Focus σ DelayLine) :
    ∀ word ∈ DelayLine.words name f, word.2.OnlyRelativeMoves := by
  simp only [DelayLine.words, List.forall_mem_cons]
  exact ⟨⟨_, moves_pop.bind fun _ ↦ f.moves_update _, by decide⟩,
    ⟨_, moves_pop.bind fun _ ↦ (f.moves_read _).bind fun _ ↦ moves_push _, by decide⟩, nofun⟩

theorem Clock.words_relative (name : String) (f : Focus σ (Clock Float)) :
    ∀ word ∈ Clock.words name f, word.2.OnlyRelativeMoves := by
  simp only [Clock.words, List.forall_mem_cons]
  exact ⟨⟨_, moves_pop.bind fun _ ↦ f.moves_update _, by decide⟩,
    ⟨_, (f.moves_read _).bind fun _ ↦ moves_push _, by decide⟩,
    ⟨_, (f.moves_read _).bind fun _ ↦ moves_push _, by decide⟩, nofun⟩

theorem Pattern.words_relative {α : Type} (name : String) (f : Focus σ (Pattern α))
    (ofEntry : Float → α) {play : NativeM σ Float} (hplay : Moves play []) :
    ∀ word ∈ Pattern.words name f ofEntry play, word.2.OnlyRelativeMoves := by
  simp only [Pattern.words, List.forall_mem_cons]
  exact ⟨⟨_, hplay.bind fun _ ↦ moves_push _, by decide⟩,
    ⟨_, moves_pop2.bind fun _ ↦ f.moves_update _, by decide⟩, nofun⟩

theorem Pattern.gateWords_relative (name : String) (f : Focus σ (Pattern Bool))
    (clock : Focus σ (Clock Float)) :
    ∀ word ∈ Pattern.gateWords name f clock, word.2.OnlyRelativeMoves :=
  Pattern.words_relative name f _
    ((clock.moves_read _).bind fun _ ↦ (f.moves_read _).bind fun _ ↦ .pure _)

theorem Pattern.valueWords_relative (name : String) (f : Focus σ (Pattern Float))
    (clock : Focus σ (Clock Float)) :
    ∀ word ∈ Pattern.valueWords name f clock, word.2.OnlyRelativeMoves :=
  Pattern.words_relative name f _ ((clock.moves_read _).bind fun _ ↦ f.moves_read _)

theorem Table.words_relative (name : String) (f : Focus σ Table) :
    ∀ word ∈ Table.words name f, word.2.OnlyRelativeMoves := by
  simp only [Table.words, List.forall_mem_cons]
  exact ⟨⟨_, moves_pop.bind fun _ ↦ (f.moves_read _).bind fun _ ↦ moves_push _, by decide⟩,
    ⟨_, moves_pop2.bind fun _ ↦ f.moves_update _, by decide⟩, nofun⟩

theorem Sampler.words_relative (name : String) (f : Focus σ (Sampler Float)) :
    ∀ word ∈ Sampler.words name f, word.2.OnlyRelativeMoves := by
  simp only [Sampler.words, List.forall_mem_cons]
  have hvalue := (f.moves_read Sampler.value).bind fun x ↦ moves_push x
  exact ⟨⟨_, moves_pop.bind fun _ ↦ .ite _ ((f.moves_update _).bind fun _ ↦ hvalue) hvalue,
    by decide⟩, nofun⟩

theorem MidiInput.words_relative (name : String) (f : Focus σ MidiInput) :
    ∀ word ∈ MidiInput.words name f, word.2.OnlyRelativeMoves := by
  simp only [MidiInput.words, List.forall_mem_cons]
  exact ⟨⟨_, (f.moves_read _).bind fun _ ↦ moves_push _, by decide⟩,
    ⟨_, (f.moves_read _).bind fun _ ↦ moves_push _, by decide⟩,
    ⟨_, (f.moves_read _).bind fun _ ↦ moves_push _, by decide⟩,
    ⟨_, moves_pop.bind fun _ ↦ (f.moves_read _).bind fun _ ↦ moves_push _, by decide⟩, nofun⟩

theorem Wave.words_relative : ∀ word ∈ (Wave.words : Words σ), word.2.OnlyRelativeMoves := by
  simp only [Wave.words, List.forall_mem_cons]
  exact ⟨.unary _, .unary _, .unary _, .unary _, .unary _, nofun⟩

theorem outsideWords_relative (prompt : Focus σ Float) (sampleRate : Float) :
    ∀ word ∈ outsideWords prompt sampleRate, word.2.OnlyRelativeMoves := by
  simp only [outsideWords, List.forall_mem_cons]
  exact ⟨⟨_, (prompt.moves_read _).bind fun _ ↦ moves_push _, by decide⟩, trivial, .unary _, nofun⟩

namespace Bank

/-- What holds of the words of every kind of module holds of all words of the modules. -/
theorem forall_moduleWords {P : String × Operation σ → Prop} {f : Focus σ Bank} {spec : BankSpec}
    (midi : ∀ word ∈ MidiInput.words "midi" (f.comp midiPart), P word)
    (clock : ∀ word ∈ Clock.words "seq" (f.comp clockPart), P word)
    (operators : ∀ name i, ∀ word ∈ Operator.words name (f.comp (operatorPart i)), P word)
    (envelopes : ∀ name i, ∀ word ∈ Envelope.words name (f.comp (envelopePart i)), P word)
    (registers : ∀ name i, ∀ word ∈ registerWords name (f.comp (registerPart i)), P word)
    (mixers : ∀ name i, ∀ word ∈ Mixer.words name (f.comp (mixerPart i)), P word)
    (delays : ∀ name i, ∀ word ∈ DelayLine.words name (f.comp (delayPart i)), P word)
    (gates : ∀ name i, ∀ word ∈ Pattern.gateWords name (f.comp (gatePart i)) (f.comp clockPart),
      P word)
    (values : ∀ name i, ∀ word ∈ Pattern.valueWords name (f.comp (valuePart i)) (f.comp clockPart),
      P word)
    (tables : ∀ name i, ∀ word ∈ Table.words name (f.comp (tablePart i)), P word) :
    ∀ word ∈ moduleWords f spec, P word := by
  have hnumbered : ∀ {kind count} {words : String → Nat → Words σ},
      (∀ name i, ∀ word ∈ words name i, P word) → ∀ word ∈ numbered kind count words, P word := by
    intro kind count words h
    rw [numbered, List.forall_mem_flatMap]
    exact fun i _ ↦ h _ i
  simp only [moduleWords, List.forall_mem_append]
  refine ⟨⟨⟨⟨⟨⟨⟨⟨⟨midi, clock⟩, hnumbered operators⟩, hnumbered envelopes⟩, ?_⟩,
    hnumbered mixers⟩, hnumbered delays⟩, hnumbered gates⟩, hnumbered values⟩, hnumbered tables⟩
  -- the registers are named by letters and not by numbers
  rw [List.forall_mem_flatMap]
  exact fun _ _ ↦ registers _ _

theorem moduleWords_relative (f : Focus σ Bank) (spec : BankSpec) :
    ∀ word ∈ moduleWords f spec, word.2.OnlyRelativeMoves :=
  forall_moduleWords (MidiInput.words_relative _ _) (Clock.words_relative _ _)
    (fun _ _ ↦ Operator.words_relative _ _) (fun _ _ ↦ Envelope.words_relative _ _)
    (fun _ _ ↦ registerWords_relative _ _) (fun _ _ ↦ Mixer.words_relative _ _)
    (fun _ _ ↦ DelayLine.words_relative _ _) (fun _ _ ↦ Pattern.gateWords_relative _ _ _)
    (fun _ _ ↦ Pattern.valueWords_relative _ _ _) (fun _ _ ↦ Table.words_relative _ _)

/-- The words of the language and of a bank at `f`, with any sizes and any recordings. -/
inductive Provides (f : Focus σ Bank) : String × Operation σ → Prop where
  /-- A built-in word. -/
  | builtin {word} (h : word ∈ Builtin.entries) : Provides f word
  /-- A word of a module. -/
  | ofModule {word} (spec : BankSpec) (h : word ∈ moduleWords f spec) : Provides f word
  /-- The word of a recording. -/
  | ofSampler {word} (name : String) (i : Nat)
      (h : word ∈ Sampler.words name (f.comp (samplerPart i))) : Provides f word
  /-- A word without a module. -/
  | plain {word} (sampleRate : Float) (h : word ∈ plainWords f sampleRate) : Provides f word

theorem Provides.relative {f : Focus σ Bank} {word : String × Operation σ} (h : Provides f word) :
    word.2 = .native Builtin.clear ∨ word.2.OnlyRelativeMoves := by
  cases h with
  | builtin h => exact Builtin.entries_relative _ h
  | ofModule spec h => exact Or.inr (moduleWords_relative f spec _ h)
  | ofSampler name i h => exact Or.inr (Sampler.words_relative name _ _ h)
  | plain sampleRate h =>
    rw [plainWords, List.mem_append] at h
    rcases h with h | h
    · exact Or.inr (Wave.words_relative _ h)
    · exact Or.inr (outsideWords_relative _ _ _ h)

theorem Provides.onlyMoves {f : Focus σ Bank} {word : String × Operation σ} (h : Provides f word) :
    word.2.OnlyMoves := by
  rcases h.relative with hclear | hrelative
  · rw [hclear]
    exact ⟨_, Builtin.moves_clear⟩
  · exact hrelative.onlyMoves

end Bank

/-! ## Dictionaries -/

/-- A dictionary of words of the language and of a bank at `f`, constants, and words that programs
have defined over these. -/
def Dictionary.OfBank (f : Focus σ Bank) (d : Dictionary σ) : Prop :=
  d.Uses fun act ↦ ∃ name, Bank.Provides f (name, .native act)

namespace Dictionary.OfBank

variable {f : Focus σ Bank} {d : Dictionary σ}

/-- A program over a bank makes moves only. -/
theorem exists_movesBy (h : d.OfBank f) {tokens : List Token} {c : Compiled σ}
    (hc : compileTokens d tokens = .ok c) :
    ∃ steps, MovesBy DepthStep.run (Program.run c.program) steps :=
  Program.exists_movesBy (fun _ ⟨_, hact⟩ ↦ hact.onlyMoves) (Dictionary.Uses.program h hc)

theorem defineAll (h : d.OfBank f) {words : List (String × Operation σ)}
    (hwords : ∀ word ∈ words, Bank.Provides f word) : (d.defineAll words).OfBank f := by
  refine Dictionary.Uses.defineAll h fun word hword name ↦ ?_
  have hprovides := hwords word hword
  have honly := hprovides.onlyMoves
  obtain ⟨name', op⟩ := word
  cases op with
  | native act => exact ⟨name', hprovides⟩
  | constant value => exact trivial
  | word label body => exact honly.elim

theorem builtin : (Builtin.dictionary : Dictionary σ).OfBank f :=
  defineAll Dictionary.Uses.empty fun _ h ↦ .builtin h

end Dictionary.OfBank

namespace Bank

theorem dictionary_defineWords (words : Words σ) (e : Engine σ) :
    (defineWords words e).dictionary = e.dictionary.defineAll words := by
  induction words generalizing e with
  | nil => rfl
  | cons word words ih => exact ih (e.define word.1 word.2)

theorem dictionary_defineTickers (tickers : List (Ticker σ)) (e : Engine σ) :
    (defineTickers tickers e).dictionary = e.dictionary := by
  induction tickers generalizing e with
  | nil => rfl
  | cons t tickers ih => exact ih (e.registerTicker t)

variable {f : Focus σ Bank} {folder : Folder}

/-- What loading a recording does if it succeeds. -/
theorem loadSampler_eq_ok_iff {path name : String} {e e' : Engine σ} :
    loadSampler f folder path e = .ok (name, e') ↔ Recording.wordName? path = some name ∧
      ∃ recording, Recording.load folder path = .ok recording ∧
        e' = addSampler f name recording e := by
  rw [loadSampler]
  cases Recording.wordName? path with
  | none =>
    constructor
    · intro h; cases h
    · rintro ⟨h, -⟩; cases h
  | some name' =>
    constructor
    · intro h
      obtain ⟨recording, hload, hadd⟩ := Except.bind_eq_ok_iff.mp h
      cases hadd
      exact ⟨rfl, recording, hload, rfl⟩
    · rintro ⟨hname, recording, hload, rfl⟩
      cases hname
      exact Except.bind_eq_ok_iff.mpr ⟨recording, hload, rfl⟩

/-- What holds of an engine and is kept by adding samplers holds with all recordings loaded. -/
theorem loadSamplers_induction {motive : Engine σ → Prop}
    (add : ∀ name recording e, motive e → motive (addSampler f name recording e))
    {taken taken' : List (String × String)} {paths : List String} {e e' : Engine σ}
    (start : motive e) (h : loadSamplers f folder taken e paths = .ok (taken', e')) :
    motive e' := by
  induction paths generalizing taken e with
  | nil =>
    rw [loadSamplers] at h
    cases h
    exact start
  | cons path rest ih =>
    rw [loadSamplers] at h
    split at h
    next => cases h
    next =>
      obtain ⟨⟨name, e₁⟩, hload, hrest⟩ := Except.bind_eq_ok_iff.mp h
      obtain ⟨-, recording, -, rfl⟩ := loadSampler_eq_ok_iff.mp hload
      exact ih (add name recording e start) hrest

/-- Installing a bank ends with the plain words, behind whatever loading recordings has led to. -/
theorem installAt_induction {motive : Engine σ → Prop} {spec : BankSpec} {names : List String}
    {e e' : Engine σ} (h : installAt f folder spec e = .ok (names, e'))
    (start : motive (defineTickers (tickers f spec) (defineWords (moduleWords f spec)
      (e.onModules (f.change fun _ ↦ ((), new spec (.ofNat e.sampleRate)))).2)))
    (add : ∀ name recording e, motive e → motive (addSampler f name recording e)) :
    ∃ e₁, motive e₁ ∧ e' = defineWords (plainWords f (.ofNat e.sampleRate)) e₁ := by
  rw [installAt] at h
  obtain ⟨paths, -, h⟩ := Except.bind_eq_ok_iff.mp h
  obtain ⟨⟨taken, e₁⟩, hload, h⟩ := Except.bind_eq_ok_iff.mp h
  cases h
  exact ⟨e₁, loadSamplers_induction add start hload, rfl⟩

/-- The dictionary of an engine with a bank, whatever recordings were loaded. -/
theorem installAt_ofBank {spec : BankSpec} {names : List String} {e e' : Engine σ}
    (he : e.dictionary.OfBank f) (h : installAt f folder spec e = .ok (names, e')) :
    e'.dictionary.OfBank f := by
  have hbank := installAt_induction (motive := fun e ↦ e.dictionary.OfBank f) h ?start ?add
  case start =>
    rw [dictionary_defineTickers, dictionary_defineWords]
    exact he.defineAll fun _ hword ↦ .ofModule spec hword
  case add =>
    intro name recording e he
    rw [addSampler, dictionary_defineWords]
    exact he.defineAll fun _ hword ↦ .ofSampler name _ hword
  obtain ⟨e₁, hloaded, rfl⟩ := hbank
  rw [dictionary_defineWords]
  exact hloaded.defineAll fun _ hword ↦ .plain _ hword

theorem engine_ofBank {spec : EngineSpec} {bank : BankSpec} {names : List String}
    {e : Engine Bank} (h : engine folder spec bank = .ok (names, e)) :
    e.dictionary.OfBank .whole :=
  installAt_ofBank .builtin h

end Bank

end StackSynth
