import StackSynth.Proofs.Engine.Driven
import StackSynth.Proofs.Synth.Depth

/-!
# What the words of the modules leave alone

A word of a module acts on the part of the bank where the module is kept, so a view that does not
show that part is kept (`Focus.Spares`). The words of MIDI input read their part and do not change
it. So all words that a bank brings keep the MIDI input, and of its tickers only the first changes
it: in an engine with a bank, the ticks of the MIDI input drive it and nothing else does
(`Bank.midiReady_engine`).
-/

namespace StackSynth

open Native

variable {σ τ υ α : Type}

/-! ## Parts -/

/-- Changes of the part do not show in the view. -/
def Focus.Spares (f : Focus σ τ) (view : σ → υ) : Prop :=
  ∀ {α : Type} (g : τ → α × τ) (s : σ), view (f.change g s).2 = view s

namespace Focus.Spares

variable {f : Focus σ τ} {view : σ → υ} (h : f.Spares view)

include h

theorem act (g : τ → α × τ) : Keeps (fun p ↦ view p.modules) (f.act g) :=
  fun bench ↦ h g bench.rig.modules

theorem read (g : τ → α) : Keeps (fun p ↦ view p.modules) (f.read g) := h.act _

theorem update (g : τ → τ) : Keeps (fun p ↦ view p.modules) (f.update g) := h.act _

theorem ticker (g : Bool → τ → τ) (p : Rig σ) :
    view (f.ticker g p).modules = view p.modules := h _ p.modules

end Focus.Spares

/-! ## Words -/

/-- A native that keeps the view, or a constant. -/
def Operation.Keeps (view : σ → υ) : Operation σ → Prop
  | .native act => StackSynth.Keeps (fun p ↦ view p.modules) act
  | .constant _ => True
  | .word _ _ => False

variable {view : σ → υ}

theorem Operation.Keeps.uses {op : Operation σ} (h : op.Keeps view) (name : String) :
    (op.compiled name).Uses (StackSynth.Keeps fun p ↦ view p.modules) := by
  cases op with
  | native act => exact h
  | constant value => exact trivial
  | word label body => exact h.elim

section Words

/-- Every word of a list keeps the view. -/
def Words.Keep (view : σ → υ) (words : Words σ) : Prop := ∀ word ∈ words, word.2.Keeps view

theorem Operator.words_keep (name : String) {f : Focus σ Operator} (h : f.Spares view) :
    (Operator.words name f).Keep view := by
  simp only [Words.Keep, Operator.words, List.forall_mem_cons]
  refine ⟨?frequency, ?sync, ?looped, by simp⟩
  case frequency =>
    exact .bind .pop fun _ ↦ .bind (h.update _) fun _ ↦ .bind (h.read _) fun _ ↦ .push _
  case sync => exact .bind .pop fun _ ↦ .ite _ (h.update _) (.pure _)
  case looped => exact .bind (h.act _) fun _ ↦ .push _

theorem Envelope.words_keep (name : String) {f : Focus σ (Envelope Float)} (h : f.Spares view) :
    (Envelope.words name f).Keep view := by
  simp only [Words.Keep, Envelope.words, List.forall_mem_cons]
  refine ⟨?level, ?trigger, by simp⟩
  case level =>
    exact .bind .pop2 fun _ ↦ .bind (h.update _) fun _ ↦ .bind (h.read _) fun _ ↦ .push _
  case trigger => exact .bind .pop fun _ ↦ .ite _ (h.update _) (.pure _)

theorem registerWords_keep (name : String) {f : Focus σ Float} (h : f.Spares view) :
    (registerWords name f).Keep view := by
  simp only [Words.Keep, registerWords, List.forall_mem_cons]
  refine ⟨?store, ?fetch, by simp⟩
  case store => exact .bind .pop fun _ ↦ h.update _
  case fetch => exact .bind (h.read _) fun _ ↦ .push _

theorem Mixer.words_keep (name : String) {f : Focus σ Mixer} (h : f.Spares view) :
    (Mixer.words name f).Keep view := by
  simp only [Words.Keep, Mixer.words, List.forall_mem_cons]
  refine ⟨?add, ?take, by simp⟩
  case add => exact .bind .pop fun _ ↦ h.update _
  case take => exact .bind (h.act _) fun _ ↦ .push _

theorem DelayLine.words_keep (name : String) {f : Focus σ DelayLine} (h : f.Spares view) :
    (DelayLine.words name f).Keep view := by
  simp only [Words.Keep, DelayLine.words, List.forall_mem_cons]
  refine ⟨?write, ?read, by simp⟩
  case write => exact .bind .pop fun _ ↦ h.update _
  case read => exact .bind .pop fun _ ↦ .bind (h.read _) fun _ ↦ .push _

theorem Clock.words_keep (name : String) {f : Focus σ (Clock Float)} (h : f.Spares view) :
    (Clock.words name f).Keep view := by
  simp only [Words.Keep, Clock.words, List.forall_mem_cons]
  refine ⟨?tempo, ?step, ?triggered, by simp⟩
  case tempo => exact .bind .pop fun _ ↦ h.update _
  case step => exact .bind (h.read _) fun _ ↦ .push _
  case triggered => exact .bind (h.read _) fun _ ↦ .push _

theorem Pattern.words_keep (name : String) {f : Focus σ (Pattern α)} (h : f.Spares view)
    (ofEntry : Float → α) {play : NativeM σ Float} (hplay : Keeps (fun p ↦ view p.modules) play) :
    (Pattern.words name f ofEntry play).Keep view := by
  simp only [Words.Keep, Pattern.words, List.forall_mem_cons]
  refine ⟨?play, ?set, by simp⟩
  case play => exact hplay.bind fun _ ↦ .push _
  case set => exact .bind .pop2 fun _ ↦ h.update _

theorem Pattern.gateWords_keep (name : String) {f : Focus σ (Pattern Bool)}
    {clock : Focus σ (Clock Float)} (h : f.Spares view) (hclock : clock.Spares view) :
    (Pattern.gateWords name f clock).Keep view :=
  Pattern.words_keep name h _ (.bind (hclock.read _) fun _ ↦ .bind (h.read _) fun _ ↦ .pure _)

theorem Pattern.valueWords_keep (name : String) {f : Focus σ (Pattern Float)}
    {clock : Focus σ (Clock Float)} (h : f.Spares view) (hclock : clock.Spares view) :
    (Pattern.valueWords name f clock).Keep view :=
  Pattern.words_keep name h _ (.bind (hclock.read _) fun _ ↦ h.read _)

theorem Table.words_keep (name : String) {f : Focus σ Table} (h : f.Spares view) :
    (Table.words name f).Keep view := by
  simp only [Words.Keep, Table.words, List.forall_mem_cons]
  refine ⟨?read, ?set, by simp⟩
  case read => exact .bind .pop fun _ ↦ .bind (h.read _) fun _ ↦ .push _
  case set => exact .bind .pop2 fun _ ↦ h.update _

theorem Sampler.words_keep (name : String) {f : Focus σ (Sampler Float)} (h : f.Spares view) :
    (Sampler.words name f).Keep view := by
  have hvalue := Keeps.bind (h.read Sampler.value) fun x ↦ Keeps.push x
  simp only [Words.Keep, Sampler.words, List.forall_mem_cons]
  exact ⟨.bind .pop fun _ ↦ .ite _ (.bind (h.update _) fun _ ↦ hvalue) hvalue, by simp⟩

/-- The words of MIDI input only read. -/
theorem MidiInput.words_keep (name : String) {f : Focus σ MidiInput}
    (h : ∀ {α : Type} (g : MidiInput → α) (s : σ),
      view (f.change (fun m ↦ (g m, m)) s).2 = view s) :
    (MidiInput.words name f).Keep view := by
  have hread : ∀ {α : Type} (g : MidiInput → α), Keeps (fun p ↦ view p.modules) (f.read g) :=
    fun g bench ↦ h g bench.rig.modules
  simp only [Words.Keep, MidiInput.words, List.forall_mem_cons]
  refine ⟨?note, ?velocity, ?gate, ?controller, by simp⟩
  case note => exact .bind (hread _) fun _ ↦ .push _
  case velocity => exact .bind (hread _) fun _ ↦ .push _
  case gate => exact .bind (hread _) fun _ ↦ .push _
  case controller => exact .bind .pop fun _ ↦ .bind (hread _) fun _ ↦ .push _

theorem Wave.words_keep : (Wave.words : Words σ).Keep view := by
  have hunary : ∀ f : Float → Float, Keeps (fun p ↦ view p.modules) (unary f : Native σ) :=
    Keeps.unary
  simp only [Words.Keep, Wave.words, List.forall_mem_cons]
  exact ⟨hunary _, hunary _, hunary _, hunary _, hunary _, by simp⟩

theorem outsideWords_keep {prompt : Focus σ Float} (h : prompt.Spares view) (sampleRate : Float) :
    (outsideWords prompt sampleRate).Keep view := by
  have hnote : Keeps (fun p ↦ view p.modules) (unary Wave.noteFrequency : Native σ) := .unary _
  simp only [Words.Keep, outsideWords, List.forall_mem_cons]
  exact ⟨.bind (h.read _) fun _ ↦ .push _, trivial, hnote, by simp⟩

end Words

/-! ## Engines with a bank -/

namespace Bank

/-- No word of a bank changes the MIDI input. -/
theorem moduleWords_keep (spec : BankSpec) : (moduleWords .whole spec).Keep Bank.midi := by
  have hclock : (Focus.whole.comp clockPart).Spares Bank.midi := fun _ _ ↦ rfl
  refine forall_moduleWords (MidiInput.words_keep _ fun _ _ ↦ rfl) (Clock.words_keep _ hclock)
    ?operators ?envelopes ?registers ?mixers ?delays ?gates ?values ?tables
  case operators => exact fun _ _ ↦ Operator.words_keep _ fun _ _ ↦ rfl
  case envelopes => exact fun _ _ ↦ Envelope.words_keep _ fun _ _ ↦ rfl
  case registers => exact fun _ _ ↦ registerWords_keep _ fun _ _ ↦ rfl
  case mixers => exact fun _ _ ↦ Mixer.words_keep _ fun _ _ ↦ rfl
  case delays => exact fun _ _ ↦ DelayLine.words_keep _ fun _ _ ↦ rfl
  case gates => exact fun _ _ ↦ Pattern.gateWords_keep _ (fun _ _ ↦ rfl) hclock
  case values => exact fun _ _ ↦ Pattern.valueWords_keep _ (fun _ _ ↦ rfl) hclock
  case tables => exact fun _ _ ↦ Table.words_keep _ fun _ _ ↦ rfl

theorem plainWords_keep (sampleRate : Float) : (plainWords .whole sampleRate).Keep Bank.midi := by
  rw [Words.Keep, plainWords, List.forall_mem_append]
  exact ⟨Wave.words_keep, outsideWords_keep (fun _ _ ↦ rfl) _⟩

/-- The first ticker of a bank is that of the MIDI input, and the others leave it alone. -/
theorem exists_tickers_eq (spec : BankSpec) : ∃ rest,
    tickers .whole spec = midiPart.ticker (fun _ ↦ MidiInput.tick) :: rest ∧
      ∀ t ∈ rest, ∀ p : Rig Bank, (t p).modules.midi = p.modules.midi := by
  refine ⟨[clockPart.ticker fun playing c ↦ c.tick playing]
    ++ (List.range spec.operators).map (fun i ↦ (operatorPart i).ticker fun _ ↦ Operator.tick)
    ++ (List.range spec.envelopes).map (fun i ↦ (envelopePart i).ticker fun _ ↦ Envelope.tick)
    ++ (List.range spec.delays).map (fun i ↦ (delayPart i).ticker fun _ ↦ DelayLine.tick), rfl, ?_⟩
  simp only [List.forall_mem_append, List.forall_mem_singleton, List.forall_mem_map]
  exact ⟨⟨⟨fun _ ↦ rfl, fun _ _ _ ↦ rfl⟩, fun _ _ _ ↦ rfl⟩, fun _ _ _ ↦ rfl⟩

variable {turn : υ → υ} {e : Engine σ}

theorem driven_defineWords {words : Words σ} (hwords : words.Keep view) (h : e.Driven view turn) :
    (defineWords words e).Driven view turn ∧ (defineWords words e).modules = e.modules := by
  induction words generalizing e with
  | nil => exact ⟨h, rfl⟩
  | cons word words ih =>
    rw [Words.Keep, List.forall_mem_cons] at hwords
    have hdefine : (e.define word.1 word.2).Driven view turn :=
      ⟨⟨h.uses.dictionary.define hwords.1.uses, h.uses.program⟩, h.tick⟩
    exact ih hwords.2 hdefine

theorem defineTickers_cons (t : Ticker σ) (tickers : List (Ticker σ)) (e : Engine σ) :
    defineTickers (t :: tickers) e = defineTickers tickers (e.registerTicker t) := rfl

theorem driven_defineTickers {tickers : List (Ticker σ)}
    (htickers : ∀ t ∈ tickers, ∀ p : Rig σ, view (t p).modules = view p.modules)
    (h : e.Driven view turn) :
    (defineTickers tickers e).Driven view turn ∧ (defineTickers tickers e).modules = e.modules := by
  induction tickers generalizing e with
  | nil => exact ⟨h, rfl⟩
  | cons t tickers ih =>
    rw [List.forall_mem_cons] at htickers
    have hregister : (e.registerTicker t).Driven view (id ∘ turn) := h.registerTicker htickers.1
    exact ih htickers.2 hregister

/-- The engine drives the MIDI input by its ticks, and nothing has happened to it. -/
structure MidiReady (e : Engine Bank) : Prop where
  driven : e.Driven Bank.midi MidiInput.tick
  midi : e.modules.midi = .new

variable {e : Engine Bank} {folder : Folder}

theorem midiReady_addSampler (h : MidiReady e) (name : String) (recording : Recording Float) :
    MidiReady (addSampler .whole name recording e) := by
  rw [addSampler]
  generalize he' : e.onModules _ = result
  obtain ⟨i, e'⟩ := result
  have hdriven : e'.Driven Bank.midi MidiInput.tick := by
    have hsame := h.driven.onModules (Focus.whole.change fun b ↦ (b.samplers.size,
      { b with samplers := b.samplers.push (Sampler.new recording (.ofNat e.sampleRate)) }))
    rwa [he'] at hsame
  have hmidi : e'.modules.midi = e.modules.midi := by
    have hafter := congrArg (fun r ↦ r.2.modules.midi) he'
    exact hafter.symm
  have hticker : (e'.registerTicker ((Focus.whole.comp (samplerPart i)).ticker fun _ ↦
      Sampler.tick)).Driven Bank.midi (id ∘ MidiInput.tick) :=
    hdriven.registerTicker (Focus.Spares.ticker (fun _ _ ↦ rfl) _)
  obtain ⟨hwords, hmodules⟩ := driven_defineWords
    (Sampler.words_keep name (f := .comp .whole (samplerPart i)) fun _ _ ↦ rfl) hticker
  refine ⟨hwords, ?_⟩
  rw [hmodules, ← h.midi, ← hmidi]
  rfl

theorem midiReady_installAt {spec : BankSpec} {names : List String} {e' : Engine Bank}
    (he : e.Driven Bank.midi id) (h : installAt .whole folder spec e = .ok (names, e')) :
    MidiReady e' := by
  have hready := installAt_induction (motive := MidiReady) h ?start fun name recording e he ↦
    midiReady_addSampler he name recording
  case start =>
    have hinit := he.onModules (Focus.whole.change fun _ ↦ ((), new spec (.ofNat e.sampleRate)))
    obtain ⟨hwords, hmodules⟩ := driven_defineWords (moduleWords_keep spec) hinit
    have hmidi : ∀ p : Rig Bank, (midiPart.ticker (fun _ ↦ MidiInput.tick) p).modules.midi
        = MidiInput.tick p.modules.midi := fun _ ↦ rfl
    obtain ⟨rest, htickers, hrest⟩ := exists_tickers_eq spec
    obtain ⟨hall, hmodules'⟩ := driven_defineTickers hrest (hwords.registerTicker hmidi)
    rw [htickers, defineTickers_cons]
    refine ⟨hall, ?_⟩
    rw [Engine.modules_registerTicker, hmodules] at hmodules'
    exact congrArg Bank.midi hmodules'
  obtain ⟨e₁, hloaded, rfl⟩ := hready
  obtain ⟨hplain, hmodules⟩ := driven_defineWords (plainWords_keep _) hloaded.driven
  refine ⟨hplain, ?_⟩
  rw [hmodules, hloaded.midi]

theorem midiReady_engine {spec : EngineSpec} {bank : BankSpec} {names : List String}
    (h : engine folder spec bank = .ok (names, e)) : MidiReady e :=
  midiReady_installAt (.new spec _) h

end Bank

end StackSynth
