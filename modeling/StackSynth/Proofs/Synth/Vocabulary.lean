import StackSynth.Proofs.Machine.Effects
import StackSynth.Proofs.Number.Written
import StackSynth.Proofs.Synth.Recordings

/-!
# The words of a bank

A dictionary lets the latest entry under a name count, without a word about the earlier one. So a
bank is whole only if no two of its words have one name, whatever its sizes. The names of numbered
modules are made of a kind, a number and what stands around both: `->mix3` and `mix3->` are words
of one mixer. No digit is next to the number (`Apart`), so the number can be read off a name again,
and with it everything else (`label_inj`). Two kinds are told apart by what their names begin with,
up to the first digit (`stem`); for a name without digits that is the whole name. There are finitely
many stems, and they are compared once.

So an engine with a new bank stands for what was registered and for nothing else
(`Bank.exists_installed`), and every word acts on its own module: the way to the module at a place
changes the item at that place of one array, and nothing besides (`Focus.IsItem`).
-/

namespace StackSynth

open Numeral (isDigit)

variable {σ : Type}

/-! ## Names with a number -/

/-- What a name begins with, up to its first digit. -/
def stem (name : String) : List Char := name.toList.takeWhile (!isDigit ·)

/-- The names of `count` modules of a kind, numbered from one: for each module those that affixes
make of its kind and its number. -/
def numberedNames (kind : String) (affixes : List (String × String)) (count : Nat) : List String :=
  (List.range count).flatMap fun i ↦ affixes.map fun affix ↦
    affix.1 ++ (kind ++ toString (i + 1)) ++ affix.2

/-- Affixes keep the number apart: there is no digit before it, and none begins what is behind. -/
def Apart (kind : String) (affixes : List (String × String)) : Prop :=
  affixes.Nodup ∧ ∀ affix ∈ affixes,
    (affix.1 ++ kind).toList.all (!isDigit ·) = true ∧ affix.2.toList.head?.all (!isDigit ·) = true
deriving Decidable

theorem takeWhile_append_eq {p : Char → Bool} {xs ys : List Char} (hxs : ∀ x ∈ xs, p x = true)
    (hys : ys.head?.all (!p ·) = true) : (xs ++ ys).takeWhile p = xs := by
  rw [List.takeWhile_append_of_pos hxs]
  cases ys with
  | nil => exact List.append_nil xs
  | cons y ys => rw [List.takeWhile_cons_of_neg (by simpa using hys), List.append_nil]

theorem stem_eq {front back : List Char} (hfront : front.all (!isDigit ·) = true) (n : Nat) :
    (front ++ (Nat.toDigits 10 n ++ back)).takeWhile (!isDigit ·) = front := by
  refine takeWhile_append_eq (List.all_eq_true.mp hfront) ?_
  obtain ⟨digit, digits, hdigits⟩ := List.exists_cons_of_ne_nil (Nat.toDigits_ne_nil (n := n))
  have hdigit : isDigit digit = true :=
    Numeral.isDigit_of_mem_toDigits digit (hdigits ▸ List.mem_cons_self)
  rw [hdigits]
  simpa using hdigit

/-- A number that is kept apart can be read off, with what is around it. -/
theorem split_inj {front front' back back' : List Char} {n n' : Nat}
    (hfront : front.all (!isDigit ·) = true) (hfront' : front'.all (!isDigit ·) = true)
    (hback : back.head?.all (!isDigit ·) = true) (hback' : back'.head?.all (!isDigit ·) = true)
    (h : front ++ (Nat.toDigits 10 n ++ back) = front' ++ (Nat.toDigits 10 n' ++ back')) :
    front = front' ∧ n = n' ∧ back = back' := by
  obtain rfl : front = front' := by
    rw [← stem_eq hfront n, h, stem_eq hfront']
  have hrest := List.append_cancel_left h
  have hdigits : Nat.toDigits 10 n = Nat.toDigits 10 n' := by
    rw [← takeWhile_append_eq Numeral.isDigit_of_mem_toDigits hback, hrest,
      takeWhile_append_eq Numeral.isDigit_of_mem_toDigits hback']
  rw [hdigits] at hrest
  refine ⟨rfl, ?_, List.append_cancel_left hrest⟩
  rw [← Numeral.ofDigits_toDigits n, hdigits, Numeral.ofDigits_toDigits]

theorem toList_label (kind : String) (affix : String × String) (n : Nat) :
    (affix.1 ++ (kind ++ toString n) ++ affix.2).toList
      = (affix.1 ++ kind).toList ++ (Nat.toDigits 10 n ++ affix.2.toList) := by
  rw [← String.append_assoc, String.toList_append, String.toList_append, toList_toString,
    List.append_assoc]

theorem label_inj {kind : String} {affixes : List (String × String)} (h : Apart kind affixes)
    {affix affix' : String × String} (hmem : affix ∈ affixes) (hmem' : affix' ∈ affixes)
    {n n' : Nat} (heq : affix.1 ++ (kind ++ toString n) ++ affix.2
      = affix'.1 ++ (kind ++ toString n') ++ affix'.2) : affix = affix' ∧ n = n' := by
  have hlist := congrArg String.toList heq
  rw [toList_label, toList_label] at hlist
  obtain ⟨hfront, hn, hback⟩ := split_inj (h.2 affix hmem).1 (h.2 affix' hmem').1
    (h.2 affix hmem).2 (h.2 affix' hmem').2 hlist
  refine ⟨Prod.ext ?_ (String.toList_inj.mp hback), hn⟩
  rw [String.toList_append, String.toList_append] at hfront
  exact String.toList_inj.mp (List.append_cancel_right hfront)

/-- Names are distinct, and their stems are among some. -/
structure Stemmed (stems : List (List Char)) (names : List String) : Prop where
  nodup : names.Nodup
  stem_mem : ∀ name ∈ names, stem name ∈ stems

theorem Stemmed.of_nodup {names : List String} (h : names.Nodup) : Stemmed (names.map stem) names :=
  ⟨h, fun _ ↦ List.mem_map_of_mem⟩

theorem Stemmed.append {stems stems' : List (List Char)} {names names' : List String}
    (h : Stemmed stems names) (h' : Stemmed stems' names') (hne : ∀ s ∈ stems, s ∉ stems') :
    Stemmed (stems ++ stems') (names ++ names') where
  nodup := List.nodup_append.mpr ⟨h.nodup, h'.nodup, by
    rintro name hname _ hname' rfl
    exact hne _ (h.stem_mem name hname) (h'.stem_mem name hname')⟩
  stem_mem := List.forall_mem_append.mpr
    ⟨fun name hname ↦ List.mem_append_left _ (h.stem_mem name hname),
      fun name hname ↦ List.mem_append_right _ (h'.stem_mem name hname)⟩

theorem stemmed_numberedNames (kind : String) (affixes : List (String × String)) (count : Nat)
    (h : Apart kind affixes) :
    Stemmed (affixes.map fun affix ↦ (affix.1 ++ kind).toList)
      (numberedNames kind affixes count) where
  nodup := by
    rw [numberedNames, List.nodup_flatMap]
    refine ⟨fun i _ ↦ h.1.map_on fun affix hmem affix' hmem' heq ↦ (label_inj h hmem hmem' heq).1,
      List.nodup_range.imp fun {i j} hne ↦ ?_⟩
    rw [Function.onFun, List.disjoint_left]
    intro name hname hname'
    obtain ⟨affix, hmem, rfl⟩ := List.mem_map.mp hname
    obtain ⟨affix', hmem', heq⟩ := List.mem_map.mp hname'
    exact hne (Nat.succ.inj (label_inj h hmem' hmem heq).2).symm
  stem_mem name hname := by
    obtain ⟨i, -, hmap⟩ := List.mem_flatMap.mp hname
    obtain ⟨affix, hmem, rfl⟩ := List.mem_map.mp hmap
    rw [stem, toList_label, stem_eq (h.2 affix hmem).1]
    exact List.mem_map_of_mem hmem

/-! ## Items of arrays -/

/-- The part of a state is the item at a place of an array: a change of the part puts what becomes
of the item in its place, and nothing else happens. -/
structure Focus.IsItem {τ : Type} (f : Focus σ τ) (items : σ → Array τ) (put : Array τ → σ → σ)
    (i : Nat) : Prop where
  change_eq : ∀ {α : Type} (g : τ → α × τ) (s : σ) (h : i < (items s).size),
    f.change g s = ((g (items s)[i]).1, put ((items s).set i (g (items s)[i]).2) s)

theorem Focus.isItem_field {τ : Type} [Inhabited τ] {items : σ → Array τ}
    {put : Array τ → σ → σ} (hput : ∀ xs ys s, put xs (put ys s) = put xs s) (i : Nat) :
    ((Focus.field items put #[]).comp (.item i)).IsItem items put i where
  change_eq g s h := by
    simp only [Focus.field, Focus.comp, Focus.item, dif_pos h, hput, Array.set_set]

namespace Bank

/-! ## The names of modules -/

/-- What stands before and behind the names of operators in the names of their words. -/
def operatorAffixes : List (String × String) := [("", ""), ("", ".sync"), ("", ".looped?")]

/-- What stands before and behind the names of envelopes. -/
def envelopeAffixes : List (String × String) := [("", ""), ("", ".trig")]

/-- What stands before and behind the names of mixers. -/
def mixerAffixes : List (String × String) := [("->", ""), ("", "->")]

/-- What stands before and behind the names of delay lines. -/
def delayAffixes : List (String × String) := [("->", ""), ("", "")]

/-- What stands before and behind the names of patterns, and of tables. -/
def patternAffixes : List (String × String) := [("", ""), ("", ".set")]

variable (f : Focus σ Bank) (spec : BankSpec) (sampleRate : Float)

/-- The names of the words of modules. -/
theorem map_moduleWords : (moduleWords f spec).map Prod.fst =
    ["midi.note", "midi.vel", "midi.gate", "midi.cc"] ++ ["seq.tempo", "seq.step", "seq.trig?"]
      ++ numberedNames "op" operatorAffixes spec.operators
      ++ numberedNames "env" envelopeAffixes spec.envelopes
      ++ letters.flatMap (fun letter ↦ [">" ++ letter, letter])
      ++ numberedNames "mix" mixerAffixes spec.mixers
      ++ numberedNames "delay" delayAffixes spec.delays
      ++ numberedNames "dseq" patternAffixes spec.sequencers
      ++ numberedNames "vseq" patternAffixes spec.sequencers
      ++ numberedNames "itab" patternAffixes spec.tables := by
  have hnumbered : ∀ {kind : String} {count : Nat} {words : String → Nat → Words σ}
      {affixes : List (String × String)}, (∀ name i, (words name i).map Prod.fst
        = affixes.map fun affix ↦ affix.1 ++ name ++ affix.2) →
      (numbered kind count words).map Prod.fst = numberedNames kind affixes count := by
    intro kind count words affixes h
    rw [numbered, List.map_flatMap]
    exact congrArg (List.flatMap · _) (funext fun i ↦ h _ i)
  have hregisters : (letters.zipIdx.flatMap fun entry ↦
      registerWords entry.1 (f.comp (registerPart entry.2))).map Prod.fst
        = letters.flatMap fun letter ↦ [">" ++ letter, letter] := by
    conv_rhs => rw [← List.zipIdx_map_fst 0 letters, List.flatMap_map]
    rw [List.map_flatMap]
    rfl
  simp only [moduleWords, List.map_append]
  -- This leaves the numbered kinds; the registers are those of `hregisters`.
  congr
  all_goals
    refine hnumbered fun name i ↦ ?_
    simp only [operatorAffixes, envelopeAffixes, mixerAffixes, delayAffixes, patternAffixes,
      List.map_cons, List.map_nil, String.empty_append, String.append_empty]
    rfl

/-- No word of a bank has the name of another one, or of a built-in word. -/
theorem nodup_names : ((Builtin.entries ++ moduleWords f spec ++ plainWords f sampleRate).map
    Prod.fst).Nodup := by
  have hbuiltin : Stemmed (((Builtin.entries : List (String × Operation Unit)).map Prod.fst).map
      stem) ((Builtin.entries : List (String × Operation σ)).map Prod.fst) :=
    .of_nodup Builtin.nodup_entries
  have hmidi : Stemmed _ ["midi.note", "midi.vel", "midi.gate", "midi.cc"] := .of_nodup (by decide)
  have hclock : Stemmed _ ["seq.tempo", "seq.step", "seq.trig?"] := .of_nodup (by decide)
  have hregisters : Stemmed _ (letters.flatMap fun letter ↦ [">" ++ letter, letter]) :=
    .of_nodup (by decide)
  have hmodules := hmidi.append hclock (by decide)
    |>.append (stemmed_numberedNames "op" operatorAffixes spec.operators (by decide +kernel))
      (by decide +kernel)
    |>.append (stemmed_numberedNames "env" envelopeAffixes spec.envelopes (by decide +kernel))
      (by decide +kernel)
    |>.append hregisters (by decide +kernel)
    |>.append (stemmed_numberedNames "mix" mixerAffixes spec.mixers (by decide +kernel))
      (by decide +kernel)
    |>.append (stemmed_numberedNames "delay" delayAffixes spec.delays (by decide +kernel))
      (by decide +kernel)
    |>.append (stemmed_numberedNames "dseq" patternAffixes spec.sequencers (by decide +kernel))
      (by decide +kernel)
    |>.append (stemmed_numberedNames "vseq" patternAffixes spec.sequencers (by decide +kernel))
      (by decide +kernel)
    |>.append (stemmed_numberedNames "itab" patternAffixes spec.tables (by decide +kernel))
      (by decide +kernel)
  rw [List.map_append, List.map_append, map_moduleWords, map_plainWords]
  exact ((hbuiltin.append hmodules (by decide +kernel)).append (.of_nodup nodup_plainNames)
    (by decide +kernel)).nodup

theorem length_moduleWords : (moduleWords f spec).length = 59 + 3 * spec.operators
    + 2 * spec.envelopes + 2 * spec.mixers + 2 * spec.delays + 4 * spec.sequencers
    + 2 * spec.tables := by
  have hnumbered : ∀ kind affixes count,
      (numberedNames kind affixes count).length = count * affixes.length := by
    intro kind affixes count
    simp [numberedNames, List.length_flatMap]
  have hletters : (letters.flatMap fun letter ↦ [">" ++ letter, letter]).length = 52 := by decide
  rw [← List.length_map (f := Prod.fst), map_moduleWords]
  simp only [List.length_append, hnumbered, hletters, operatorAffixes, envelopeAffixes,
    mixerAffixes, delayAffixes, patternAffixes, List.length_cons, List.length_nil]
  omega

/-! ## Installing a bank -/

theorem tickers_defineWords (words : Words σ) (e : Engine σ) :
    (defineWords words e).scheduler.tickers = e.scheduler.tickers := by
  induction words generalizing e with
  | nil => rfl
  | cons word words ih => exact ih (e.define word.1 word.2)

theorem tickers_defineTickers (tickers : List (Ticker σ)) (e : Engine σ) :
    (defineTickers tickers e).scheduler.tickers.toList = e.scheduler.tickers.toList ++ tickers := by
  induction tickers generalizing e with
  | nil => exact (List.append_nil _).symm
  | cons t tickers ih =>
    refine (ih (e.registerTicker t)).trans ?_
    rw [Engine.registerTicker, Scheduler.addTicker, Array.toList_push, List.append_assoc,
      List.singleton_append]

/-- An engine has `count` modules of a kind, and the words under the name of each act on it. -/
structure HasModules {τ : Type} (e : Engine Bank) (count : Nat) (name : Nat → String)
    (items : Bank → Array τ) (put : Array τ → Bank → Bank) (part : Nat → Focus Bank τ)
    (words : String → Focus Bank τ → Words Bank) : Prop where
  size : (items e.modules).size = count
  isItem : ∀ i < count, (part i).IsItem items put i
  bound : ∀ i < count, ∀ entry ∈ words (name i) (part i),
    e.dictionary.lookup entry.1 = some entry.2

theorem HasModules.of_numbered {τ : Type} [Inhabited τ] {e : Engine Bank} {count : Nat}
    {kind : String} {items : Bank → Array τ} {put : Array τ → Bank → Bank}
    {words : String → Focus Bank τ → Words Bank} (hput : ∀ xs ys b, put xs (put ys b) = put xs b)
    (hsize : (items e.modules).size = count)
    (hbound : ∀ entry ∈ numbered kind count
        (fun name i ↦ words name ((Focus.field items put #[]).comp (.item i))),
      e.dictionary.lookup entry.1 = some entry.2) :
    HasModules e count (fun i ↦ kind ++ toString (i + 1)) items put
      (fun i ↦ (Focus.field items put #[]).comp (.item i)) words where
  size := hsize
  isItem i _ := Focus.isItem_field hput i
  bound i hi entry hentry :=
    hbound entry (List.mem_flatMap.mpr ⟨i, List.mem_range.mpr hi, hentry⟩)

/-- An engine has a new bank of some sizes, and every word that is registered for it. -/
structure Installed (spec : BankSpec) (sampleRate : Float) (e : Engine Bank) : Prop where
  modules : e.modules = new spec sampleRate
  /-- No two words have one name. -/
  nodup : ((Builtin.entries ++ moduleWords .whole spec ++ plainWords .whole sampleRate).map
    Prod.fst).Nodup
  /-- Names stand for what was registered under them, and there are no others. -/
  lookup : ∀ name op, e.dictionary.lookup name = some op ↔
    (name, op) ∈ Builtin.entries ++ moduleWords .whole spec ++ plainWords .whole sampleRate
  size : e.dictionary.size = 106 + 3 * spec.operators + 2 * spec.envelopes + 2 * spec.mixers
    + 2 * spec.delays + 4 * spec.sequencers + 2 * spec.tables
  midi : ∀ entry ∈ MidiInput.words "midi" midiPart, e.dictionary.lookup entry.1 = some entry.2
  clock : ∀ entry ∈ Clock.words "seq" clockPart, e.dictionary.lookup entry.1 = some entry.2
  operators : HasModules e spec.operators (fun i ↦ "op" ++ toString (i + 1)) Bank.operators
    (fun xs b ↦ { b with operators := xs }) operatorPart Operator.words
  envelopes : HasModules e spec.envelopes (fun i ↦ "env" ++ toString (i + 1)) Bank.envelopes
    (fun xs b ↦ { b with envelopes := xs }) envelopePart Envelope.words
  registers : HasModules e 26 (fun i ↦ letters.getD i "") Bank.registers
    (fun xs b ↦ { b with registers := xs }) registerPart registerWords
  mixers : HasModules e spec.mixers (fun i ↦ "mix" ++ toString (i + 1)) Bank.mixers
    (fun xs b ↦ { b with mixers := xs }) mixerPart Mixer.words
  delays : HasModules e spec.delays (fun i ↦ "delay" ++ toString (i + 1)) Bank.delays
    (fun xs b ↦ { b with delays := xs }) delayPart DelayLine.words
  gates : HasModules e spec.sequencers (fun i ↦ "dseq" ++ toString (i + 1)) Bank.gates
    (fun xs b ↦ { b with gates := xs }) gatePart (Pattern.gateWords · · clockPart)
  values : HasModules e spec.sequencers (fun i ↦ "vseq" ++ toString (i + 1)) Bank.values
    (fun xs b ↦ { b with values := xs }) valuePart (Pattern.valueWords · · clockPart)
  tables : HasModules e spec.tables (fun i ↦ "itab" ++ toString (i + 1)) Bank.tables
    (fun xs b ↦ { b with tables := xs }) tablePart Table.words
  /-- The order in which a frame moves the modules. -/
  tickers : e.scheduler.tickers.toList =
    [midiPart.ticker fun _ ↦ MidiInput.tick, clockPart.ticker fun playing c ↦ c.tick playing]
      ++ (List.range spec.operators).map (fun i ↦ (operatorPart i).ticker fun _ ↦ Operator.tick)
      ++ (List.range spec.envelopes).map (fun i ↦ (envelopePart i).ticker fun _ ↦ Envelope.tick)
      ++ (List.range spec.delays).map (fun i ↦ (delayPart i).ticker fun _ ↦ DelayLine.tick)
  tickers_size : e.scheduler.tickers.size = 2 + spec.operators + spec.envelopes + spec.delays

variable {spec sampleRate} in
/-- What is left to say of an engine once it has the words, the modules and the tickers. -/
theorem Installed.of_registered {e : Engine Bank} (hmodules : e.modules = new spec sampleRate)
    (hdictionary : e.dictionary = Dictionary.empty.defineAll
      (Builtin.entries ++ moduleWords .whole spec ++ plainWords .whole sampleRate))
    (htickers : e.scheduler.tickers.toList = Bank.tickers .whole spec) :
    Installed spec sampleRate e := by
  have hnodup := nodup_names .whole spec sampleRate
  have hbound : ∀ entry ∈ moduleWords .whole spec, e.dictionary.lookup entry.1 = some entry.2 := by
    intro entry hentry
    rw [hdictionary]
    exact Dictionary.lookup_defineAll_of_mem _ hnodup
      (List.mem_append_left _ (List.mem_append_right _ hentry))
  simp only [moduleWords, List.mem_append, or_imp, forall_and] at hbound
  obtain ⟨⟨⟨⟨⟨⟨⟨⟨⟨hmidi, hclock⟩, hoperators⟩, henvelopes⟩, hregisters⟩, hmixers⟩, hdelays⟩,
    hgates⟩, hvalues⟩, htables⟩ := hbound
  refine ⟨hmodules, hnodup, ?lookup, ?size, hmidi, hclock, ?operators, ?envelopes, ?registers,
    ?mixers, ?delays, ?gates, ?values, ?tables, htickers, ?tickers⟩
  case lookup =>
    intro name op
    rw [hdictionary, Dictionary.lookup_defineAll_empty_eq_some_iff hnodup]
  case size =>
    have hbuiltin : (Builtin.entries : Words Bank).length = 39 := rfl
    have hplain : (plainWords .whole sampleRate : Words Bank).length = 8 := rfl
    rw [hdictionary, Dictionary.size_defineAll_empty hnodup, List.length_append, List.length_append,
      length_moduleWords, hbuiltin, hplain]
    omega
  case tickers =>
    rw [← Array.length_toList, htickers, Bank.tickers]
    simp only [List.length_append, List.length_cons, List.length_nil, List.length_map,
      List.length_range]
  case registers =>
    refine ⟨by rw [hmodules]; rfl, fun i _ ↦ Focus.isItem_field (by intros; rfl) i, ?_⟩
    intro i hi entry hentry
    have hlength : i < letters.length := hi
    refine hregisters entry (List.mem_flatMap.mpr ⟨(letters.getD i "", i), ?_, hentry⟩)
    rw [List.mk_mem_zipIdx_iff_getElem?, List.getD_eq_getElem _ _ hlength]
    exact List.getElem?_eq_getElem hlength
  case operators =>
    exact .of_numbered (fun _ _ _ ↦ rfl) (by rw [hmodules, new, Array.size_replicate]) hoperators
  case envelopes =>
    exact .of_numbered (fun _ _ _ ↦ rfl) (by rw [hmodules, new, Array.size_replicate]) henvelopes
  case mixers =>
    exact .of_numbered (fun _ _ _ ↦ rfl) (by rw [hmodules, new, Array.size_replicate]) hmixers
  case delays =>
    exact .of_numbered (fun _ _ _ ↦ rfl) (by rw [hmodules, new, Array.size_map, Array.size_range])
      hdelays
  case gates =>
    exact .of_numbered (fun _ _ _ ↦ rfl) (by rw [hmodules, new, Array.size_replicate]) hgates
  case values =>
    exact .of_numbered (fun _ _ _ ↦ rfl) (by rw [hmodules, new, Array.size_replicate]) hvalues
  case tables =>
    exact .of_numbered (fun _ _ _ ↦ rfl) (by rw [hmodules, new, Array.size_replicate]) htables

/-- **No word of a bank hides another one**: whatever the sizes of a bank, an engine that installs
it without recordings stands for the built-in words and for every word of every module, each bound
to its own module, and has the tickers in order. -/
theorem exists_installed (folder : Folder) (engineSpec : EngineSpec) {spec : BankSpec}
    (h : Recording.files folder spec.samples = .ok []) :
    ∃ e, engine folder engineSpec spec = .ok ([], e) ∧
      Installed spec (.ofNat engineSpec.sampleRate) e := by
  have hrun : engine folder engineSpec spec = .ok ([], defineWords
      (plainWords .whole (.ofNat engineSpec.sampleRate)) (defineTickers (tickers .whole spec)
        (defineWords (moduleWords .whole spec)
          (Engine.new engineSpec (new spec (.ofNat engineSpec.sampleRate)))))) := by
    rw [engine, installAt, h]
    rfl
  refine ⟨_, hrun, .of_registered ?_ ?_ ?_⟩
  · rw [(modules_defineWords _ _).1, modules_defineTickers, (modules_defineWords _ _).1]
    rfl
  · rw [dictionary_defineWords, dictionary_defineTickers, dictionary_defineWords]
    simp only [Dictionary.defineAll, List.foldl_append]
    rfl
  · rw [tickers_defineWords, tickers_defineTickers, tickers_defineWords]
    rfl

/-- A bank of two operators, a mixer and a pattern of each kind. -/
def smallSpec : BankSpec where
  operators := 2
  envelopes := 0
  mixers := 1
  delays := 0
  sequencers := 1
  tables := 0

theorem exists_installed_small :
    ∃ e, engine {} {} smallSpec = .ok ([], e) ∧ Installed smallSpec (.ofNat 48000) e ∧
      e.dictionary.size = 118 := by
  obtain ⟨e, hrun, hinstalled⟩ :=
    exists_installed {} {} (rfl : Recording.files {} smallSpec.samples = .ok [])
  exact ⟨e, hrun, hinstalled, hinstalled.size⟩

end Bank

end StackSynth
