import StackSynth.Console.Reply
import StackSynth.Proofs.Engine.Builds
import StackSynth.Proofs.Language.Words

/-!
# The language of console lines

What a console line asks for is read off its words by patterns, some with a count of arguments
hidden in them. This file says the language by constructors, one for each form of line
(`Command.Written`), over the words of the line as programs have them (`wordsOf`). Reading a line
meets it in both directions: a line that is written in one of the forms gives the command with just
these values, and every other line is an error that its first word decides.

The bytes in a command are those that its words write, up to 127. Only three commands send an event,
which has these bytes, so no event that comes from the console has a greater one.
-/

namespace StackSynth

/-! ## Words and ends of a line -/

namespace Blank

/-- What is left behind a run does not go on with it. -/
theorem head?_dropWhile_all (p : Char → Bool) (cs : List Char) :
    (cs.dropWhile p).head?.all (!p ·) = true := by
  have hhead := List.head?_dropWhile_not p cs
  cases hx : (cs.dropWhile p).head? with
  | none => rfl
  | some x => simpa [hx] using hhead

theorem words_eq_map_wordsBehind {before cs : List Char}
    (hbefore : before.getLast?.all isBlank = true) :
    words (String.ofList cs) = (wordsBehind before cs).map Word.text := by
  induction hn : cs.length using Nat.strong_induction_on generalizing before cs with
  | _ n ih =>
    subst hn
    have hblank : ∀ {c : Char} {rest : List Char} (before : List Char), isBlank c = true →
        rest.length < cs.length →
        words (String.ofList (c :: rest)) = (wordsBehind before (c :: rest)).map Word.text := by
      intro c rest before hc hlt
      have hskip : wordsBehind before ([c] ++ rest) = wordsBehind (before ++ [c]) rest :=
        wordsBehind_blanks (by simpa using hc)
      rw [words_blank hc, ← List.singleton_append, hskip]
      exact ih rest.length hlt (by simpa using hc) rfl
    cases cs with
    | nil => rfl
    | cons c cs =>
      cases hc : isBlank c with
      | true => exact hblank before hc (Nat.lt_succ_self _)
      | false =>
        -- The first word is a run of letters, and white space or the end is behind it.
        obtain ⟨letters, rest, hsplit, hsolid, hrest⟩ : ∃ letters rest, cs = letters ++ rest ∧
            (∀ x ∈ c :: letters, isBlank x = false) ∧ rest.head?.all isBlank = true := by
          refine ⟨_, _, (List.takeWhile_append_dropWhile (p := (!isBlank ·))).symm, ?_, ?_⟩
          · rw [List.forall_mem_cons]
            exact ⟨hc, fun x hx ↦ by simpa using List.mem_takeWhile_imp hx⟩
          · simpa using head?_dropWhile_all (!isBlank ·) cs
        subst hsplit
        rw [← List.cons_append, words_letters (List.cons_ne_nil _ _) hsolid hrest,
          wordsBehind_word hbefore (List.cons_ne_nil _ _) hsolid hrest, List.map_cons]
        congr 1
        cases rest with
        | nil => rfl
        | cons x rest =>
          refine hblank _ hrest ?_
          rw [List.length_cons, List.length_append, List.length_cons]
          omega

/-- Lines have the words that programs have. -/
theorem words_eq (text : String) : words text = (wordsOf text.toList).map Word.text := by
  have hwords : words (String.ofList text.toList) = (wordsBehind [] text.toList).map Word.text :=
    words_eq_map_wordsBehind rfl
  rwa [String.ofList_toList] at hwords

/-- A text is another one without the white space at both ends of it. -/
structure Trims (text trimmed : String) : Prop where
  split : ∃ front back, text.toList = front ++ (trimmed.toList ++ back) ∧
    (∀ c ∈ front, isBlank c = true) ∧ ∀ c ∈ back, isBlank c = true
  head : trimmed.toList.head?.all (!isBlank ·) = true
  last : trimmed.toList.getLast?.all (!isBlank ·) = true

theorem trims_trim (text : String) : Trims text (trim text) := by
  have hfront := List.takeWhile_append_dropWhile (p := isBlank) (l := text.toList)
  have hhead := head?_dropWhile_all isBlank text.toList
  rw [trim]
  generalize text.toList.dropWhile isBlank = rest at hfront hhead
  have hback : (rest.reverse.dropWhile isBlank).reverse ++ (rest.reverse.takeWhile isBlank).reverse
      = rest := by
    rw [← List.reverse_append, List.takeWhile_append_dropWhile, List.reverse_reverse]
  refine ⟨⟨text.toList.takeWhile isBlank, (rest.reverse.takeWhile isBlank).reverse, ?_,
    fun _ ↦ List.mem_takeWhile_imp, fun _ hc ↦ List.mem_takeWhile_imp (List.mem_reverse.mp hc)⟩,
    ?_, ?_⟩
  · rw [String.toList_ofList, hback, hfront]
  · rw [String.toList_ofList]
    cases htrimmed : (rest.reverse.dropWhile isBlank).reverse with
    | nil => rfl
    | cons c cs =>
      rw [← hback, htrimmed] at hhead
      exact hhead
  · rw [String.toList_ofList, List.getLast?_reverse]
    exact head?_dropWhile_all isBlank _

end Blank

/-! ## Bytes -/

namespace Command

/-- A word writes a number up to 127 by one or more digits, perhaps behind a plus sign. -/
structure WritesByte (word : String) (byte : UInt8) : Prop where
  digits : ∃ digits, Numeral.Digits digits ∧
    (word.toList = digits ∨ word.toList = '+' :: digits) ∧ Numeral.ofDigits digits = byte.toNat
  le : byte ≤ 127

end Command

theorem Numeral.readNatural?_eq_some_iff {word : String} {n : Nat} :
    readNatural? word = some n ↔ ∃ digits, Digits digits ∧
      (word.toList = digits ∨ word.toList = '+' :: digits) ∧ ofDigits digits = n := by
  have hread : ∀ digits, (if !digits.isEmpty && digits.all isDigit then some (ofDigits digits)
      else none) = some n ↔ Digits digits ∧ ofDigits digits = n := by
    intro digits
    rw [Option.ite_none_right_eq_some, Option.some_inj, Bool.and_eq_true, Bool.not_eq_true',
      List.isEmpty_eq_false_iff, List.all_eq_true]
    rfl
  rw [readNatural?]
  generalize word.toList = cs
  split
  next cs =>
    rw [hread]
    constructor
    · exact fun ⟨hdigits, hvalue⟩ ↦ ⟨cs, hdigits, .inr rfl, hvalue⟩
    · rintro ⟨digits, hdigits, rfl | hcs, hvalue⟩
      · exact absurd (hdigits.2 '+' List.mem_cons_self) (by decide)
      · rw [List.cons_inj_right] at hcs
        exact hcs ▸ ⟨hdigits, hvalue⟩
  next hplus =>
    rw [hread]
    constructor
    · exact fun ⟨hdigits, hvalue⟩ ↦ ⟨cs, hdigits, .inl rfl, hvalue⟩
    · rintro ⟨digits, hdigits, rfl | hcs, hvalue⟩
      · exact ⟨hdigits, hvalue⟩
      · exact absurd hcs (hplus digits)

namespace Command

theorem midiByte?_eq_some_iff {word : String} {byte : UInt8} :
    midiByte? word = some byte ↔ WritesByte word byte := by
  have hbyte : ∀ n, (if n ≤ 127 then some n.toUInt8 else none) = some byte ↔
      n = byte.toNat ∧ byte ≤ 127 := by
    intro n
    rw [Option.ite_none_right_eq_some, Option.some_inj]
    constructor
    · rintro ⟨hle, rfl⟩
      have hn : n.toUInt8.toNat = n := Nat.mod_eq_of_lt (Nat.lt_of_le_of_lt hle (by decide))
      exact ⟨hn.symm, UInt8.le_iff_toNat_le.mpr (hn.trans_le hle)⟩
    · rintro ⟨rfl, hle⟩
      exact ⟨UInt8.le_iff_toNat_le.mp hle, UInt8.ofNat_toNat⟩
  rw [midiByte?]
  constructor
  · intro h
    split at h
    next n hn =>
      obtain ⟨rfl, hle⟩ := (hbyte n).mp h
      exact ⟨Numeral.readNatural?_eq_some_iff.mp hn, hle⟩
    next => cases h
  · rintro ⟨hdigits, hle⟩
    rw [Numeral.readNatural?_eq_some_iff.mpr hdigits]
    exact (hbyte _).mpr ⟨rfl, hle⟩

/-! ## Forms of lines -/

/-- How the words of a line write a command. -/
inductive Written : List String → Command → Prop where
  | empty : Written [] .toggle
  | toggle : Written ["toggle"] .toggle
  | reload : Written ["reload"] .reload
  | stack : Written ["stack"] .stack
  | help : Written ["help"] .help
  | quit : Written ["quit"] .quit
  | exit : Written ["exit"] .quit
  | prompt {word : String} {n : Numeral} (h : Numeral.Writes word.toList n) :
      Written [word] (.prompt n.value)
  /-- A key that is pressed with the velocity of keys for which none is given. -/
  | noteOnly {word : String} {key : UInt8} (h : WritesByte word key) :
      Written ["note", word] (.note key 100)
  | note {word word' : String} {key velocity : UInt8} (h : WritesByte word key)
      (h' : WritesByte word' velocity) : Written ["note", word, word'] (.note key velocity)
  | off {word : String} {key : UInt8} (h : WritesByte word key) : Written ["off", word] (.off key)
  | control {word word' : String} {controller value : UInt8} (h : WritesByte word controller)
      (h' : WritesByte word' value) : Written ["cc", word, word'] (.control controller value)

/-- How a MIDI command is used, by the word that it begins with. -/
def form? : String → Option String
  | "note" => some "note <0-127> [velocity 0-127]"
  | "off" => some "off <0-127>"
  | "cc" => some "cc <0-127> <0-127>"
  | _ => none

/-- What is wrong with words that write no command: they misuse a MIDI command if the first of them
is the name of one, and otherwise they are unknown. -/
def misuse? (words : List String) : Option String := words.head?.bind form?

theorem form?_eq_none {word : String} (hnote : word ≠ "note") (hoff : word ≠ "off")
    (hcontrol : word ≠ "cc") : form? word = none := by
  rw [form?]
  all_goals assumption

variable {words : List String}

theorem exists_eq_of_map_one {byte : UInt8} (h : words.map midiByte? = [some byte]) :
    ∃ word, words = [word] ∧ WritesByte word byte := by
  obtain ⟨word, rfl, hword⟩ := List.map_eq_singleton_iff.mp h
  exact ⟨word, rfl, midiByte?_eq_some_iff.mp hword⟩

theorem exists_eq_of_map_two {byte byte' : UInt8}
    (h : words.map midiByte? = [some byte, some byte']) :
    ∃ word word', words = [word, word'] ∧ WritesByte word byte ∧ WritesByte word' byte' := by
  obtain ⟨word, rest, rfl, hword, hrest⟩ := List.map_eq_cons_iff.mp h
  obtain ⟨word', rfl, hword'⟩ := exists_eq_of_map_one hrest
  exact ⟨word, word', rfl, midiByte?_eq_some_iff.mp hword, hword'⟩

/-- Words that are read write the command, and all others are in error. -/
theorem ofWords_cases (words : List String) :
    (∃ command, ofWords words = some (.ok command) ∧ Written words command) ∨
      ofWords words = (misuse? words).map .error := by
  rw [ofWords.eq_def]
  split
  next => exact .inl ⟨_, rfl, .empty⟩
  next => exact .inl ⟨_, rfl, .toggle⟩
  next => exact .inl ⟨_, rfl, .reload⟩
  next => exact .inl ⟨_, rfl, .stack⟩
  next => exact .inl ⟨_, rfl, .help⟩
  next => exact .inl ⟨_, rfl, .quit⟩
  next => exact .inl ⟨_, rfl, .exit⟩
  next rest =>
    split
    next key hrest =>
      obtain ⟨word, rfl, hword⟩ := exists_eq_of_map_one hrest
      exact .inl ⟨_, rfl, .noteOnly hword⟩
    next key velocity hrest =>
      obtain ⟨word, word', rfl, hword, hword'⟩ := exists_eq_of_map_two hrest
      exact .inl ⟨_, rfl, .note hword hword'⟩
    next => exact .inr rfl
  next rest =>
    split
    next key hrest =>
      obtain ⟨word, rfl, hword⟩ := exists_eq_of_map_one hrest
      exact .inl ⟨_, rfl, .off hword⟩
    next => exact .inr rfl
  next rest =>
    split
    next controller value hrest =>
      obtain ⟨word, word', rfl, hword, hword'⟩ := exists_eq_of_map_two hrest
      exact .inl ⟨_, rfl, .control hword hword'⟩
    next => exact .inr rfl
  next word _ _ _ _ _ _ hnote hoff hcontrol =>
    cases hparse : Numeral.parse? word with
    | none =>
      rw [Numeral.read?, hparse]
      exact .inr (congrArg (Option.map Except.error) (form?_eq_none hnote hoff hcontrol)).symm
    | some n =>
      rw [Numeral.read?, hparse]
      exact .inl ⟨_, rfl, .prompt (Numeral.parse?_eq_some_iff.mp hparse)⟩
  next _ _ _ _ _ _ _ hnote hoff hcontrol _ =>
    cases words with
    | nil => exact .inr rfl
    | cons word rest =>
      have hnone : form? word = none := form?_eq_none (fun h ↦ hnote rest (h ▸ rfl))
        (fun h ↦ hoff rest (h ▸ rfl)) fun h ↦ hcontrol rest (h ▸ rfl)
      exact .inr (congrArg (Option.map Except.error) hnone).symm

/-- No command has a name that is a numeral. -/
theorem ofWords_prompt {word : String} {n : Numeral} (h : Numeral.Writes word.toList n) :
    ofWords [word] = some (.ok (.prompt n.value)) := by
  have hparse := Numeral.parse?_eq_some_iff.mpr h
  have hne : ∀ name ∈ ["toggle", "reload", "stack", "help", "quit", "exit", "note", "off", "cc"],
      word ≠ name := by
    have hnone : ∀ name ∈ ["toggle", "reload", "stack", "help", "quit", "exit", "note", "off",
        "cc"], Numeral.parse? name = none := by decide
    rintro name hname rfl
    rw [hnone word hname] at hparse
    cases hparse
  rw [ofWords, Numeral.read?, hparse]
  · rfl
  all_goals exact fun heq ↦ hne _ (by decide) heq

theorem Written.ofWords_eq {command : Command} (h : Written words command) :
    ofWords words = some (.ok command) := by
  cases h with
  | empty | toggle | reload | stack | help | quit | exit => rfl
  | prompt h => exact ofWords_prompt h
  | noteOnly h =>
    rw [ofWords, List.map_singleton, midiByte?_eq_some_iff.mpr h]
    rfl
  | off h => rw [ofWords, List.map_singleton, midiByte?_eq_some_iff.mpr h]
  | note h h' | control h h' =>
    rw [ofWords, List.map_cons, List.map_singleton, midiByte?_eq_some_iff.mpr h,
      midiByte?_eq_some_iff.mpr h']

theorem ofWords_eq_some_ok_iff {command : Command} :
    ofWords words = some (.ok command) ↔ Written words command := by
  refine ⟨fun h ↦ ?_, Written.ofWords_eq⟩
  rcases ofWords_cases words with ⟨command', h', hwritten⟩ | h'
  · rw [h] at h'
    cases h'
    exact hwritten
  · rw [h] at h'
    cases hmisuse : misuse? words <;> rw [hmisuse] at h' <;> cases h'

theorem ofWords_of_not_written (h : ¬ ∃ command, Written words command) :
    ofWords words = (misuse? words).map .error :=
  (ofWords_cases words).resolve_left fun ⟨command, _, hwritten⟩ ↦ h ⟨command, hwritten⟩

end Command

/-! ## Events -/

/-- The bytes in an event. -/
def MidiEvent.bytes : MidiEvent → List UInt8
  | .noteOn note velocity => [note, velocity]
  | .noteOff note => [note]
  | .controlChange controller value => [controller, value]

namespace Command

/-- The event that a command sends. -/
def event? : Command → Option MidiEvent
  | .note key velocity => some (.noteOn key velocity)
  | .off key => some (.noteOff key)
  | .control controller value => some (.controlChange controller value)
  | _ => none

theorem Written.le_of_mem_bytes {words : List String} {command : Command} {event : MidiEvent}
    (h : Written words command) (hevent : command.event? = some event) :
    ∀ byte ∈ event.bytes, byte ≤ 127 := by
  cases h with
  | noteOnly h =>
    obtain rfl := Option.some.inj hevent
    exact List.forall_mem_cons.mpr ⟨h.le, List.forall_mem_singleton.mpr (by decide)⟩
  | note h h' | control h h' =>
    obtain rfl := Option.some.inj hevent
    exact List.forall_mem_cons.mpr ⟨h.le, List.forall_mem_singleton.mpr h'.le⟩
  | off h =>
    obtain rfl := Option.some.inj hevent
    exact List.forall_mem_singleton.mpr h.le
  | _ => cases hevent

theorem modules_of_reload {folder : Folder} {path : String} {e e' : Engine Bank}
    {report : BuildReport} (h : e.reload folder path = .ok (report, e')) :
    e'.modules = e.modules := by
  rw [Engine.reload] at h
  split at h
  next => cases h
  next content _ =>
    cases hbuild : e.buildBytes content.toList with
    | error error =>
      rw [hbuild] at h
      cases h
    | ok result =>
      rw [hbuild] at h
      cases h
      obtain ⟨text, -, htext⟩ := Engine.buildBytes_eq_ok_iff.mp hbuild
      obtain ⟨c, -, -, rfl⟩ := Engine.build_eq_ok_iff.mp htext
      rfl

/-- Only the event of a command gets to the MIDI input. -/
theorem midi_execute (folder : Folder) (program : String) (command : Command) (e : Engine Bank) :
    (execute .whole folder program command e).2.modules.midi =
      match command.event? with
      | some event => (e.modules.midi.send event).2
      | none => e.modules.midi := by
  cases command with
  | reload =>
    rw [execute]
    split
    next hreload => exact congrArg Bank.midi (modules_of_reload hreload)
    next => rfl
  | _ => rfl

end Command

end StackSynth
