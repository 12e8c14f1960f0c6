import StackSynth.Proofs.Language.Acceptance
import StackSynth.Proofs.Language.Definitions

/-!
# Compiling a program again

Whoever saves a file that has not changed has it compiled again, now against a dictionary that holds
its definitions already. If the program uses every name that it defines only behind a definition of
it (`DefinesFirst`), nothing comes of that: the second time gives the same program and the same
definitions, and committing them changes nothing (`compileTokens_again`). A program that uses a name
before it defines it takes a meaning from the dictionary and puts another one in its place, so each
time it may build on what the time before has left.

Labels are handed out anew each time. Two bodies are the same here if they are the same tree, which
is said by taking the labels off (`Instruction.unlabelled`).

## The invariant

What a program compiles to depends on the dictionary only through the names that it borrows: those
that it uses where no definition of them has closed. Two builds against dictionaries that agree on
these go side by side (`Echoes`), and since the call depth of a body is that of its tree, a
definition that closes in one closes in the other.
-/

namespace StackSynth

variable {σ : Type}

/-! ## Trees -/

mutual

/-- A step with no label inside. -/
def Instruction.unlabelled : Instruction σ → Instruction σ
  | .push value => .push value
  | .native name act => .native name act
  | .call name _ body => .call name 0 (Program.unlabelled body)
  | .constant name value => .constant name value

/-- A program with no label inside. -/
def Program.unlabelled : List (Instruction σ) → List (Instruction σ)
  | [] => []
  | i :: is => i.unlabelled :: Program.unlabelled is

end

/-- What a name stands for, with no label inside. -/
def Operation.unlabelled : Operation σ → Operation σ
  | .native act => .native act
  | .word _ body => .word 0 (Program.unlabelled body)
  | .constant value => .constant value

/-- Definitions with no label inside. -/
def unlabelledEntries (entries : List (String × Operation σ)) : List (String × Operation σ) :=
  entries.map fun (name, op) ↦ (name, op.unlabelled)

/-- What a program compiled to, with no label inside. -/
def Compiled.unlabelled (c : Compiled σ) : Compiled σ :=
  ⟨Program.unlabelled c.program, unlabelledEntries c.definitions⟩

theorem Program.unlabelled_append (p q : Program σ) :
    Program.unlabelled (p ++ q) = Program.unlabelled p ++ Program.unlabelled q := by
  induction p with
  | nil => rfl
  | cons i is ih => rw [List.cons_append, unlabelled, ih, unlabelled, List.cons_append]

theorem Program.unlabelled_concat (p : Program σ) (i : Instruction σ) :
    Program.unlabelled (p ++ [i]) = Program.unlabelled p ++ [i.unlabelled] := by
  rw [unlabelled_append, unlabelled, unlabelled]

/-- Labels have no part in how deeply calls nest. -/
theorem Program.callDepth_unlabelled (p : Program σ) :
    Program.callDepth (Program.unlabelled p) = Program.callDepth p := by
  induction p using Program.induction with
  | nil => rfl
  | push _ is ih | native _ _ is ih | constant _ _ is ih =>
    rw [unlabelled, callDepth, callDepth, ih, Instruction.unlabelled, Instruction.callDepth]
  | call name label body is ihBody ih =>
    rw [unlabelled, callDepth, callDepth, ih, Instruction.unlabelled, Instruction.callDepth,
      Instruction.callDepth, ihBody]

theorem Operation.unlabelled_compiled (op : Operation σ) (name : String) :
    (op.compiled name).unlabelled = op.unlabelled.compiled name := by
  cases op <;> rfl

theorem unlabelledEntries_concat (entries : List (String × Operation σ)) (name : String)
    (op : Operation σ) : unlabelledEntries (entries ++ [(name, op)])
      = unlabelledEntries entries ++ [(name, op.unlabelled)] := by
  rw [unlabelledEntries, List.map_append, unlabelledEntries]
  rfl

theorem lookup_unlabelledEntries (entries : List (String × Operation σ)) (name : String) :
    (unlabelledEntries entries).lookup name = (entries.lookup name).map Operation.unlabelled := by
  induction entries with
  | nil => rfl
  | cons entry entries ih =>
    obtain ⟨first, op⟩ := entry
    change ((first, op.unlabelled) :: unlabelledEntries entries).lookup name = _
    rw [List.lookup_cons, List.lookup_cons]
    cases name == first with
    | true => rfl
    | false => exact ih

/-- What a name stands for in a dictionary, with no label inside. -/
def Dictionary.tree? (d : Dictionary σ) (name : String) : Option (Operation σ) :=
  (d.lookup name).map Operation.unlabelled

theorem Dictionary.tree?_commit (d : Dictionary σ) (c : Compiled σ) (name : String) :
    (d.commit c).tree? name
      = ((unlabelledEntries c.definitions).reverse.lookup name).or (d.tree? name) := by
  have hreverse : (unlabelledEntries c.definitions).reverse
      = unlabelledEntries c.definitions.reverse := List.map_reverse.symm
  rw [tree?, lookup_commit, lookup_defineAll, Option.map_or, hreverse, lookup_unlabelledEntries,
    tree?]

/-! ## Borrowed names -/

/-- A name is used where no definition of it has closed, so the dictionary says what it means. -/
def Borrows (tokens : List Token) (name : String) : Prop :=
  ∃ seen t rest, tokens = seen ++ t :: rest ∧ t.kind = .name ∧ t.text = name ∧
    ¬AwaitsName seen ∧ ¬Defined seen name

/-- No name that is defined is used before its first definition has closed. -/
def DefinesFirst (tokens : List Token) : Prop :=
  ∀ seen t rest, tokens = seen ++ t :: rest → t.kind = .name → ¬AwaitsName seen →
    Defined tokens t.text → Defined seen t.text

theorem Borrows.concat {seen : List Token} {name : String} (h : Borrows seen name) (t : Token) :
    Borrows (seen ++ [t]) name := by
  obtain ⟨before, t', rest, rfl, h⟩ := h
  exact ⟨before, t', rest ++ [t], by rw [List.append_assoc, List.cons_append], h⟩

theorem DefinesFirst.not_defined {tokens : List Token} (h : DefinesFirst tokens) {name : String}
    (hborrows : Borrows tokens name) : ¬Defined tokens name := by
  obtain ⟨seen, t, rest, heq, hk, rfl, hw, hdef⟩ := hborrows
  exact fun hdef' ↦ hdef (h seen t rest heq hk hw hdef')

/-! ## Builds side by side -/

/-- A definition that is open, with no label inside its body. -/
def OpenDefinition.tree (frame : OpenDefinition σ) : Token × Program σ :=
  (frame.name, Program.unlabelled frame.body.toList)

/-- Labels apart, `b'` is where `b` is, both having read `seen`. -/
structure Echoes (seen : List Token) (b b' : Build σ) : Prop where
  resolve_eq : ∀ name, Defined seen name →
    (b'.resolve name).map Operation.unlabelled = (b.resolve name).map Operation.unlabelled
  frames_eq : b'.frames.map OpenDefinition.tree = b.frames.map OpenDefinition.tree
  marker_eq : b'.marker = b.marker
  program_eq : Program.unlabelled b'.program.toList = Program.unlabelled b.program.toList
  definitions_eq :
    unlabelledEntries b'.definitions.toList = unlabelledEntries b.definitions.toList

namespace Echoes

variable {seen : List Token} {b b' : Build σ}

theorem start (d d' : Dictionary σ) : Echoes [] (Build.start d) (Build.start d') where
  resolve_eq _ h := absurd h not_defined_nil
  frames_eq := rfl
  marker_eq := rfl
  program_eq := rfl
  definitions_eq := rfl

theorem exists_frames (h : Echoes seen b b') {frame : OpenDefinition σ}
    {outer : List (OpenDefinition σ)} (hf : b.frames = frame :: outer) :
    ∃ frame' outer', b'.frames = frame' :: outer' ∧ frame'.name = frame.name ∧
      Program.unlabelled frame'.body.toList = Program.unlabelled frame.body.toList ∧
      outer'.map OpenDefinition.tree = outer.map OpenDefinition.tree := by
  have hframes := h.frames_eq
  rw [hf, List.map_cons, List.map_eq_cons_iff] at hframes
  obtain ⟨frame', outer', hf', htree, houter⟩ := hframes
  obtain ⟨hname, hbody⟩ := Prod.mk.inj htree
  exact ⟨frame', outer', hf', hname, hbody, houter⟩

theorem frames_eq_nil (h : Echoes seen b b') (hf : b.frames = []) : b'.frames = [] := by
  have hframes := h.frames_eq
  rw [hf, List.map_nil, List.map_eq_nil_iff] at hframes
  exact hframes

theorem emit (h : Echoes seen b b') {t : Token} (ht : t.kind ≠ .definitionEnd)
    {i i' : Instruction σ} (hi : i'.unlabelled = i.unlabelled) :
    Echoes (seen ++ [t]) (b.emit i) (b'.emit i') := by
  refine ⟨fun name hdef ↦ ?_, ?_, ?_, ?_, ?_⟩
  · rw [Build.resolve_emit, Build.resolve_emit]
    exact h.resolve_eq name ((defined_concat_of_not_end ht).mp hdef)
  · cases hf : b.frames with
    | nil =>
      rw [Build.emit_of_outside i hf, Build.emit_of_outside i' (h.frames_eq_nil hf)]
      exact h.frames_eq
    | cons frame outer =>
      obtain ⟨frame', outer', hf', hname, hbody, houter⟩ := h.exists_frames hf
      rw [Build.emit_of_inside i hf, Build.emit_of_inside i' hf']
      simp only [List.map_cons, OpenDefinition.tree, Array.toList_push,
        Program.unlabelled_concat, hname, hbody, hi, houter]
  · rw [Build.emit_marker, Build.emit_marker, h.marker_eq]
  · cases hf : b.frames with
    | nil =>
      rw [Build.emit_of_outside i hf, Build.emit_of_outside i' (h.frames_eq_nil hf),
        Array.toList_push, Array.toList_push, Program.unlabelled_concat,
        Program.unlabelled_concat, h.program_eq, hi]
    | cons frame outer =>
      obtain ⟨frame', outer', hf', -⟩ := h.exists_frames hf
      rw [Build.emit_of_inside i hf, Build.emit_of_inside i' hf']
      exact h.program_eq
  · rw [Build.emit_definitions, Build.emit_definitions, h.definitions_eq]

theorem marker (h : Echoes seen b b') {t : Token} (ht : t.kind ≠ .definitionEnd)
    (location : Option Location) :
    Echoes (seen ++ [t]) { b with marker := location } { b' with marker := location } where
  resolve_eq name hdef := h.resolve_eq name ((defined_concat_of_not_end ht).mp hdef)
  frames_eq := h.frames_eq
  marker_eq := rfl
  program_eq := h.program_eq
  definitions_eq := h.definitions_eq

theorem title (h : Echoes seen b b') {t : Token} (ht : t.kind ≠ .definitionEnd) :
    Echoes (seen ++ [t]) { b with marker := none, frames := ⟨t, #[]⟩ :: b.frames }
      { b' with marker := none, frames := ⟨t, #[]⟩ :: b'.frames } where
  resolve_eq name hdef := h.resolve_eq name ((defined_concat_of_not_end ht).mp hdef)
  frames_eq := by rw [List.map_cons, List.map_cons, h.frames_eq]
  marker_eq := rfl
  program_eq := h.program_eq
  definitions_eq := h.definitions_eq

theorem closed (h : Echoes seen b b') {o : DefinitionSite} (ho : o.IsInnermost seen) {t : Token}
    {frame frame' : OpenDefinition σ} {outer outer' : List (OpenDefinition σ)}
    (hfirst : o.name = frame.name) (hname : frame'.name = frame.name)
    (hbody : Program.unlabelled frame'.body.toList = Program.unlabelled frame.body.toList)
    (houter : outer'.map OpenDefinition.tree = outer.map OpenDefinition.tree) :
    Echoes (seen ++ [t]) (b.closed frame outer) (b'.closed frame' outer') := by
  -- both words are the same tree
  have hword : (Operation.word b'.nextLabel frame'.body.toList).unlabelled
      = (Operation.word b.nextLabel frame.body.toList).unlabelled := by
    rw [Operation.unlabelled, Operation.unlabelled, hbody]
  refine ⟨fun name hdef ↦ ?_, houter, h.marker_eq, h.program_eq, ?_⟩
  · rw [Build.resolve_closed, Build.resolve_closed, hname]
    by_cases hn : frame.name.text = name
    · rw [if_pos hn, if_pos hn, Option.map_some, Option.map_some, hword]
    · rw [if_neg hn, if_neg hn]
      rw [← hfirst] at hn
      exact h.resolve_eq name ((defined_concat_of_ne ho hn).mp hdef)
  · rw [Build.closed, Build.closed, Array.toList_push, Array.toList_push, hname,
      unlabelledEntries_concat, unlabelledEntries_concat, h.definitions_eq, hword]

end Echoes

section Agreement

variable {d d' : Dictionary σ} {seen : List Token} {b b' : Build σ}

/-- What a name means in one build it means in the other, by a definition that both have closed or
by the dictionaries. -/
theorem Echoes.exists_resolve (h : Echoes seen b b') (hread : (Build.start d).read seen = .ok b)
    (hread' : (Build.start d').read seen = .ok b') (hm : b.marker = none) {name : String}
    (hname : ¬Defined seen name → d'.tree? name = d.tree? name) {op : Operation σ}
    (hr : b.resolve name = some op) :
    ∃ op', b'.resolve name = some op' ∧ op'.unlabelled = op.unlabelled := by
  have hm' : b'.marker = none := h.marker_eq.trans hm
  have hmeaning : (b'.resolve name).map Operation.unlabelled = some op.unlabelled := by
    by_cases hdef : Defined seen name
    · rw [h.resolve_eq name hdef, hr, Option.map_some]
    · have hother := (Follows.of_read hread hm).other name hdef
      have hother' := (Follows.of_read hread' hm').other name hdef
      have htree := hname hdef
      rw [Dictionary.tree?, Dictionary.tree?, ← hother, hr, Option.map_some] at htree
      rw [hother', htree]
  exact Option.map_eq_some_iff.mp hmeaning

/-- What a program reads as depends on the dictionary through the names that it borrows. -/
theorem exists_echo (hd : d.Labelled) (hd' : d'.Labelled) {tokens : List Token}
    (hread : (Build.start d).read tokens = .ok b)
    (hagree : ∀ name, Borrows tokens name → d'.tree? name = d.tree? name) :
    ∃ b', (Build.start d').read tokens = .ok b' ∧ Echoes tokens b b' := by
  refine Build.read_induction (motive := fun tokens b ↦
    (∀ name, Borrows tokens name → d'.tree? name = d.tree? name) →
      ∃ b', (Build.start d').read tokens = .ok b' ∧ Echoes tokens b b') ?_ ?_ hread hagree
  · exact fun _ ↦ ⟨Build.start d', rfl, .start d d'⟩
  · intro seen t b₁ b₂ hread ih hmove hagree
    obtain ⟨b₁', hread', h⟩ := ih fun name hname ↦ hagree name (hname.concat t)
    -- the other build makes the same move
    have hstep : ∀ {b₂'}, b₁'.Move t b₂' → Echoes (seen ++ [t]) b₂ b₂' →
        ∃ b₂', (Build.start d').read (seen ++ [t]) = .ok b₂' ∧ Echoes (seen ++ [t]) b₂ b₂' :=
      fun hmove' h' ↦ ⟨_, Build.read_concat_eq_ok_iff.mpr ⟨b₁', hread', hmove'.step_eq⟩, h'⟩
    cases hmove with
    | number hm hk =>
      exact hstep (.number (h.marker_eq.trans hm) hk)
        (h.emit (by rw [hk]; exact TokenKind.noConfusion) rfl)
    | @name op hm hk hr =>
      have hborrows : ¬Defined seen t.text → d'.tree? t.text = d.tree? t.text := fun hdef ↦
        hagree t.text ⟨seen, t, [], rfl, hk, rfl, not_awaitsName hread hm, hdef⟩
      obtain ⟨op', hr', hop⟩ := h.exists_resolve hread hread' hm hborrows hr
      refine hstep (.name (h.marker_eq.trans hm) hk hr')
        (h.emit (by rw [hk]; exact TokenKind.noConfusion) ?_)
      rw [Operation.unlabelled_compiled, Operation.unlabelled_compiled, hop]
    | start hm hk =>
      exact hstep (.start (h.marker_eq.trans hm) hk)
        (h.marker (by rw [hk]; exact TokenKind.noConfusion) _)
    | title hm hk =>
      exact hstep (.title (h.marker_eq.trans hm) hk)
        (h.title (by rw [hk]; exact TokenKind.noConfusion))
    | @close frame outer hm hk hf hdepth =>
      obtain ⟨frame', outer', hf', hname, hbody, houter⟩ := h.exists_frames hf
      have hlevels := (Follows.of_read hread hm).levels
      rw [hf] at hlevels
      obtain ⟨o, ho, hfirst, -⟩ := hlevels.exists_isInnermost
      -- the depth of a body is that of its tree
      have hdepth' : (Instruction.measureAll b₁'.depths frame'.body.toList).1
          = (Instruction.measureAll b₁.depths frame.body.toList).1 := by
        rw [(Build.labelled_of_read hd' hread').measureAll_eq (hf' ▸ List.mem_cons_self),
          (Build.labelled_of_read hd hread).measureAll_eq (hf ▸ List.mem_cons_self),
          ← Program.callDepth_unlabelled, hbody, Program.callDepth_unlabelled]
      exact hstep (.close (h.marker_eq.trans hm) hk hf' (by rw [hdepth']; exact hdepth))
        (h.closed ho hfirst hname hbody houter)

/-- What a program compiles to depends on the dictionary through the names that it borrows. -/
theorem compileTokens_congr (hd : d.Labelled) (hd' : d'.Labelled) {tokens : List Token}
    {c : Compiled σ} (hc : compileTokens d tokens = .ok c)
    (hagree : ∀ name, Borrows tokens name → d'.tree? name = d.tree? name) :
    ∃ c', compileTokens d' tokens = .ok c' ∧ c'.unlabelled = c.unlabelled := by
  obtain ⟨b, hread, hm, hf, rfl⟩ := compileTokens_eq_ok_iff.mp hc
  obtain ⟨b', hread', h⟩ := exists_echo hd hd' hread hagree
  refine ⟨_, compileTokens_eq_ok_iff.mpr
    ⟨b', hread', h.marker_eq.trans hm, h.frames_eq_nil hf, rfl⟩, ?_⟩
  rw [Compiled.unlabelled, Compiled.unlabelled, h.program_eq, h.definitions_eq]

end Agreement

/-- A name that is not defined keeps its meaning when the definitions are committed. -/
theorem Dictionary.tree?_commit_of_not_defined {d : Dictionary σ} {tokens : List Token}
    {c : Compiled σ} (hc : compileTokens d tokens = .ok c) {name : String}
    (h : ¬Defined tokens name) : (d.commit c).tree? name = d.tree? name := by
  obtain ⟨b, hread, hm, -, rfl⟩ := compileTokens_eq_ok_iff.mp hc
  rw [tree?, lookup_commit, Build.lookup_defineAll_of_read hread,
    (Follows.of_read hread hm).other name h, tree?]

/-- **Compiling again changes nothing**, labels apart, if no name that a program defines is used
before its first definition has closed: the second time compiles, gives the same program and the
same definitions, and committing them leaves what every name stands for. A program that extends the
meaning a name had before is not of this kind, and it may compile to something else the second
time. -/
theorem compileTokens_again :
    (∀ (d : Dictionary σ) (tokens : List Token) (c : Compiled σ), d.Labelled →
      compileTokens d tokens = .ok c → DefinesFirst tokens →
        ∃ c', compileTokens (d.commit c) tokens = .ok c' ∧ c'.unlabelled = c.unlabelled ∧
          ∀ name, ((d.commit c).commit c').tree? name = (d.commit c).tree? name) ∧
    ∃ (d : Dictionary σ) (tokens : List Token) (c c' : Compiled σ), d.Labelled ∧
      compileTokens d tokens = .ok c ∧ compileTokens (d.commit c) tokens = .ok c' ∧
        c'.unlabelled.definitions ≠ c.unlabelled.definitions := by
  refine ⟨fun d tokens c hd hc hfirst ↦ ?_, ?_⟩
  · obtain ⟨c', hc', htree⟩ := compileTokens_congr hd (hd.commit hc) hc fun name hborrows ↦
      Dictionary.tree?_commit_of_not_defined hc (hfirst.not_defined hborrows)
    refine ⟨c', hc', htree, fun name ↦ ?_⟩
    have hentries : unlabelledEntries c'.definitions = unlabelledEntries c.definitions :=
      congrArg Compiled.definitions htree
    rw [Dictionary.tree?_commit, hentries, Dictionary.tree?_commit, ← Option.or_assoc,
      Option.or_self]
  · have hd : (Dictionary.empty.define "f" (.constant 1) : Dictionary σ).Labelled :=
      Dictionary.labelled_empty.define "f" nofun
    refine ⟨_, tokenize ": f f ;", ⟨[], [("f", .word 0 [.push 1])]⟩,
      ⟨[], [("f", .word 1 [.call "f" 0 [.push 1]])]⟩, hd, by cbv, by cbv, ?_⟩
    simp [Compiled.unlabelled, unlabelledEntries, Operation.unlabelled, Program.unlabelled,
      Instruction.unlabelled]

/-- A word that is redefined over itself, where the first definition stands in the program too. -/
def redefining : List Token :=
  [⟨.definitionStart, ":", ⟨1, 1⟩⟩, ⟨.name, "w", ⟨1, 3⟩⟩, ⟨.definitionEnd, ";", ⟨1, 5⟩⟩,
    ⟨.definitionStart, ":", ⟨1, 7⟩⟩, ⟨.name, "w", ⟨1, 9⟩⟩, ⟨.name, "w", ⟨1, 11⟩⟩,
    ⟨.definitionEnd, ";", ⟨1, 13⟩⟩, ⟨.name, "w", ⟨1, 15⟩⟩]

theorem definesFirst_redefining : DefinesFirst redefining := by
  have hnames : ∀ t ∈ redefining, t.kind = .name → t.text = "w" := by
    simp [redefining]
  intro seen t rest heq hk hw _
  have htext : t.text = "w" := hnames t (heq ▸ List.mem_append_right _ List.mem_cons_self) hk
  match seen, heq with
  | [], heq => cases heq; cases hk
  | [m], heq => cases heq; exact absurd ⟨[], _, rfl, rfl⟩ hw
  | [m, n], heq => cases heq; cases hk
  | m :: n :: e :: more, heq =>
    -- the first definition is closed behind three tokens
    obtain ⟨rfl, rfl, rfl, -⟩ := by simpa [redefining] using heq
    exact ⟨⟨[], _, _, []⟩, _, ⟨⟨rfl, rfl, rfl, .nil⟩, _, more, rfl, rfl⟩, htext.symm⟩

/-- A dictionary in which the name of that word stands for a constant. -/
def constantW : Dictionary Unit := Dictionary.empty.define "w" (.constant 2)

theorem compileTokens_again_redefining :
    constantW.Labelled ∧ tokenize ": w ; : w w ; w" = redefining ∧ DefinesFirst redefining ∧
      ∃ c c', compileTokens constantW redefining = .ok c ∧
        compileTokens (constantW.commit c) redefining = .ok c' ∧ c'.unlabelled = c.unlabelled := by
  have hd : constantW.Labelled := Dictionary.labelled_empty.define "w" nofun
  have hc : compileTokens constantW redefining
      = .ok (⟨[.call "w" 1 [.call "w" 0 []]],
        [("w", .word 0 []), ("w", .word 1 [.call "w" 0 []])]⟩ : Compiled Unit) := by
    cbv
  obtain ⟨c', hc', htree, -⟩ := compileTokens_again.1 _ _ _ hd hc definesFirst_redefining
  exact ⟨hd, by cbv, definesFirst_redefining, _, c', hc, hc', htree⟩

end StackSynth
