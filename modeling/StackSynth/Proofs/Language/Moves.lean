import Mathlib.Data.List.Basic
import Mathlib.Data.List.Induction
import StackSynth.Language.Build

/-!
# The moves of a build

`Build.step` either refuses a token or makes one of five moves: it adds a step for a numeral or for
a name, remembers a marker, opens a definition under its name, or closes one. `Build.Move` lists
them with the conditions under which they are made, and `Build.step_eq_ok_iff` says that there are
no others. What holds before a compilation and is kept by every move holds after it.

## Reading

A compilation is `Build.read` from `Build.start` followed by `Build.finish`. Reading goes on where
it stopped (`Build.read_append`), so what holds after some tokens can be proved by adding one token
at the end (`Build.read_induction`). Between a marker and the name behind it a build waits and says
nothing of interest, so most inductions skip these places (`Build.settled_induction`). An error is
the refusal of the token behind the longest readable part (`Build.read_eq_error_iff`).
-/

namespace StackSynth

variable {σ : Type}

/-! ## Results -/

theorem Except.bind_eq_ok_iff {ε α β : Type} {x : Except ε α} {f : α → Except ε β} {b : β} :
    x >>= f = .ok b ↔ ∃ a, x = .ok a ∧ f a = .ok b := by
  cases x with
  | error e =>
    constructor
    · intro h; cases h
    · rintro ⟨a, h, -⟩; cases h
  | ok a =>
    constructor
    · intro h; exact ⟨a, rfl, h⟩
    · rintro ⟨a', h, hf⟩; cases h; exact hf

theorem Except.bind_eq_error_iff {ε α β : Type} {x : Except ε α} {f : α → Except ε β} {e : ε} :
    x >>= f = .error e ↔ x = .error e ∨ ∃ a, x = .ok a ∧ f a = .error e := by
  cases x with
  | error e' =>
    constructor
    · intro h; cases h; exact Or.inl rfl
    · rintro (h | ⟨a, h, -⟩)
      · cases h; rfl
      · cases h
  | ok a =>
    constructor
    · intro h; exact Or.inr ⟨a, rfl, h⟩
    · rintro (h | ⟨a', h, hf⟩)
      · cases h
      · cases h; exact hf

/-! ## Entries of a dictionary -/

namespace Dictionary

theorem lookup_define (d : Dictionary σ) (name : String) (op : Operation σ) (name' : String) :
    (d.define name op).lookup name' = if name = name' then some op else d.lookup name' := by
  rw [lookup, define, Std.HashMap.getElem?_insert]
  by_cases h : name = name' <;> simp [h, lookup]

theorem defineAll_concat (d : Dictionary σ) (entries : List (String × Operation σ))
    (name : String) (op : Operation σ) :
    d.defineAll (entries ++ [(name, op)]) = (d.defineAll entries).define name op := by
  rw [defineAll, List.foldl_append, List.foldl_cons, List.foldl_nil, defineAll]

theorem lookup_commit (d : Dictionary σ) (c : Compiled σ) (name : String) :
    (d.commit c).lookup name = (d.defineAll c.definitions).lookup name := rfl

theorem fresh_commit (d : Dictionary σ) (c : Compiled σ) :
    (d.commit c).fresh = d.fresh + c.definitions.length := rfl

end Dictionary

namespace Build

/-! ## Emitting -/

section Emit

variable (b : Build σ) (i : Instruction σ)

@[simp] theorem emit_dictionary : (b.emit i).dictionary = b.dictionary := by
  rw [emit]; split <;> rfl

@[simp] theorem emit_staged : (b.emit i).staged = b.staged := by
  rw [emit]; split <;> rfl

@[simp] theorem emit_definitions : (b.emit i).definitions = b.definitions := by
  rw [emit]; split <;> rfl

@[simp] theorem emit_depths : (b.emit i).depths = b.depths := by
  rw [emit]; split <;> rfl

@[simp] theorem emit_marker : (b.emit i).marker = b.marker := by
  rw [emit]; split <;> rfl

@[simp] theorem resolve_emit (name : String) : (b.emit i).resolve name = b.resolve name := by
  rw [resolve, resolve, emit_staged, emit_dictionary]

variable {b}

theorem emit_of_outside (h : b.frames = []) :
    b.emit i = { b with program := b.program.push i } := by
  rw [emit, h]

theorem emit_of_inside {frame : OpenDefinition σ} {outer : List (OpenDefinition σ)}
    (h : b.frames = frame :: outer) :
    b.emit i = { b with frames := { frame with body := frame.body.push i } :: outer } := by
  rw [emit, h]

end Emit

/-! ## Closing -/

/-- The label that the next definition gets. -/
def nextLabel (b : Build σ) : Nat := b.dictionary.fresh + b.definitions.size

/-- The build with a definition closed and staged, and only the definitions `outer` open. -/
def closed (b : Build σ) (frame : OpenDefinition σ) (outer : List (OpenDefinition σ)) : Build σ :=
  { b with
    frames := outer
    staged := b.staged.insert frame.name.text (.word b.nextLabel frame.body.toList)
    definitions :=
      b.definitions.push (frame.name.text, .word b.nextLabel frame.body.toList)
    depths := (Instruction.measureAll b.depths frame.body.toList).2.insert b.nextLabel
      ((Instruction.measureAll b.depths frame.body.toList).1 + 1) }

theorem close_eq (b : Build σ) (frame : OpenDefinition σ) (outer : List (OpenDefinition σ)) :
    close { b with frames := outer } frame
      = if maxCallDepth < (Instruction.measureAll b.depths frame.body.toList).1 + 1 then
          .error (.callDepthExceeded frame.name.text maxCallDepth frame.name.location)
        else .ok (b.closed frame outer) := rfl

theorem resolve_closed (b : Build σ) (frame : OpenDefinition σ)
    (outer : List (OpenDefinition σ)) (name : String) :
    (b.closed frame outer).resolve name
      = if frame.name.text = name then some (.word b.nextLabel frame.body.toList)
        else b.resolve name := by
  rw [resolve, closed, Std.HashMap.getElem?_insert]
  by_cases h : frame.name.text = name <;> simp [h, resolve]

theorem nextLabel_closed (b : Build σ) (frame : OpenDefinition σ)
    (outer : List (OpenDefinition σ)) : (b.closed frame outer).nextLabel = b.nextLabel + 1 := by
  rw [nextLabel, closed, Array.size_push, ← Nat.add_assoc, nextLabel]

/-! ## Steps -/

section Step

variable {b : Build σ} {t : Token}

theorem step_of_marker {location : Location} (hm : b.marker = some location) :
    b.step t = b.stepName t := by
  rw [step, hm, Option.isSome_some, if_pos rfl]

theorem step_number {value : Float} (hm : b.marker = none) (hk : t.kind = .number value) :
    b.step t = .ok (b.emit (.push value)) := by
  rw [step, hm, Option.isSome_none, if_neg Bool.false_ne_true, hk]

theorem step_name_of_some {op : Operation σ} (hm : b.marker = none) (hk : t.kind = .name)
    (h : b.resolve t.text = some op) : b.step t = .ok (b.emit (op.compiled t.text)) := by
  rw [step, hm, Option.isSome_none, if_neg Bool.false_ne_true, hk]
  simp only [h]

theorem step_name_of_none (hm : b.marker = none) (hk : t.kind = .name)
    (h : b.resolve t.text = none) : b.step t = .error (.unresolvedWord t.text t.location) := by
  rw [step, hm, Option.isSome_none, if_neg Bool.false_ne_true, hk]
  simp only [h]

theorem step_start (hm : b.marker = none) (hk : t.kind = .definitionStart) :
    b.step t = .ok { b with marker := some t.location } := by
  rw [step, hm, Option.isSome_none, if_neg Bool.false_ne_true, hk]

theorem step_end_of_outside (hm : b.marker = none) (hk : t.kind = .definitionEnd)
    (hf : b.frames = []) : b.step t = .error (.unexpectedDefinitionEnd t.location) := by
  rw [step, hm, Option.isSome_none, if_neg Bool.false_ne_true, hk]
  simp only [hf]

theorem step_end_of_inside {frame : OpenDefinition σ} {outer : List (OpenDefinition σ)}
    (hm : b.marker = none) (hk : t.kind = .definitionEnd) (hf : b.frames = frame :: outer) :
    b.step t
      = if maxCallDepth < (Instruction.measureAll b.depths frame.body.toList).1 + 1 then
          .error (.callDepthExceeded frame.name.text maxCallDepth frame.name.location)
        else .ok (b.closed frame outer) := by
  rw [← close_eq, step, hm, Option.isSome_none, if_neg Bool.false_ne_true, hk]
  simp only [hf]

end Step

/-- What a build does with a token that it does not refuse. -/
inductive Move : Build σ → Token → Build σ → Prop where
  /-- A numeral becomes a push. -/
  | number {b : Build σ} {t : Token} {value : Float} (hm : b.marker = none)
      (hk : t.kind = .number value) : Move b t (b.emit (.push value))
  /-- A name becomes a step bound to what the name stands for. -/
  | name {b : Build σ} {t : Token} {op : Operation σ} (hm : b.marker = none)
      (hk : t.kind = .name) (h : b.resolve t.text = some op) :
      Move b t (b.emit (op.compiled t.text))
  /-- A marker waits for a name. -/
  | start {b : Build σ} {t : Token} (hm : b.marker = none) (hk : t.kind = .definitionStart) :
      Move b t { b with marker := some t.location }
  /-- The name behind a marker opens a definition. -/
  | title {b : Build σ} {t : Token} {location : Location} (hm : b.marker = some location)
      (hk : t.kind = .name) : Move b t { b with marker := none, frames := ⟨t, #[]⟩ :: b.frames }
  /-- The innermost definition closes. -/
  | close {b : Build σ} {t : Token} {frame : OpenDefinition σ} {outer : List (OpenDefinition σ)}
      (hm : b.marker = none) (hk : t.kind = .definitionEnd) (hf : b.frames = frame :: outer)
      (hd : (Instruction.measureAll b.depths frame.body.toList).1 + 1 ≤ maxCallDepth) :
      Move b t (b.closed frame outer)

theorem Move.step_eq {b b' : Build σ} {t : Token} (h : Move b t b') : b.step t = .ok b' := by
  cases h with
  | number hm hk => exact step_number hm hk
  | name hm hk h => exact step_name_of_some hm hk h
  | start hm hk => exact step_start hm hk
  | title hm hk => rw [step_of_marker hm, stepName, hk]
  | close hm hk hf hd => rw [step_end_of_inside hm hk hf, if_neg (Nat.not_lt.mpr hd)]

theorem move_of_step {b b' : Build σ} {t : Token} (h : b.step t = .ok b') : Move b t b' := by
  cases hm : b.marker with
  | some location =>
    rw [step_of_marker hm, stepName] at h
    cases hk : t.kind with
    | name =>
      rw [hk] at h
      cases h
      exact .title hm hk
    | number _ | definitionStart | definitionEnd => rw [hk] at h; cases h
  | none =>
    cases hk : t.kind with
    | number value =>
      rw [step_number hm hk] at h
      cases h
      exact .number hm hk
    | name =>
      cases hr : b.resolve t.text with
      | none => rw [step_name_of_none hm hk hr] at h; cases h
      | some op =>
        rw [step_name_of_some hm hk hr] at h
        cases h
        exact .name hm hk hr
    | definitionStart =>
      rw [step_start hm hk] at h
      cases h
      exact .start hm hk
    | definitionEnd =>
      cases hf : b.frames with
      | nil => rw [step_end_of_outside hm hk hf] at h; cases h
      | cons frame outer =>
        rw [step_end_of_inside hm hk hf] at h
        split at h
        next => cases h
        next hd =>
          cases h
          exact .close hm hk hf (Nat.not_lt.mp hd)

/-- The five moves are all there are. -/
theorem step_eq_ok_iff {b b' : Build σ} {t : Token} : b.step t = .ok b' ↔ Move b t b' :=
  ⟨move_of_step, Move.step_eq⟩

/-! ## Reading -/

/-- A build that has read nothing. -/
def start (d : Dictionary σ) : Build σ := { dictionary := d }

theorem resolve_start (d : Dictionary σ) (name : String) :
    (start d).resolve name = d.lookup name := by
  rw [resolve, start, Std.HashMap.getElem?_empty]
  rfl

/-- Reads tokens, one after another. -/
def read (b : Build σ) (tokens : List Token) : Except CompileError (Build σ) :=
  tokens.foldlM step b

theorem read_nil (b : Build σ) : b.read [] = .ok b := rfl

theorem read_cons (b : Build σ) (t : Token) (tokens : List Token) :
    b.read (t :: tokens) = b.step t >>= fun b' ↦ b'.read tokens := by
  rw [read, List.foldlM_cons]
  rfl

theorem read_append (b : Build σ) (p q : List Token) :
    b.read (p ++ q) = b.read p >>= fun b' ↦ b'.read q := by
  rw [read, List.foldlM_append]
  rfl

theorem read_concat_eq_ok_iff {b b' : Build σ} {tokens : List Token} {t : Token} :
    b.read (tokens ++ [t]) = .ok b' ↔ ∃ b₁, b.read tokens = .ok b₁ ∧ b₁.step t = .ok b' := by
  rw [read_append, Except.bind_eq_ok_iff]
  simp only [read_cons, Except.bind_eq_ok_iff, read_nil, Except.ok.injEq, exists_eq_right]

/-- What holds at the start and is kept by every move holds after every reading. -/
theorem read_induction {motive : List Token → Build σ → Prop} {b₀ : Build σ}
    (start : motive [] b₀)
    (move : ∀ seen t b b', b₀.read seen = .ok b → motive seen b → Move b t b' →
      motive (seen ++ [t]) b')
    {tokens : List Token} {b : Build σ} (h : b₀.read tokens = .ok b) : motive tokens b := by
  induction tokens using List.reverseRecOn generalizing b with
  | nil =>
    cases h
    exact start
  | append_singleton seen t ih =>
    obtain ⟨b₁, h₁, hstep⟩ := read_concat_eq_ok_iff.mp h
    exact move seen t b₁ b h₁ (ih h₁) (move_of_step hstep)

/-- A marker is only ever seen waiting right behind the tokens that were read before it. -/
theorem read_of_marker {b₀ b : Build σ} {tokens : List Token} {location : Location}
    (h₀ : b₀.marker = none) (h : b₀.read tokens = .ok b) (hm : b.marker = some location) :
    ∃ seen m b', tokens = seen ++ [m] ∧ m.kind = .definitionStart ∧ b₀.read seen = .ok b' ∧
      b'.marker = none ∧ b = { b' with marker := some m.location } := by
  rcases List.eq_nil_or_concat' tokens with rfl | ⟨seen, m, rfl⟩
  · cases h
    rw [h₀] at hm
    cases hm
  · obtain ⟨b', hb', hstep⟩ := read_concat_eq_ok_iff.mp h
    cases move_of_step hstep with
    | number hm' | name hm' => rw [emit_marker, hm'] at hm; cases hm
    | start hm' hk => exact ⟨seen, m, b', rfl, hk, hb', hm', rfl⟩
    | title => cases hm
    | close hm' =>
      change b'.marker = some location at hm
      rw [hm'] at hm
      cases hm

/-- Induction over readings after which no marker waits. A marker and the name behind it make one
move. -/
theorem settled_induction {motive : List Token → Build σ → Prop} {b₀ : Build σ}
    (h₀ : b₀.marker = none) (start : motive [] b₀)
    (number : ∀ seen t value b, b₀.read seen = .ok b → motive seen b →
      t.kind = .number value → motive (seen ++ [t]) (b.emit (.push value)))
    (name : ∀ seen t op b, b₀.read seen = .ok b → motive seen b → t.kind = .name →
      b.resolve t.text = some op → motive (seen ++ [t]) (b.emit (op.compiled t.text)))
    (title : ∀ seen m t b, b₀.read seen = .ok b → motive seen b →
      m.kind = .definitionStart → t.kind = .name →
      motive (seen ++ [m, t]) { b with marker := none, frames := ⟨t, #[]⟩ :: b.frames })
    (close : ∀ seen t frame outer b, b₀.read seen = .ok b → motive seen b →
      t.kind = .definitionEnd → b.frames = frame :: outer →
      (Instruction.measureAll b.depths frame.body.toList).1 + 1 ≤ maxCallDepth →
      motive (seen ++ [t]) (b.closed frame outer))
    {tokens : List Token} {b : Build σ} (h : b₀.read tokens = .ok b) (hm : b.marker = none) :
    motive tokens b := by
  -- a build with a waiting marker vouches for the build before the marker
  have key : ∀ {tokens b}, b₀.read tokens = .ok b →
      (b.marker = none → motive tokens b) ∧
      ∀ seen m b', tokens = seen ++ [m] → b = { b' with marker := some m.location } →
        b₀.read seen = .ok b' → b'.marker = none → motive seen b' := by
    intro tokens b h
    refine read_induction (motive := fun tokens b ↦ (b.marker = none → motive tokens b) ∧
      ∀ seen m b', tokens = seen ++ [m] → b = { b' with marker := some m.location } →
        b₀.read seen = .ok b' → b'.marker = none → motive seen b') ?_ ?_ h
    · refine ⟨fun _ ↦ start, fun seen m b' hnil ↦ ?_⟩
      cases seen <;> cases hnil
    · intro seen t b b' hread ih hmove
      refine ⟨fun hb' ↦ ?_, fun seen' m b'' happ _ hread' hb'' ↦ ?_⟩
      · cases hmove with
        | number hm hk => exact number seen t _ b hread (ih.1 hm) hk
        | name hm hk hr => exact name seen t _ b hread (ih.1 hm) hk hr
        | start hm hk => cases hb'
        | title hm hk =>
          obtain ⟨before, m, b₁, rfl, hmk, hb₁, hm₁, rfl⟩ := read_of_marker h₀ hread hm
          have hbefore := ih.2 before m b₁ rfl rfl hb₁ hm₁
          rw [List.append_assoc]
          exact title before m t b₁ hb₁ hbefore hmk hk
        | close hm hk hf hd => exact close seen t _ _ b hread (ih.1 hm) hk hf hd
      · obtain ⟨rfl, -⟩ := List.append_inj' happ rfl
        rw [hread] at hread'
        cases hread'
        exact ih.1 hb''
  exact (key h).1 hm

/-- A reading fails at the first token that is refused. -/
theorem read_eq_error_iff {b : Build σ} {tokens : List Token} {e : CompileError} :
    b.read tokens = .error e ↔ ∃ seen t rest b', tokens = seen ++ t :: rest ∧
      b.read seen = .ok b' ∧ b'.step t = .error e := by
  constructor
  · intro h
    induction tokens generalizing b with
    | nil => cases h
    | cons t tokens ih =>
      rw [read_cons, Except.bind_eq_error_iff] at h
      rcases h with h | ⟨b₁, h₁, h⟩
      · exact ⟨[], t, tokens, b, rfl, rfl, h⟩
      · obtain ⟨seen, t', rest, b', rfl, hseen, hstep⟩ := ih h
        refine ⟨t :: seen, t', rest, b', rfl, ?_, hstep⟩
        rw [read_cons, h₁]
        exact hseen
  · rintro ⟨seen, t, rest, b', rfl, hseen, hstep⟩
    rw [read_append, hseen]
    change b'.read (t :: rest) = .error e
    rw [read_cons, hstep]
    rfl

/-! ## Finishing -/

theorem finish_eq_ok_iff {b : Build σ} {c : Compiled σ} :
    b.finish = .ok c ↔
      b.marker = none ∧ b.frames = [] ∧ c = ⟨b.program.toList, b.definitions.toList⟩ := by
  rw [finish]
  cases hm : b.marker with
  | some location =>
    constructor
    · intro h; cases h
    · rintro ⟨h, -, -⟩; cases h
  | none =>
    cases hf : b.frames with
    | cons frame outer =>
      constructor
      · intro h; cases h
      · rintro ⟨-, h, -⟩; cases h
    | nil =>
      constructor
      · intro h; exact ⟨rfl, rfl, (Except.ok.inj h).symm⟩
      · rintro ⟨-, -, rfl⟩; rfl

theorem compileTokens_eq (d : Dictionary σ) (tokens : List Token) :
    compileTokens d tokens = (Build.start d).read tokens >>= finish := rfl

end Build

theorem compileTokens_eq_ok_iff {d : Dictionary σ} {tokens : List Token} {c : Compiled σ} :
    compileTokens d tokens = .ok c ↔ ∃ b, (Build.start d).read tokens = .ok b ∧
      b.marker = none ∧ b.frames = [] ∧ c = ⟨b.program.toList, b.definitions.toList⟩ := by
  rw [Build.compileTokens_eq, Except.bind_eq_ok_iff]
  simp only [Build.finish_eq_ok_iff]

/-- Names of natives compile to these natives. -/
theorem compileTokens_natives {d : Dictionary σ} (words : List (String × Location × Native σ))
    (h : ∀ word ∈ words, d.lookup word.1 = some (.native word.2.2)) :
    compileTokens d (words.map fun word ↦ ⟨.name, word.1, word.2.1⟩)
      = .ok ⟨words.map fun word ↦ .native word.1 word.2.2, []⟩ := by
  -- the steps come behind those of any program so far
  have hread : ∀ program : Array (Instruction σ),
      Build.read { Build.start d with program } (words.map fun word ↦ ⟨.name, word.1, word.2.1⟩)
        = .ok { Build.start d with
            program := program
              ++ (words.map fun word ↦ Instruction.native word.1 word.2.2).toArray } := by
    induction words with
    | nil =>
      intro program
      rw [List.map_nil, List.map_nil, Array.append_empty]
      rfl
    | cons word words ih =>
      intro program
      rw [List.forall_mem_cons] at h
      have hresolve : Build.resolve { Build.start d with program } word.1
          = some (.native word.2.2) := (Build.resolve_start d word.1).trans h.1
      have hstep := Build.step_name_of_some (t := ⟨.name, word.1, word.2.1⟩) rfl rfl hresolve
      have hrest := ih h.2 (program.push (.native word.1 word.2.2))
      rw [List.map_cons, Build.read_cons, hstep, Build.emit_of_outside _ rfl]
      refine hrest.trans ?_
      rw [List.map_cons, List.push_append_toArray]
  rw [compileTokens_eq_ok_iff]
  refine ⟨_, hread #[], rfl, rfl, ?_⟩
  rw [Array.empty_append]
  rfl

end StackSynth
