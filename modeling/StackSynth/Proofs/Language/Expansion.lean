import StackSynth.Proofs.Language.Brackets
import StackSynth.Proofs.Language.Moves
import StackSynth.Proofs.Machine.Activations

/-!
# What a program expands to

A compiled program calls words, and a word runs by running its body in place. The same effect can be
had without words at all: replace every name by the steps it stands for, down to pushes and natives,
and run the flat list that comes out from left to right. `Expands` says which list that is, by the
tokens alone: a numeral is one push, a name is what it is bound to at that point, and a definition
binds its name and leaves nothing where it stands.

Compiling preserves this meaning (`run_eq_expansion`): the compiled program and the flat list have
the same result, leave the same bench, fault at the same step under the same name, and go through
the same natives, each on the same bench as its counterpart.

## The invariant

While definitions are open the tokens read so far are no expansion of anything yet. `Unfolds` cuts
them at the open markers: each piece expands to the steps collected in its frame, in the scope that
the piece before it has left. Closing a definition joins the last two pieces into one, so the cut
follows the list of frames exactly.
-/

namespace StackSynth

variable {σ : Type}

/-! ## Primitive steps -/

/-- A step that runs no body. The name is the one that a fault blames. -/
inductive Primitive (σ : Type) where
  /-- Push a value. -/
  | push (name : String) (value : Float)
  /-- Run a native. -/
  | native (name : String) (act : Native σ)

namespace Primitive

/-- Runs one step. -/
def run : Primitive σ → RunM σ Unit
  | .push name value => blame name (Native.push value)
  | .native name act => blame name act

/-- Runs steps from left to right. -/
def runAll : List (Primitive σ) → RunM σ Unit
  | [] => pure ()
  | s :: rest => do
    s.run
    runAll rest

/-- The steps that a run gets to, each with the bench it found. The last of them is the one that
faults, if any does. -/
def visits : List (Primitive σ) → Bench σ → List (Primitive σ × Bench σ)
  | [], _ => []
  | s :: rest, bench =>
    (s, bench) :: match s.run bench with
      | (.ok (), bench) => visits rest bench
      | (.error _, _) => []

theorem runAll_append (p q : List (Primitive σ)) :
    runAll (p ++ q) = (do runAll p; runAll q) := by
  induction p with
  | nil => rw [List.nil_append, runAll, pure_bind]
  | cons s rest ih => rw [List.cons_append, runAll, ih, runAll, bind_assoc]

theorem runAll_singleton (s : Primitive σ) : runAll [s] = s.run := by
  rw [runAll, runAll, bind_pure]

theorem visits_singleton (s : Primitive σ) (bench : Bench σ) : visits [s] bench = [(s, bench)] := by
  rw [visits]
  split <;> rfl

theorem visits_append (p q : List (Primitive σ)) (bench : Bench σ) :
    visits (p ++ q) bench = visits p bench ++ match runAll p bench with
      | (.ok (), bench) => visits q bench
      | (.error _, _) => [] := by
  induction p generalizing bench with
  | nil => rfl
  | cons s rest ih =>
    rw [List.cons_append, visits, visits, runAll, RunM.bind_apply]
    cases h : s.run bench with
    | mk result bench =>
      cases result with
      | ok => simp only [ih, List.cons_append]
      | error e => rfl

end Primitive

/-! ## Programs as lists of primitive steps -/

mutual

/-- The primitive steps that a compiled step comes down to. -/
def Instruction.expand : Instruction σ → List (Primitive σ)
  | .push value => [.push literalWord value]
  | .native name act => [.native name act]
  | .call _ _ body => Program.expand body
  | .constant name value => [.push name value]

/-- The primitive steps that a program comes down to. -/
def Program.expand : List (Instruction σ) → List (Primitive σ)
  | [] => []
  | i :: is => i.expand ++ Program.expand is

end

mutual

/-- The primitive steps that a run of a compiled step gets to, each with the bench it found. -/
def Instruction.visits : Instruction σ → Bench σ → List (Primitive σ × Bench σ)
  | .push value, bench => [(.push literalWord value, bench)]
  | .native name act, bench => [(.native name act, bench)]
  | .call _ _ body, bench => Program.visits body bench
  | .constant name value, bench => [(.push name value, bench)]

/-- The primitive steps that a run of a program gets to, each with the bench it found. -/
def Program.visits : List (Instruction σ) → Bench σ → List (Primitive σ × Bench σ)
  | [], _ => []
  | i :: is, bench =>
    i.visits bench ++ match i.run bench with
      | (.ok (), bench) => Program.visits is bench
      | (.error _, _) => []

end

@[simp] theorem Program.expand_append (p q : Program σ) :
    Program.expand (p ++ q) = Program.expand p ++ Program.expand q := by
  induction p with
  | nil => rfl
  | cons i is ih => rw [List.cons_append, expand, ih, expand, List.append_assoc]

theorem Program.expand_singleton (i : Instruction σ) : Program.expand [i] = i.expand := by
  rw [expand, expand, List.append_nil]

/-- Running the bodies of called words in place is running the flat list. -/
theorem Program.run_eq_runAll (p : Program σ) :
    Program.run p = Primitive.runAll (Program.expand p) := by
  induction p using Program.induction with
  | nil => rfl
  | push value is ih | native _ act is ih | constant _ value is ih =>
    rw [run, expand, Primitive.runAll_append, ← ih, Instruction.expand, Primitive.runAll_singleton,
      Instruction.run, Primitive.run]
  | call name label body is ihBody ih =>
    rw [run, expand, Primitive.runAll_append, ← ih, Instruction.expand, ← ihBody, Instruction.run]

theorem Instruction.run_eq_runAll (i : Instruction σ) :
    i.run = Primitive.runAll i.expand := by
  rw [← Program.expand_singleton, ← Program.run_eq_runAll, Program.run, Program.run]
  exact (bind_pure i.run).symm

/-- A run gets to the steps of the flat list, in their order and on the same benches. -/
theorem Program.visits_eq_visits (p : Program σ) (bench : Bench σ) :
    Program.visits p bench = Primitive.visits (Program.expand p) bench := by
  induction p using Program.induction generalizing bench with
  | nil => rfl
  | push _ is ih | native _ _ is ih | constant _ _ is ih =>
    rw [visits, expand, Primitive.visits_append, ← Instruction.run_eq_runAll, Instruction.visits,
      Instruction.expand, Primitive.visits_singleton]
    simp only [ih]
  | call name label body is ihBody ih =>
    rw [visits, expand, Primitive.visits_append, ← Instruction.run_eq_runAll, Instruction.visits,
      Instruction.expand, ihBody]
    simp only [ih]

/-! ## Expanding tokens -/

/-- What an operation of a dictionary expands to under a name. -/
def Operation.expand (name : String) : Operation σ → List (Primitive σ)
  | .native act => [.native name act]
  | .word _ body => Program.expand body
  | .constant value => [.push literalWord value]

/-- What names are bound to by definitions that have closed, the latest first. -/
abbrev Scope (σ : Type) := List (String × List (Primitive σ))

/-- What a name expands to: the latest definition counts, and the dictionary only where there is
none. -/
def Scope.meaning? (d : Dictionary σ) (scope : Scope σ) (name : String) :
    Option (List (Primitive σ)) :=
  scope.lookup name <|> (d.lookup name).map (Operation.expand name)

/-- Against a dictionary and a scope, tokens expand to primitive steps and leave a scope. -/
inductive Expands (d : Dictionary σ) :
    Scope σ → List Token → Scope σ → List (Primitive σ) → Prop where
  | nil (scope : Scope σ) : Expands d scope [] scope []
  /-- A numeral is one push. -/
  | number {scope scope' : Scope σ} {t : Token} {value : Float} {ts : List Token}
      {steps : List (Primitive σ)} (hk : t.kind = .number value)
      (h : Expands d scope ts scope' steps) :
      Expands d scope (t :: ts) scope' (.push literalWord value :: steps)
  /-- A name is what it is bound to. -/
  | name {scope scope' : Scope σ} {t : Token} {ts : List Token} {flat steps : List (Primitive σ)}
      (hk : t.kind = .name) (hflat : Scope.meaning? d scope t.text = some flat)
      (h : Expands d scope ts scope' steps) : Expands d scope (t :: ts) scope' (flat ++ steps)
  /-- A definition binds its name to the expansion of its body. -/
  | definition {scope inner scope' : Scope σ} {marker name closing : Token} {body ts : List Token}
      {flat steps : List (Primitive σ)} (hm : marker.kind = .definitionStart)
      (hn : name.kind = .name) (hc : closing.kind = .definitionEnd)
      (hbody : Expands d scope body inner flat)
      (h : Expands d ((name.text, flat) :: inner) ts scope' steps) :
      Expands d scope (marker :: name :: (body ++ closing :: ts)) scope' steps

namespace Expands

variable {d : Dictionary σ}

theorem append {scope scope' scope'' : Scope σ} {p q : List Token} {x y : List (Primitive σ)}
    (hp : Expands d scope p scope' x) (hq : Expands d scope' q scope'' y) :
    Expands d scope (p ++ q) scope'' (x ++ y) := by
  induction hp with
  | nil => exact hq
  | number hk _ ih => exact .number hk (ih hq)
  | name hk hflat _ ih =>
    rw [List.append_assoc]
    exact .name hk hflat (ih hq)
  | definition hm hn hc hbody _ _ ih =>
    rw [List.cons_append, List.cons_append, List.append_assoc, List.cons_append]
    exact .definition hm hn hc hbody (ih hq)

theorem balanced {scope scope' : Scope σ} {ts : List Token} {steps : List (Primitive σ)}
    (h : Expands d scope ts scope' steps) : Balanced ts := by
  induction h with
  | nil => exact .nil
  | number hk _ ih => exact (Balanced.single (by rw [hk]; rfl)).append ih
  | name hk _ _ ih => exact (Balanced.single (by rw [hk]; rfl)).append ih
  | definition hm hn hc _ _ ihBody ih =>
    have h := (Balanced.definition hm hn hc ihBody).append ih
    rwa [List.cons_append, List.cons_append, List.append_assoc] at h

theorem of_number {scope scope' : Scope σ} {t : Token} {ts : List Token} {value : Float}
    {steps : List (Primitive σ)} (h : Expands d scope (t :: ts) scope' steps)
    (hk : t.kind = .number value) :
    ∃ rest, steps = .push literalWord value :: rest ∧ Expands d scope ts scope' rest := by
  cases h with
  | number hk' h =>
    rw [hk] at hk'
    cases hk'
    exact ⟨_, rfl, h⟩
  | name hk' | definition hk' => rw [hk] at hk'; cases hk'

theorem of_name {scope scope' : Scope σ} {t : Token} {ts : List Token}
    {steps : List (Primitive σ)} (h : Expands d scope (t :: ts) scope' steps)
    (hk : t.kind = .name) :
    ∃ flat rest, Scope.meaning? d scope t.text = some flat ∧ steps = flat ++ rest ∧
      Expands d scope ts scope' rest := by
  cases h with
  | number hk' | definition hk' => rw [hk] at hk'; cases hk'
  | name _ hflat h => exact ⟨_, _, hflat, rfl, h⟩

/-- The marker that closes a definition is the first one behind a balanced body. -/
theorem of_definition {scope scope' : Scope σ} {marker name closing : Token}
    {body ts : List Token} {steps : List (Primitive σ)}
    (h : Expands d scope (marker :: name :: (body ++ closing :: ts)) scope' steps)
    (hm : marker.kind = .definitionStart) (hc : closing.kind = .definitionEnd)
    (hbody : Balanced body) :
    ∃ inner flat, Expands d scope body inner flat ∧
      Expands d ((name.text, flat) :: inner) ts scope' steps := by
  generalize hl : marker :: name :: (body ++ closing :: ts) = l at h
  cases h with
  | nil => cases hl
  | number hk | name hk => cases hl; rw [hm] at hk; cases hk
  | definition _ _ hc' hbody' h =>
    simp only [List.cons.injEq] at hl
    obtain ⟨rfl, rfl, hl⟩ := hl
    obtain ⟨rfl, rfl, rfl⟩ := hbody.append_cons_inj hbody'.balanced hc hc' hl
    exact ⟨_, _, hbody', h⟩

/-- Tokens have one expansion. -/
theorem unique {scope scope' scope'' : Scope σ} {ts : List Token} {x y : List (Primitive σ)}
    (h : Expands d scope ts scope' x) (h' : Expands d scope ts scope'' y) :
    scope' = scope'' ∧ x = y := by
  induction h generalizing scope'' y with
  | nil =>
    cases h'
    exact ⟨rfl, rfl⟩
  | number hk _ ih =>
    obtain ⟨rest, rfl, hrest⟩ := h'.of_number hk
    obtain ⟨rfl, rfl⟩ := ih hrest
    exact ⟨rfl, rfl⟩
  | name hk hflat _ ih =>
    obtain ⟨flat', rest, hflat', rfl, hrest⟩ := h'.of_name hk
    obtain ⟨rfl, rfl⟩ := ih hrest
    rw [hflat] at hflat'
    cases hflat'
    exact ⟨rfl, rfl⟩
  | definition hm _ hc hbody _ ihBody ih =>
    obtain ⟨inner, flat, hbody', hrest⟩ := h'.of_definition hm hc hbody.balanced
    obtain ⟨rfl, rfl⟩ := ihBody hbody'
    exact ih hrest

end Expands

/-! ## The cut at open markers -/

/-- Tokens cut at the markers of the definitions that are open. Each piece expands to the steps of
its frame, in the scope that the piece before it has left; `scope` is what the last piece leaves. -/
inductive Unfolds (d : Dictionary σ) :
    List Token → Scope σ → List (OpenDefinition σ) → Program σ → Prop where
  | outside {ts : List Token} {scope : Scope σ} {program : Program σ}
      (h : Expands d [] ts scope (Program.expand program)) : Unfolds d ts scope [] program
  | inside {seen ts : List Token} {scope inner : Scope σ} {marker name : Token}
      {body : Array (Instruction σ)} {outer : List (OpenDefinition σ)} {program : Program σ}
      (h : Unfolds d seen scope outer program) (hm : marker.kind = .definitionStart)
      (hn : name.kind = .name) (hts : Expands d scope ts inner (Program.expand body.toList)) :
      Unfolds d (seen ++ marker :: name :: ts) inner (⟨name, body⟩ :: outer) program

namespace Unfolds

variable {d : Dictionary σ} {seen : List Token} {scope : Scope σ}

/-- Tokens that leave no steps lengthen the last piece. -/
theorem append {frames : List (OpenDefinition σ)} {program : Program σ}
    (h : Unfolds d seen scope frames program) {ts : List Token} {scope' : Scope σ}
    (hts : Expands d scope ts scope' []) : Unfolds d (seen ++ ts) scope' frames program := by
  cases h with
  | outside h =>
    refine .outside ?_
    have h' := h.append hts
    rwa [List.append_nil] at h'
  | inside h hm hn hbody =>
    rw [List.append_assoc, List.cons_append, List.cons_append]
    refine .inside h hm hn ?_
    have h' := hbody.append hts
    rwa [List.append_nil] at h'

/-- A token that expands to an emitted step lengthens the last piece and its frame. -/
theorem emit {b : Build σ} (h : Unfolds d seen scope b.frames b.program.toList) {t : Token}
    {i : Instruction σ} (ht : Expands d scope [t] scope i.expand) :
    Unfolds d (seen ++ [t]) scope (b.emit i).frames (b.emit i).program.toList := by
  cases hf : b.frames with
  | nil =>
    rw [hf] at h
    rw [Build.emit_of_outside i hf]
    cases h with
    | outside h =>
      simp only [hf, Array.toList_push]
      refine .outside ?_
      rw [Program.expand_append, Program.expand_singleton]
      exact h.append ht
  | cons frame outer =>
    rw [hf] at h
    rw [Build.emit_of_inside i hf]
    cases h with
    | inside h hm hn hbody =>
      rw [List.append_assoc, List.cons_append, List.cons_append]
      refine .inside h hm hn ?_
      rw [Array.toList_push, Program.expand_append, Program.expand_singleton]
      exact hbody.append ht

/-- A marker and a name begin a new piece. -/
theorem title {frames : List (OpenDefinition σ)} {program : Program σ}
    (h : Unfolds d seen scope frames program) {m t : Token} (hm : m.kind = .definitionStart)
    (ht : t.kind = .name) : Unfolds d (seen ++ [m, t]) scope (⟨t, #[]⟩ :: frames) program :=
  .inside h hm ht (.nil scope)

/-- Closing a definition joins the last two pieces and binds its name. -/
theorem close {frame : OpenDefinition σ} {outer : List (OpenDefinition σ)} {program : Program σ}
    (h : Unfolds d seen scope (frame :: outer) program) {t : Token}
    (ht : t.kind = .definitionEnd) :
    Unfolds d (seen ++ [t])
      ((frame.name.text, Program.expand frame.body.toList) :: scope) outer program := by
  cases h with
  | inside h hm hn hbody =>
    rw [List.append_assoc, List.cons_append, List.cons_append]
    exact h.append (.definition hm hn ht hbody (.nil _))

end Unfolds

/-! ## Compiling preserves meaning -/

theorem Operation.expand_compiled (op : Operation σ) (name : String) :
    (op.compiled name).expand = op.expand name := by
  cases op <;> rfl

theorem Scope.meaning?_cons (d : Dictionary σ) (scope : Scope σ) (name name' : String)
    (flat : List (Primitive σ)) :
    Scope.meaning? d ((name, flat) :: scope) name'
      = if name = name' then some flat else Scope.meaning? d scope name' := by
  rw [meaning?, List.lookup_cons, meaning?]
  by_cases h : name = name'
  · rw [if_pos h, beq_iff_eq.mpr h.symm]
    rfl
  · rw [if_neg h, beq_eq_false_iff_ne.mpr (Ne.symm h)]

/-- The tokens that a build has read unfold along its frames, and its names expand to what they
mean. -/
theorem exists_unfolds {d : Dictionary σ} {tokens : List Token} {b : Build σ}
    (h : (Build.start d).read tokens = .ok b) (hm : b.marker = none) :
    ∃ scope, Unfolds d tokens scope b.frames b.program.toList ∧
      ∀ name, (b.resolve name).map (Operation.expand name) = Scope.meaning? d scope name := by
  refine Build.settled_induction (motive := fun tokens b ↦
    ∃ scope, Unfolds d tokens scope b.frames b.program.toList ∧
      ∀ name, (b.resolve name).map (Operation.expand name) = Scope.meaning? d scope name)
    rfl ?start ?number ?name ?title ?close h hm
  case start =>
    refine ⟨[], .outside (.nil []), fun name ↦ ?_⟩
    rw [Build.resolve_start, Scope.meaning?, List.lookup_nil]
    rfl
  case number =>
    rintro seen t value b - ⟨scope, hun, hnames⟩ hk
    refine ⟨scope, hun.emit (.number hk (.nil scope)), fun name ↦ ?_⟩
    rw [Build.resolve_emit, hnames]
  case name =>
    rintro seen t op b - ⟨scope, hun, hnames⟩ hk hr
    have hflat : Scope.meaning? d scope t.text = some (op.expand t.text) := by
      rw [← hnames, hr, Option.map_some]
    refine ⟨scope, hun.emit ?_, fun name ↦ ?_⟩
    · rw [Operation.expand_compiled, ← List.append_nil (op.expand t.text)]
      exact .name hk hflat (.nil scope)
    · rw [Build.resolve_emit, hnames]
  case title =>
    rintro seen m t b - ⟨scope, hun, hnames⟩ hm ht
    exact ⟨scope, hun.title hm ht, hnames⟩
  case close =>
    -- the name is bound behind the definition, not inside
    rintro seen t frame outer b - ⟨scope, hun, hnames⟩ ht hf -
    rw [hf] at hun
    refine ⟨_, hun.close ht, fun name ↦ ?_⟩
    rw [Build.resolve_closed, Scope.meaning?_cons, ← hnames]
    split <;> rfl

/-- **Compiling preserves meaning.** Running a compiled program on any bench gives the result and
leaves the bench that the expansion of its tokens gives and leaves, by way of the same steps on the
same benches; and tokens that compile have exactly one expansion. -/
theorem run_eq_expansion {d : Dictionary σ} {tokens : List Token} {c : Compiled σ}
    (h : compileTokens d tokens = .ok c) :
    ∃ scope steps, Expands d [] tokens scope steps ∧
      (∀ scope' steps', Expands d [] tokens scope' steps' → steps' = steps) ∧
      ∀ bench : Bench σ,
        Machine.run ⟨bench, some c.program⟩
          = ((Primitive.runAll steps bench).1, ⟨(Primitive.runAll steps bench).2, some c.program⟩) ∧
        Program.visits c.program bench = Primitive.visits steps bench := by
  obtain ⟨b, hread, hm, hf, rfl⟩ := compileTokens_eq_ok_iff.mp h
  obtain ⟨scope, hun, -⟩ := exists_unfolds hread hm
  rw [hf] at hun
  cases hun with
  | outside hex =>
    refine ⟨scope, _, hex, fun _ _ h' ↦ (h'.unique hex).2, fun bench ↦ ⟨?_, ?_⟩⟩
    · rw [Machine.run, Program.run_eq_runAll]
      rfl
    · exact Program.visits_eq_visits _ bench

/-- A dictionary with a native and a constant. -/
def rootAndTwo : Dictionary Unit :=
  (Dictionary.empty.define "x" (.native (Native.unary Float.sqrt))).define "k" (.constant 2)

/-- A word defined over the native of its own name keeps what the name stood for. -/
theorem run_eq_expansion_shadowing :
    ∃ c scope steps, compileTokens rootAndTwo (tokenize "x : x x k ; x") = .ok c ∧
      Expands rootAndTwo [] (tokenize "x : x x k ; x") scope steps ∧
      ∀ bench, Machine.run ⟨bench, some c.program⟩ = ((Primitive.runAll steps bench).1,
        ⟨(Primitive.runAll steps bench).2, some c.program⟩) := by
  have h : ∃ c, compileTokens rootAndTwo (tokenize "x : x x k ; x") = .ok c := by
    rw [rootAndTwo]
    -- what the native does is of no account
    generalize Native.unary Float.sqrt = root
    refine ⟨⟨[.native "x" root, .call "x" 0 [.native "x" root, .push 2]],
      [("x", .word 0 [.native "x" root, .push 2])]⟩, ?_⟩
    cbv
  obtain ⟨c, h⟩ := h
  obtain ⟨scope, steps, hexpands, -, hrun⟩ := run_eq_expansion h
  exact ⟨c, scope, steps, h, hexpands, fun bench ↦ (hrun bench).1⟩

end StackSynth
