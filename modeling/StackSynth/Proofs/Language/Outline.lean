import StackSynth.Proofs.Language.Brackets
import StackSynth.Proofs.Language.Labels

/-!
# The outline of a program

What a program looks like can be read off its tokens: which steps stand outside all definitions,
which definitions there are and in which order they close, which steps stand directly inside them,
and how deeply each nests calls. Nothing of this asks what a name is bound to by a compilation; a
name means the latest definition of it that closed before, and the dictionary where there is none.

## The invariant

While definitions are open, `Levels` cuts the tokens at the open markers. Each piece is balanced and
spells the steps of its frame, and the call depth of these steps is what the names in the piece say
(`Segment`). Together with what the closed definitions have left behind, this is all that a build
knows about the tokens it has read (`Follows`).
-/

namespace StackSynth

variable {σ : Type}

/-! ## The depth of a definition -/

/-- After `seen`, a name means no word that nests calls deeper than `n`, where `atMost` says so of
definitions among the tokens. -/
def NameAtMost (d : Dictionary σ) (atMost : DefinitionSite → Prop) (n : Nat) (seen : List Token)
    (name : String) : Prop :=
  (∀ o : DefinitionSite, o.IsLatest seen name → atMost o) ∧
    (¬Defined seen name → ∀ label body, d.lookup name = some (.word label body) →
      Program.callDepth body + 1 ≤ n)

/-- No name that stands directly inside some tokens means a word that nests calls deeper than
`n`. The tokens follow `before`. -/
def NamesAtMost (d : Dictionary σ) (atMost : DefinitionSite → Prop) (n : Nat)
    (before ts : List Token) : Prop :=
  ∀ p t rest, ts = p ++ t :: rest → Balanced p → t.kind = .name →
    NameAtMost d atMost n (before ++ p) t.text

/-- A definition nests calls no deeper than `n`: its depth is one more than the greatest depth of a
word that a name directly inside it means. -/
def DefinitionSite.DepthAtMost (d : Dictionary σ) : Nat → DefinitionSite → Prop
  | 0, _ => False
  | n + 1, o => NamesAtMost d (DepthAtMost d n) n o.head o.body

section NamesAtMost

variable {d : Dictionary σ} {atMost : DefinitionSite → Prop} {n : Nat} {before : List Token}

theorem namesAtMost_nil : NamesAtMost d atMost n before [] := by
  intro p t rest h
  exact absurd h (nil_ne_append_cons p t rest)

theorem namesAtMost_append {p q : List Token} (hp : Balanced p) :
    NamesAtMost d atMost n before (p ++ q) ↔
      NamesAtMost d atMost n before p ∧ NamesAtMost d atMost n (before ++ p) q := by
  constructor
  · intro h
    refine ⟨fun r t rest heq ↦ h r t (rest ++ q) (by rw [heq, List.append_assoc]; rfl), ?_⟩
    intro r t rest heq hr hk
    rw [List.append_assoc]
    exact h (p ++ r) t rest (by rw [heq, List.append_assoc]) (hp.append hr) hk
  · rintro ⟨h, h'⟩ r t rest heq hr hk
    rcases List.append_eq_append_iff.mp heq with ⟨y, rfl, hy⟩ | ⟨y, rfl, hy⟩
    · have hname := h' y t rest hy (hp.append_iff.mp hr) hk
      rwa [List.append_assoc] at hname
    · cases y with
      | nil =>
        rw [List.append_nil] at h'
        have hname := h' [] t rest (List.nil_append _ ▸ hy.symm) .nil hk
        rwa [List.append_nil] at hname
      | cons z y =>
        obtain ⟨rfl, -⟩ := List.cons.inj hy
        exact h r t y rfl hr hk

theorem namesAtMost_single {t : Token} :
    NamesAtMost d atMost n before [t] ↔
      (t.kind = .name → NameAtMost d atMost n before t.text) := by
  constructor
  · intro h hk
    have hname := h [] t [] rfl .nil hk
    rwa [List.append_nil] at hname
  · intro h p t' rest heq _ hk
    cases p with
    | nil =>
      obtain ⟨rfl, -⟩ := List.cons.inj heq
      rw [List.append_nil]
      exact h hk
    | cons z p =>
      have hnil := (List.cons.inj heq).2
      exact absurd hnil (nil_ne_append_cons p t' rest)

/-- The names inside a definition do not stand directly where it stands. -/
theorem namesAtMost_definition {marker name closing : Token} {body : List Token}
    (hm : marker.kind = .definitionStart) (hn : name.kind = .name) (hbody : Balanced body) :
    NamesAtMost d atMost n before (marker :: name :: (body ++ [closing])) := by
  intro p t rest heq hp hk
  match p, heq with
  | [], heq =>
    obtain ⟨rfl, -⟩ := List.cons.inj heq
    rw [hm] at hk
    cases hk
  | [m], heq =>
    obtain ⟨rfl, -⟩ := List.cons.inj heq
    exact absurd hm (Balanced.getLast_not_start (p := []) hp)
  | m :: x :: p, heq =>
    simp only [List.cons_append, List.cons.injEq] at heq
    obtain ⟨rfl, rfl, heq⟩ := heq
    -- the body is still open behind `p`
    have hprefix : p <+: body := by
      rcases List.append_eq_append_iff.mp heq with ⟨y, rfl, hy⟩ | ⟨y, rfl, -⟩
      · cases y with
        | nil => exact (List.append_nil body).symm ▸ List.prefix_rfl
        | cons z y =>
          have hlen := congrArg List.length hy
          simp at hlen
      · exact List.prefix_append p y
    have h0 := hbody.above p hprefix
    have h1 := hp.level
    rw [nesting_cons, nesting_cons, hm, hn] at h1
    simp only [TokenKind.turn] at h1
    omega

end NamesAtMost

/-! ## Pieces of tokens -/

/-- A step stands for a token: a push for a numeral, and for a name a step under that name. -/
def Spells (t : Token) (i : Instruction σ) : Prop :=
  (∃ value, t.kind = .number value ∧ i = .push value) ∨
    (t.kind = .name ∧ ∃ op : Operation σ, i = op.compiled t.text)

/-- A piece of tokens, behind `before`, and the steps that it compiles to. -/
structure Segment (d : Dictionary σ) (before ts : List Token) (steps : Program σ) : Prop where
  balanced : Balanced ts
  spelled : List.Forall₂ Spells (direct ts) steps
  depth : ∀ n, Program.callDepth steps ≤ n ↔
    NamesAtMost d (DefinitionSite.DepthAtMost d n) n before ts

namespace Segment

variable {d : Dictionary σ} {before ts : List Token} {steps : Program σ}

theorem nil (before : List Token) : Segment d before [] ([] : Program σ) where
  balanced := .nil
  spelled := .nil
  depth n := ⟨fun _ ↦ namesAtMost_nil, fun _ ↦ Nat.zero_le n⟩

/-- A numeral or a name adds a step. -/
theorem concat (h : Segment d before ts steps) {t : Token} {i : Instruction σ} (hs : Spells t i)
    (hd : ∀ n, i.callDepth ≤ n ↔
      (t.kind = .name → NameAtMost d (DefinitionSite.DepthAtMost d n) n (before ++ ts) t.text)) :
    Segment d before (ts ++ [t]) (steps ++ [i]) where
  balanced := by
    refine h.balanced.append (.single ?_)
    rcases hs with ⟨value, hk, -⟩ | ⟨hk, -⟩ <;> rw [hk] <;> rfl
  spelled := by
    have ht : t.kind.turn = 0 := by
      rcases hs with ⟨value, hk, -⟩ | ⟨hk, -⟩ <;> rw [hk] <;> rfl
    rw [direct_concat h.balanced ht]
    exact List.rel_append h.spelled (.cons hs .nil)
  depth n := by
    rw [Program.callDepth_concat, Nat.max_le, h.depth n, hd n,
      namesAtMost_append h.balanced, namesAtMost_single]

/-- A definition adds no step. -/
theorem definition (h : Segment d before ts steps) {marker name closing : Token}
    {body : List Token} (hm : marker.kind = .definitionStart) (hn : name.kind = .name)
    (hc : closing.kind = .definitionEnd) (hbody : Balanced body) :
    Segment d before (ts ++ marker :: name :: (body ++ [closing])) steps where
  balanced := h.balanced.append (.definition hm hn hc hbody)
  spelled := by
    rw [direct_append_definition h.balanced hm hn hc hbody]
    exact h.spelled
  depth n := by
    rw [h.depth n, namesAtMost_append h.balanced]
    exact (and_iff_left (namesAtMost_definition hm hn hbody)).symm

/-- The depth of a definition is the call depth of the word that it becomes. -/
theorem depthAtMost_iff {o : DefinitionSite} {body : Program σ}
    (h : Segment d o.head o.body body) (n : Nat) :
    Program.callDepth body + 1 ≤ n ↔ o.DepthAtMost d n := by
  cases n with
  | zero => exact ⟨fun h ↦ absurd h (Nat.not_succ_le_zero _), False.elim⟩
  | succ n => rw [Nat.succ_le_succ_iff, h.depth n, DefinitionSite.DepthAtMost]

end Segment

/-! ## The cut at open markers -/

/-- Tokens cut at the markers of the definitions that are open, with the steps of each piece. -/
inductive Levels (d : Dictionary σ) : List Token → List (OpenDefinition σ) → Program σ → Prop where
  | outside {ts : List Token} {program : Program σ} (h : Segment d [] ts program) :
      Levels d ts [] program
  | inside {o : DefinitionSite} {body : Array (Instruction σ)} {outer : List (OpenDefinition σ)}
      {program : Program σ} (h : Levels d o.before outer program)
      (hm : o.marker.kind = .definitionStart) (hn : o.name.kind = .name)
      (hbody : Segment d o.head o.body body.toList) :
      Levels d (o.head ++ o.body) (⟨o.name, body⟩ :: outer) program

namespace Levels

variable {d : Dictionary σ} {seen : List Token}

theorem not_isInnermost {program : Program σ} (h : Levels d seen [] program)
    (o : DefinitionSite) : ¬o.IsInnermost seen := by
  cases h with
  | outside h => exact DefinitionSite.not_isInnermost_of_balanced h.balanced

/-- The first frame belongs to the innermost definition that is open. -/
theorem exists_isInnermost {frame : OpenDefinition σ} {outer : List (OpenDefinition σ)}
    {program : Program σ} (h : Levels d seen (frame :: outer) program) :
    ∃ o : DefinitionSite, o.IsInnermost seen ∧ o.name = frame.name ∧
      Segment d o.head o.body frame.body.toList := by
  cases h with
  | @inside o _ _ _ h hm hn hbody => exact ⟨o, ⟨rfl, hm, hn, hbody.balanced⟩, rfl, hbody⟩

/-- A numeral or a name lengthens the last piece and its frame. -/
theorem emit {b : Build σ} (h : Levels d seen b.frames b.program.toList) {t : Token}
    {i : Instruction σ} (hs : Spells t i)
    (hd : ∀ n, i.callDepth ≤ n ↔
      (t.kind = .name → NameAtMost d (DefinitionSite.DepthAtMost d n) n seen t.text)) :
    Levels d (seen ++ [t]) (b.emit i).frames (b.emit i).program.toList := by
  cases hf : b.frames with
  | nil =>
    rw [hf] at h
    rw [Build.emit_of_outside i hf]
    cases h with
    | outside h =>
      simp only [hf, Array.toList_push]
      exact .outside (h.concat hs hd)
  | cons frame outer =>
    rw [hf] at h
    rw [Build.emit_of_inside i hf]
    cases h with
    | @inside o _ _ _ h hm hn hbody =>
      have hbody' := hbody.concat hs hd
      rw [← Array.toList_push] at hbody'
      rw [List.append_assoc]
      exact .inside (o := { o with body := o.body ++ [t] }) h hm hn hbody'

/-- A marker and a name begin a new piece. -/
theorem title {frames : List (OpenDefinition σ)} {program : Program σ}
    (h : Levels d seen frames program) {m t : Token} (hm : m.kind = .definitionStart)
    (ht : t.kind = .name) : Levels d (seen ++ [m, t]) (⟨t, #[]⟩ :: frames) program := by
  have h' := Levels.inside (o := ⟨seen, m, t, []⟩) h hm ht (.nil _)
  rwa [List.append_nil] at h'

/-- A definition that closes becomes part of the piece in which it stands. -/
theorem close {frame : OpenDefinition σ} {outer : List (OpenDefinition σ)} {program : Program σ}
    (h : Levels d seen (frame :: outer) program) {t : Token} (ht : t.kind = .definitionEnd) :
    Levels d (seen ++ [t]) outer program := by
  cases h with
  | @inside o _ _ _ h hm hn hbody =>
    have happ : o.head ++ o.body ++ [t] = o.before ++ o.marker :: o.name :: (o.body ++ [t]) := by
      simp [DefinitionSite.head]
    rw [happ]
    -- the piece in front may be that of another definition or the outermost one
    generalize o.before = before at h
    cases h with
    | outside h => exact .outside (h.definition hm hn ht hbody.balanced)
    | @inside o' _ _ _ h hm' hn' hbody' =>
      rw [List.append_assoc]
      exact .inside (o := { o' with body := o'.body ++ _ }) h hm' hn'
        (hbody'.definition hm hn ht hbody.balanced)

end Levels

/-! ## What closed definitions leave behind -/

/-- The definitions are those that the tokens close, in the order in which they close, with one
step for every numeral or name that stands directly inside. -/
structure Lists (tokens : List Token) (definitions : List (String × Operation σ)) : Prop where
  length_eq : definitions.length = closings tokens
  entry : ∀ upTo t rest, tokens = upTo ++ t :: rest → t.kind = .definitionEnd →
    ∃ (o : DefinitionSite) (label : Nat) (body : Program σ), o.IsInnermost upTo ∧
      definitions[closings upTo]? = some (o.name.text, .word label body) ∧
      List.Forall₂ Spells (direct o.body) body

namespace Lists

theorem nil : Lists [] ([] : List (String × Operation σ)) where
  length_eq := rfl
  entry upTo t rest h := absurd h (nil_ne_append_cons upTo t rest)

variable {seen : List Token} {definitions : List (String × Operation σ)}

theorem concat (h : Lists seen definitions) {t : Token} (ht : t.kind ≠ .definitionEnd) :
    Lists (seen ++ [t]) definitions where
  length_eq := by rw [h.length_eq, closings_concat_of_not_end ht]
  entry upTo t' rest heq hk := by
    rcases concat_eq_append_cons_iff.mp heq with ⟨-, rfl, -⟩ | ⟨rest, rfl, -⟩
    · exact absurd hk ht
    · exact h.entry upTo t' rest rfl hk

theorem close (h : Lists seen definitions) {o : DefinitionSite} (ho : o.IsInnermost seen)
    {t : Token} (ht : t.kind = .definitionEnd) {label : Nat} {body : Program σ}
    (hbody : List.Forall₂ Spells (direct o.body) body) :
    Lists (seen ++ [t]) (definitions ++ [(o.name.text, .word label body)]) where
  length_eq := by
    rw [List.length_append, List.length_singleton, h.length_eq, closings_concat_of_end ht]
  entry upTo t' rest heq hk := by
    rcases concat_eq_append_cons_iff.mp heq with ⟨rfl, -, -⟩ | ⟨rest, rfl, -⟩
    · refine ⟨o, label, body, ho, ?_, hbody⟩
      rw [← h.length_eq, List.getElem?_concat_length]
    · obtain ⟨o', label', body', ho', hget, hbody'⟩ := h.entry upTo t' rest rfl hk
      obtain ⟨hlt, -⟩ := List.getElem?_eq_some_iff.mp hget
      exact ⟨o', label', body', ho', by rw [List.getElem?_append_left hlt, hget], hbody'⟩

end Lists

/-- What a build knows about the tokens it has read. -/
structure Follows (d : Dictionary σ) (seen : List Token) (b : Build σ) : Prop where
  levels : Levels d seen b.frames b.program.toList
  /-- A name that was defined means the word of its latest definition. -/
  latest : ∀ name (o : DefinitionSite), o.IsLatest seen name →
    ∃ label body, b.resolve name = some (.word label body) ∧
      ∀ n, Program.callDepth body + 1 ≤ n ↔ o.DepthAtMost d n
  /-- Any other name means what the dictionary says. -/
  other : ∀ name, ¬Defined seen name → b.resolve name = d.lookup name
  lists : Lists seen b.definitions.toList

namespace Follows

variable {d : Dictionary σ} {seen : List Token} {b : Build σ}

theorem start (d : Dictionary σ) : Follows d [] (Build.start d) where
  levels := .outside (.nil [])
  latest _ _ h := absurd h.defined not_defined_nil
  other name _ := Build.resolve_start d name
  lists := .nil

/-- A name is bound to something when it was defined or has an entry. -/
theorem resolve_eq_none_iff (h : Follows d seen b) (name : String) :
    b.resolve name = none ↔ ¬Defined seen name ∧ d.lookup name = none := by
  by_cases hdef : Defined seen name
  · obtain ⟨o, ho⟩ := hdef.exists_isLatest
    obtain ⟨label, body, hr, -⟩ := h.latest name o ho
    rw [hr]
    exact ⟨fun h ↦ absurd h (Option.some_ne_none _), fun h ↦ absurd hdef h.1⟩
  · rw [h.other name hdef]
    exact ⟨fun h ↦ ⟨hdef, h⟩, And.right⟩

/-- The depth of a call is the depth of what the name means. -/
theorem callDepth_le_iff (h : Follows d seen b) {name : String} {op : Operation σ}
    (hr : b.resolve name = some op) (n : Nat) :
    (op.compiled name).callDepth ≤ n ↔
      NameAtMost d (DefinitionSite.DepthAtMost d n) n seen name := by
  by_cases hdef : Defined seen name
  · obtain ⟨o, ho⟩ := hdef.exists_isLatest
    obtain ⟨label, body, hr', hdepth⟩ := h.latest name o ho
    rw [hr] at hr'
    cases hr'
    refine (hdepth n).trans ⟨fun ho' ↦ ⟨fun o' h' ↦ ?_, fun hn ↦ absurd hdef hn⟩, fun h ↦ h.1 o ho⟩
    rwa [h'.unique ho]
  · rw [h.other name hdef] at hr
    have hnone : ∀ o : DefinitionSite, ¬o.IsLatest seen name := fun o ho ↦ hdef ho.defined
    cases op with
    | native | constant =>
      refine ⟨fun _ ↦ ⟨fun o ho ↦ absurd ho (hnone o), fun _ label body hl ↦ ?_⟩,
        fun _ ↦ Nat.zero_le n⟩
      rw [hr] at hl
      cases hl
    | word label body =>
      refine ⟨fun hle ↦ ⟨fun o ho ↦ absurd ho (hnone o), fun _ label body hl ↦ ?_⟩,
        fun h ↦ h.2 hdef label body hr⟩
      rw [hr] at hl
      cases hl
      exact hle

theorem emit (h : Follows d seen b) {t : Token} (ht : t.kind ≠ .definitionEnd)
    {i : Instruction σ} (hs : Spells t i)
    (hd : ∀ n, i.callDepth ≤ n ↔
      (t.kind = .name → NameAtMost d (DefinitionSite.DepthAtMost d n) n seen t.text)) :
    Follows d (seen ++ [t]) (b.emit i) where
  levels := h.levels.emit hs hd
  latest name o ho := by
    rw [Build.resolve_emit]
    exact h.latest name o ((isLatest_concat_of_not_end ht).mp ho)
  other name hdef := by
    rw [Build.resolve_emit]
    exact h.other name fun h ↦ hdef ((defined_concat_of_not_end ht).mpr h)
  lists := by
    rw [Build.emit_definitions]
    exact h.lists.concat ht

theorem title (h : Follows d seen b) {m t : Token} (hm : m.kind = .definitionStart)
    (ht : t.kind = .name) :
    Follows d (seen ++ [m, t]) { b with marker := none, frames := ⟨t, #[]⟩ :: b.frames } := by
  have hm' : m.kind ≠ .definitionEnd := by rw [hm]; exact TokenKind.noConfusion
  have ht' : t.kind ≠ .definitionEnd := by rw [ht]; exact TokenKind.noConfusion
  have happ : seen ++ [m, t] = seen ++ [m] ++ [t] := by rw [List.append_assoc]; rfl
  refine ⟨h.levels.title hm ht, fun name o ho ↦ ?_, fun name hdef ↦ ?_, ?_⟩
  · rw [happ, isLatest_concat_of_not_end ht', isLatest_concat_of_not_end hm'] at ho
    exact h.latest name o ho
  · rw [happ, defined_concat_of_not_end ht', defined_concat_of_not_end hm'] at hdef
    exact h.other name hdef
  · rw [happ]
    exact (h.lists.concat hm').concat ht'

theorem close (h : Follows d seen b) {frame : OpenDefinition σ}
    {outer : List (OpenDefinition σ)} (hf : b.frames = frame :: outer) {t : Token}
    (ht : t.kind = .definitionEnd) : Follows d (seen ++ [t]) (b.closed frame outer) := by
  have hlevels := h.levels
  rw [hf] at hlevels
  obtain ⟨o, ho, hname, hbody⟩ := hlevels.exists_isInnermost
  refine ⟨hlevels.close ht, fun name o' ho' ↦ ?_, fun name hdef ↦ ?_, ?_⟩
  · rw [Build.resolve_closed, ← hname]
    by_cases hn : o.name.text = name
    · subst hn
      rw [if_pos rfl, ho'.unique (isLatest_concat_self ht ho)]
      exact ⟨_, _, rfl, hbody.depthAtMost_iff⟩
    · -- a latest definition of another name was there before
      obtain ⟨o'', ho''⟩ := ((defined_concat_of_ne ho hn).mp ho'.defined).exists_isLatest
      rw [if_neg hn, ho'.unique (isLatest_concat_of_ne ho hn ho'')]
      exact h.latest name o'' ho''
  · rw [Build.resolve_closed, ← hname]
    have hn : o.name.text ≠ name := by
      rintro rfl
      exact hdef (isLatest_concat_self ht ho).defined
    rw [if_neg hn]
    exact h.other name fun h ↦ hdef ((defined_concat_of_ne ho hn).mpr h)
  · rw [Build.closed, Array.toList_push, ← hname]
    exact h.lists.close ho ht hbody.spelled

/-- A build that waits for no name follows the tokens it has read. -/
theorem of_read {d : Dictionary σ} {tokens : List Token} {b : Build σ}
    (h : (Build.start d).read tokens = .ok b) (hm : b.marker = none) : Follows d tokens b := by
  refine Build.settled_induction (motive := Follows d) rfl (start d) ?number ?name ?title ?close
    h hm
  case number =>
    intro seen t value b _ ih hk
    have hname : t.kind ≠ .name := by rw [hk]; exact TokenKind.noConfusion
    refine ih.emit (by rw [hk]; exact TokenKind.noConfusion) (Or.inl ⟨value, hk, rfl⟩) fun n ↦ ?_
    exact ⟨fun _ h ↦ absurd h hname, fun _ ↦ Nat.zero_le n⟩
  case name =>
    intro seen t op b _ ih hk hr
    refine ih.emit (by rw [hk]; exact TokenKind.noConfusion) (Or.inr ⟨hk, op, rfl⟩) fun n ↦ ?_
    rw [ih.callDepth_le_iff hr n]
    exact ⟨fun h _ ↦ h, fun h ↦ h hk⟩
  case title =>
    intro seen m t b _ ih hm ht
    exact ih.title hm ht
  case close =>
    intro seen t frame outer b _ ih ht hf _
    exact ih.close hf ht

end Follows

end StackSynth
