import Mathlib.Algebra.BigOperators.Group.List.Basic
import Mathlib.Algebra.Order.Group.Int
import Mathlib.Algebra.Ring.Int.Defs
import Mathlib.Data.List.Basic
import Mathlib.Data.List.Induction
import StackSynth.Language.Token

/-!
# Definitions as brackets

The markers of a token sequence are its brackets. `nesting` counts how many more definitions some
tokens open than they close, and tokens are balanced when they close all that they open and never
more than that.

Which definition a closing marker closes, and which name stands for which definition, can be said
with balanced sequences alone, without following a compilation: a definition is open after some
tokens and the innermost one if everything behind its name is balanced. Both ends of a definition
determine the other: a balanced body is fixed by where it begins (`Balanced.append_cons_inj`) and
by where it ends (`DefinitionSite.IsInnermost.unique`).
-/

namespace StackSynth

/-! ## Places -/

/-- There is no place in front of a token where there are no tokens. -/
theorem nil_ne_append_cons (p : List Token) (t : Token) (rest : List Token) :
    [] ≠ p ++ t :: rest :=
  (List.append_ne_nil_of_right_ne_nil p (List.cons_ne_nil t rest)).symm

/-- A token more makes a place in front of it, and the other places were there before. -/
theorem concat_eq_append_cons_iff {seen p rest : List Token} {t t' : Token} :
    seen ++ [t] = p ++ t' :: rest ↔
      (p = seen ∧ t' = t ∧ rest = []) ∨ ∃ rest', seen = p ++ t' :: rest' ∧ rest = rest' ++ [t] := by
  constructor
  · intro heq
    rcases List.eq_nil_or_concat' rest with rfl | ⟨rest', t'', rfl⟩
    · obtain ⟨rfl, ht⟩ := List.append_inj' heq rfl
      exact Or.inl ⟨rfl, (List.singleton_inj.mp ht).symm, rfl⟩
    · rw [← List.cons_append, ← List.append_assoc] at heq
      obtain ⟨rfl, ht⟩ := List.append_inj' heq rfl
      exact Or.inr ⟨rest', rfl, by rw [List.singleton_inj.mp ht]⟩
  · rintro (⟨rfl, rfl, rfl⟩ | ⟨rest', rfl, rfl⟩)
    · rfl
    · rw [List.append_assoc, List.cons_append]

/-! ## Nesting -/

/-- By how much a token of a kind changes the nesting. -/
def TokenKind.turn : TokenKind → Int
  | .definitionStart => 1
  | .definitionEnd => -1
  | .number _ | .name => 0

/-- How many more definitions some tokens open than they close. -/
def nesting (ts : List Token) : Int := (ts.map fun t ↦ t.kind.turn).sum

@[simp] theorem nesting_nil : nesting [] = 0 := rfl

@[simp] theorem nesting_cons (t : Token) (ts : List Token) :
    nesting (t :: ts) = t.kind.turn + nesting ts := by
  rw [nesting, List.map_cons, List.sum_cons, nesting]

@[simp] theorem nesting_append (p q : List Token) :
    nesting (p ++ q) = nesting p + nesting q := by
  rw [nesting, List.map_append, List.sum_append, nesting, nesting]

/-- Tokens that close every definition they open and no other. -/
structure Balanced (ts : List Token) : Prop where
  /-- As many definitions are closed as are opened. -/
  level : nesting ts = 0
  /-- None is closed before it is opened. -/
  above : ∀ p, p <+: ts → 0 ≤ nesting p

namespace Balanced

theorem nil : Balanced [] where
  level := rfl
  above p hp := by rw [List.prefix_nil.mp hp, nesting_nil]

theorem single {t : Token} (h : t.kind.turn = 0) : Balanced [t] where
  level := by rw [nesting_cons, h, nesting_nil, zero_add]
  above p hp := by
    rcases List.prefix_cons_iff.mp hp with rfl | ⟨q, rfl, hq⟩
    · rw [nesting_nil]
    · rw [List.prefix_nil.mp hq, nesting_cons, h, nesting_nil, zero_add]

theorem append {p q : List Token} (hp : Balanced p) (hq : Balanced q) : Balanced (p ++ q) where
  level := by rw [nesting_append, hp.level, hq.level, zero_add]
  above r hr := by
    rcases List.prefix_or_prefix_of_prefix hr (List.prefix_append p q) with h | ⟨s, rfl⟩
    · exact hp.above r h
    · rw [nesting_append, hp.level, zero_add]
      exact hq.above s ((List.prefix_append_right_inj p).mp hr)

theorem append_iff {p q : List Token} (hp : Balanced p) : Balanced (p ++ q) ↔ Balanced q := by
  refine ⟨fun h ↦ ⟨?_, fun r hr ↦ ?_⟩, hp.append⟩
  · have hlevel := h.level
    rwa [nesting_append, hp.level, zero_add] at hlevel
  · have habove := h.above (p ++ r) ((List.prefix_append_right_inj p).mpr hr)
    rwa [nesting_append, hp.level, zero_add] at habove

/-- A definition is balanced if its body is. -/
theorem definition {marker name closing : Token} {body : List Token}
    (hm : marker.kind = .definitionStart) (hn : name.kind = .name)
    (hc : closing.kind = .definitionEnd) (hb : Balanced body) :
    Balanced (marker :: name :: (body ++ [closing])) where
  level := by
    rw [nesting_cons, nesting_cons, nesting_append, hb.level, nesting_cons, hm, hn, hc]
    rfl
  above p hp := by
    rcases List.prefix_cons_iff.mp hp with rfl | ⟨q, rfl, hq⟩
    · rw [nesting_nil]
    rcases List.prefix_cons_iff.mp hq with rfl | ⟨r, rfl, hr⟩
    · rw [nesting_cons, hm]
      decide
    rw [nesting_cons, nesting_cons, hm, hn]
    rcases List.prefix_or_prefix_of_prefix hr (List.prefix_append body [closing]) with h | ⟨s, rfl⟩
    · have h0 := hb.above r h
      simp only [TokenKind.turn]
      omega
    · rcases List.prefix_cons_iff.mp ((List.prefix_append_right_inj body).mp hr) with
        rfl | ⟨s, rfl, hs⟩
      · rw [List.append_nil, hb.level]
        decide
      · rw [List.prefix_nil.mp hs, nesting_append, hb.level, nesting_cons, hc]
        decide

/-- Balanced tokens never end in a marker that opens a definition. -/
theorem getLast_not_start {p : List Token} {t : Token} (h : Balanced (p ++ [t])) :
    t.kind ≠ .definitionStart := by
  intro ht
  have h0 := h.above p (List.prefix_append p [t])
  have h1 := h.level
  rw [nesting_append, nesting_cons, nesting_nil, ht] at h1
  simp only [TokenKind.turn] at h1
  omega

/-- A balanced sequence in front of a closing marker is fixed by where it begins. -/
theorem append_cons_inj {p p' q q' : List Token} {c c' : Token} (hp : Balanced p)
    (hp' : Balanced p') (hc : c.kind = .definitionEnd) (hc' : c'.kind = .definitionEnd)
    (h : p ++ c :: q = p' ++ c' :: q') : p = p' ∧ c = c' ∧ q = q' := by
  -- the longer of the two would begin with the shorter and a marker that closes too much
  have key : ∀ {r r' s s' : List Token} {x x' : Token}, Balanced r → Balanced r' →
      x.kind = .definitionEnd → r ++ x :: s = r' ++ x' :: s' → ∀ y, r' = r ++ y → y = [] := by
    rintro r r' s s' x x' hr hr' hx heq y rfl
    cases y with
    | nil => rfl
    | cons z y =>
      rw [List.append_assoc, List.append_cancel_left_eq, List.cons_append] at heq
      obtain ⟨rfl, -⟩ := List.cons.inj heq
      have h0 := hr'.above (r ++ [x]) ⟨y, by simp⟩
      rw [nesting_append, hr.level, nesting_cons, hx] at h0
      simp [TokenKind.turn] at h0
  have hpp : p = p' := by
    rcases List.append_eq_append_iff.mp h with ⟨y, hy, -⟩ | ⟨y, hy, -⟩
    · rw [hy, key hp hp' hc h y hy, List.append_nil]
    · rw [hy, key hp' hp hc' h.symm y hy, List.append_nil]
  subst hpp
  rw [List.append_cancel_left_eq] at h
  exact ⟨rfl, List.cons.inj h⟩

end Balanced

/-! ## Open definitions -/

/-- A place where a definition is open. -/
structure DefinitionSite where
  /-- The tokens before its marker. -/
  before : List Token
  /-- Its marker. -/
  marker : Token
  /-- Its name. -/
  name : Token
  /-- The tokens behind its name. -/
  body : List Token

namespace DefinitionSite

/-- The tokens up to and including the name. -/
def head (o : DefinitionSite) : List Token := o.before ++ [o.marker, o.name]

/-- After `seen`, the definition is the innermost one that is open. -/
structure IsInnermost (o : DefinitionSite) (seen : List Token) : Prop where
  seen_eq : seen = o.head ++ o.body
  marker_kind : o.marker.kind = .definitionStart
  name_kind : o.name.kind = .name
  balanced : Balanced o.body

/-- Of two open definitions with balanced bodies neither begins behind the other: the body of the
earlier one would hold the marker and the body of the later one. -/
theorem IsInnermost.eq_nil_of_before_eq {o o' : DefinitionSite} {seen y : List Token}
    (h : o.IsInnermost seen) (h' : o'.IsInnermost seen) (hy : o'.before = o.before ++ y) :
    y = [] := by
  have heq := h.seen_eq.symm.trans h'.seen_eq
  rw [head, head, hy] at heq
  simp only [List.append_assoc, List.append_cancel_left_eq, List.cons_append,
    List.nil_append] at heq
  match y, heq with
  | [], _ => rfl
  | [z], heq =>
    -- the later marker would be the name of the earlier definition
    obtain ⟨-, hname, -⟩ := by simpa using heq
    have hk := h.name_kind
    rw [hname, h'.marker_kind] at hk
    cases hk
  | z :: w :: y, heq =>
    obtain ⟨-, -, hbody⟩ := by simpa using heq
    have h0 := h.balanced.above y ⟨o'.marker :: o'.name :: o'.body, hbody.symm⟩
    have h1 := h.balanced.level
    rw [hbody, nesting_append, nesting_cons, nesting_cons, h'.marker_kind, h'.name_kind,
      h'.balanced.level] at h1
    simp only [TokenKind.turn] at h1
    omega

/-- A balanced sequence behind the name of a definition is fixed by where it ends. -/
theorem IsInnermost.unique {o o' : DefinitionSite} {seen : List Token} (h : o.IsInnermost seen)
    (h' : o'.IsInnermost seen) : o = o' := by
  have heq := h.seen_eq.symm.trans h'.seen_eq
  have hbefore : o.before = o'.before := by
    rw [head, head, List.append_assoc, List.append_assoc] at heq
    rcases List.append_eq_append_iff.mp heq with ⟨y, hy, -⟩ | ⟨y, hy, -⟩
    · rw [hy, h.eq_nil_of_before_eq h' hy, List.append_nil]
    · rw [hy, h'.eq_nil_of_before_eq h hy, List.append_nil]
  obtain ⟨b, m, n, ts⟩ := o
  obtain ⟨b', m', n', ts'⟩ := o'
  simp only at hbefore
  subst hbefore
  simpa [head] using heq

/-- Behind an open definition and its balanced body no marker waits for a name. -/
theorem IsInnermost.getLast_not_start {o : DefinitionSite} {seen : List Token} {t : Token}
    (h : o.IsInnermost (seen ++ [t])) : t.kind ≠ .definitionStart := by
  have heq := h.seen_eq
  rcases List.eq_nil_or_concat' o.body with hbody | ⟨body, t', hbody⟩
  · replace heq : seen ++ [t] = o.before ++ [o.marker] ++ [o.name] := by
      rw [heq, hbody, List.append_nil, head, List.append_assoc, List.singleton_append]
    obtain ⟨-, ht⟩ := List.append_inj' heq rfl
    rw [List.singleton_inj.mp ht, h.name_kind]
    intro hk
    cases hk
  · rw [hbody, ← List.append_assoc] at heq
    obtain ⟨-, ht⟩ := List.append_inj' heq rfl
    rw [List.singleton_inj.mp ht]
    have hb := h.balanced
    rw [hbody] at hb
    exact hb.getLast_not_start

/-- In balanced tokens every definition is closed. -/
theorem not_isInnermost_of_balanced {o : DefinitionSite} {seen : List Token}
    (h : Balanced seen) : ¬o.IsInnermost seen := by
  intro ho
  have hlevel := h.level
  have habove := h.above o.before ⟨[o.marker, o.name] ++ o.body, by
    rw [← List.append_assoc]
    exact ho.seen_eq.symm⟩
  rw [ho.seen_eq, head, nesting_append, nesting_append, nesting_cons, nesting_cons, nesting_nil,
    ho.marker_kind, ho.name_kind, ho.balanced.level] at hlevel
  simp only [TokenKind.turn] at hlevel
  omega

/-! ## Closed definitions -/

/-- In `seen`, the marker behind `upTo` closes the definition. -/
def ClosedAt (o : DefinitionSite) (seen upTo : List Token) : Prop :=
  o.IsInnermost upTo ∧ ∃ t rest, seen = upTo ++ t :: rest ∧ t.kind = .definitionEnd

theorem not_closedAt_nil {o : DefinitionSite} {upTo : List Token} : ¬o.ClosedAt [] upTo := by
  rintro ⟨-, t, rest, h, -⟩
  exact nil_ne_append_cons upTo t rest h

theorem ClosedAt.length_lt {o : DefinitionSite} {seen upTo : List Token}
    (h : o.ClosedAt seen upTo) : upTo.length < seen.length := by
  obtain ⟨-, t, rest, rfl, -⟩ := h
  rw [List.length_append, List.length_cons]
  omega

theorem closedAt_concat_iff {o : DefinitionSite} {seen upTo : List Token} {t : Token} :
    o.ClosedAt (seen ++ [t]) upTo ↔
      o.ClosedAt seen upTo ∨ (upTo = seen ∧ t.kind = .definitionEnd ∧ o.IsInnermost seen) := by
  constructor
  · rintro ⟨ho, t', rest, heq, hk⟩
    rcases concat_eq_append_cons_iff.mp heq with ⟨rfl, rfl, rfl⟩ | ⟨rest, rfl, rfl⟩
    · exact Or.inr ⟨rfl, hk, ho⟩
    · exact Or.inl ⟨ho, t', rest, rfl, hk⟩
  · rintro (⟨ho, t', rest, rfl, hk⟩ | ⟨rfl, hk, ho⟩)
    · exact ⟨ho, t', rest ++ [t], by rw [List.append_assoc, List.cons_append], hk⟩
    · exact ⟨ho, t, [], rfl, hk⟩

theorem closedAt_concat_of_not_end {o : DefinitionSite} {seen upTo : List Token} {t : Token}
    (ht : t.kind ≠ .definitionEnd) :
    o.ClosedAt (seen ++ [t]) upTo ↔ o.ClosedAt seen upTo := by
  rw [closedAt_concat_iff]
  exact ⟨fun h ↦ h.elim id fun h ↦ absurd h.2.1 ht, Or.inl⟩

/-- Of the definitions of `name` that are closed in `seen`, the one that closes last. -/
def IsLatest (o : DefinitionSite) (seen : List Token) (name : String) : Prop :=
  ∃ upTo, o.ClosedAt seen upTo ∧ o.name.text = name ∧
    ∀ (o' : DefinitionSite) upTo', o'.ClosedAt seen upTo' → o'.name.text = name →
      upTo'.length ≤ upTo.length

theorem IsLatest.unique {o o' : DefinitionSite} {seen : List Token} {name : String}
    (h : o.IsLatest seen name) (h' : o'.IsLatest seen name) : o = o' := by
  obtain ⟨upTo, hclosed, hname, hlast⟩ := h
  obtain ⟨upTo', hclosed', hname', hlast'⟩ := h'
  have hlen : upTo.length = upTo'.length :=
    Nat.le_antisymm (hlast' o upTo hclosed hname) (hlast o' upTo' hclosed' hname')
  obtain ⟨ho, t, rest, rfl, -⟩ := hclosed
  obtain ⟨ho', t', rest', heq, -⟩ := hclosed'
  obtain ⟨rfl, -⟩ := List.append_inj heq hlen
  exact ho.unique ho'

end DefinitionSite

/-- A definition of `name` is closed in `seen`. -/
def Defined (seen : List Token) (name : String) : Prop :=
  ∃ (o : DefinitionSite) (upTo : List Token), o.ClosedAt seen upTo ∧ o.name.text = name

theorem DefinitionSite.IsLatest.defined {o : DefinitionSite} {seen : List Token} {name : String}
    (h : o.IsLatest seen name) : Defined seen name := by
  obtain ⟨upTo, hclosed, hname, -⟩ := h
  exact ⟨o, upTo, hclosed, hname⟩

theorem not_defined_nil {name : String} : ¬Defined [] name := by
  rintro ⟨o, upTo, h, -⟩
  exact DefinitionSite.not_closedAt_nil h

section Concat

variable {seen : List Token} {t : Token} {name : String}

theorem defined_concat_of_not_end (ht : t.kind ≠ .definitionEnd) :
    Defined (seen ++ [t]) name ↔ Defined seen name := by
  simp only [Defined, DefinitionSite.closedAt_concat_of_not_end ht]

theorem isLatest_concat_of_not_end {o : DefinitionSite} (ht : t.kind ≠ .definitionEnd) :
    o.IsLatest (seen ++ [t]) name ↔ o.IsLatest seen name := by
  simp only [DefinitionSite.IsLatest, DefinitionSite.closedAt_concat_of_not_end ht]

/-- The definition that closes is the latest of its name. -/
theorem isLatest_concat_self {o : DefinitionSite} (ht : t.kind = .definitionEnd)
    (ho : o.IsInnermost seen) : o.IsLatest (seen ++ [t]) o.name.text := by
  refine ⟨seen, DefinitionSite.closedAt_concat_iff.mpr (Or.inr ⟨rfl, ht, ho⟩), rfl, ?_⟩
  intro o' upTo' h _
  have hlt := h.length_lt
  rw [List.length_append, List.length_singleton] at hlt
  omega

/-- A definition that closes leaves other names alone. -/
theorem closedAt_concat_of_ne {o o' : DefinitionSite} {upTo : List Token}
    (ho : o.IsInnermost seen) (hne : o.name.text ≠ o'.name.text) :
    o'.ClosedAt (seen ++ [t]) upTo ↔ o'.ClosedAt seen upTo := by
  rw [DefinitionSite.closedAt_concat_iff]
  refine ⟨fun h ↦ h.elim id fun h ↦ ?_, Or.inl⟩
  exact absurd (congrArg (fun o : DefinitionSite ↦ o.name.text) (ho.unique h.2.2)) hne

theorem defined_concat_of_ne {o : DefinitionSite} (ho : o.IsInnermost seen)
    (hne : o.name.text ≠ name) : Defined (seen ++ [t]) name ↔ Defined seen name := by
  constructor
  · rintro ⟨o', upTo, h, rfl⟩
    exact ⟨o', upTo, (closedAt_concat_of_ne ho hne).mp h, rfl⟩
  · rintro ⟨o', upTo, h, rfl⟩
    exact ⟨o', upTo, (closedAt_concat_of_ne ho hne).mpr h, rfl⟩

theorem isLatest_concat_of_ne {o o' : DefinitionSite} (ho : o.IsInnermost seen)
    (hne : o.name.text ≠ name) (h : o'.IsLatest seen name) : o'.IsLatest (seen ++ [t]) name := by
  obtain ⟨upTo, hclosed, rfl, hlast⟩ := h
  refine ⟨upTo, (closedAt_concat_of_ne ho hne).mpr hclosed, rfl, ?_⟩
  intro o'' upTo'' h hname
  exact hlast o'' upTo'' ((closedAt_concat_of_ne ho (hname ▸ hne)).mp h) hname

end Concat

/-- Of the definitions of a name that are closed, one closes last. -/
theorem Defined.exists_isLatest {seen : List Token} {name : String} (h : Defined seen name) :
    ∃ o : DefinitionSite, o.IsLatest seen name := by
  induction seen using List.reverseRecOn with
  | nil => exact absurd h not_defined_nil
  | append_singleton seen t ih =>
    by_cases ht : t.kind = .definitionEnd
    · by_cases hopen : ∃ o : DefinitionSite, o.IsInnermost seen
      · obtain ⟨o, ho⟩ := hopen
        by_cases hname : o.name.text = name
        · exact ⟨o, hname ▸ isLatest_concat_self ht ho⟩
        · obtain ⟨o', ho'⟩ := ih ((defined_concat_of_ne ho hname).mp h)
          exact ⟨o', isLatest_concat_of_ne ho hname ho'⟩
      · -- a marker that closes nothing changes nothing
        have hsame : ∀ (o : DefinitionSite) upTo,
            o.ClosedAt (seen ++ [t]) upTo ↔ o.ClosedAt seen upTo := by
          intro o upTo
          rw [DefinitionSite.closedAt_concat_iff]
          exact ⟨fun h ↦ h.elim id fun h ↦ absurd ⟨o, h.2.2⟩ hopen, Or.inl⟩
        simp only [Defined, hsame] at h
        simp only [DefinitionSite.IsLatest, hsame]
        exact ih h
    · obtain ⟨o, ho⟩ := ih ((defined_concat_of_not_end ht).mp h)
      exact ⟨o, (isLatest_concat_of_not_end ht).mpr ho⟩

/-! ## What stands directly inside -/

/-- The numerals and names among some tokens at nesting `0`, counted from `level`. -/
def directAt (level : Int) : List Token → List Token
  | [] => []
  | t :: ts =>
    (if level = 0 ∧ t.kind.turn = 0 then [t] else []) ++ directAt (level + t.kind.turn) ts

/-- The numerals and names among some tokens that stand outside all definitions. -/
def direct (ts : List Token) : List Token := directAt 0 ts

theorem directAt_append (level : Int) (p q : List Token) :
    directAt level (p ++ q) = directAt level p ++ directAt (level + nesting p) q := by
  induction p generalizing level with
  | nil => rw [List.nil_append, directAt, List.nil_append, nesting_nil, add_zero]
  | cons t p ih =>
    rw [List.cons_append, directAt, ih, directAt, List.append_assoc, nesting_cons, add_assoc]

/-- Nothing is outside where some definition stays open all along. -/
theorem directAt_eq_nil {level : Int} {ts : List Token}
    (h : ∀ p, p <+: ts → 0 < level + nesting p) : directAt level ts = [] := by
  induction ts generalizing level with
  | nil => rfl
  | cons t ts ih =>
    have h0 := h [] List.nil_prefix
    rw [nesting_nil, add_zero] at h0
    rw [directAt, if_neg (fun hl ↦ h0.ne' hl.1), List.nil_append]
    refine ih fun p hp ↦ ?_
    have hp' := h (t :: p) (List.cons_prefix_cons.mpr ⟨rfl, hp⟩)
    rwa [nesting_cons, ← add_assoc] at hp'

theorem direct_concat {ts : List Token} (hts : Balanced ts) {t : Token}
    (ht : t.kind.turn = 0) : direct (ts ++ [t]) = direct ts ++ [t] := by
  rw [direct, directAt_append, hts.level, add_zero, directAt, if_pos ⟨rfl, ht⟩, directAt,
    List.append_nil, direct]

/-- A definition leaves nothing where it stands. -/
theorem direct_append_definition {ts body : List Token} {marker name closing : Token}
    (hts : Balanced ts) (hm : marker.kind = .definitionStart) (hn : name.kind = .name)
    (hc : closing.kind = .definitionEnd) (hbody : Balanced body) :
    direct (ts ++ marker :: name :: (body ++ [closing])) = direct ts := by
  have hnil : directAt 1 body = [] := directAt_eq_nil fun p hp ↦ by
    have h0 := hbody.above p hp
    omega
  rw [direct, directAt_append, hts.level, directAt, directAt, directAt_append, hm, hn]
  simp [TokenKind.turn, directAt, hnil, hbody.level, hc, direct]

/-- Whether a token closes a definition. -/
def Token.closes (t : Token) : Bool :=
  match t.kind with
  | .definitionEnd => true
  | .number _ | .name | .definitionStart => false

/-- How many markers among some tokens close a definition. -/
def closings (ts : List Token) : Nat := ts.countP Token.closes

theorem Token.closes_iff {t : Token} : t.closes = true ↔ t.kind = .definitionEnd := by
  rw [closes]
  cases t.kind <;> simp

theorem closings_concat_of_end {ts : List Token} {t : Token} (ht : t.kind = .definitionEnd) :
    closings (ts ++ [t]) = closings ts + 1 := by
  rw [closings, List.countP_append, List.countP_singleton, if_pos (Token.closes_iff.mpr ht),
    closings]

theorem closings_concat_of_not_end {ts : List Token} {t : Token}
    (ht : t.kind ≠ .definitionEnd) : closings (ts ++ [t]) = closings ts := by
  rw [closings, List.countP_append, List.countP_singleton,
    if_neg (fun h ↦ ht (Token.closes_iff.mp h)), closings, Nat.add_zero]

end StackSynth
