import StackSynth.Language.Depth

/-!
# The depth of nested calls

Following every call of a body gives its call depth directly, at a price that may be exponential.
`Instruction.measure` gives the same number and remembers every body it has seen under its label.
The two agree as long as labels are handed out once: `bodies` says which body a label stands for,
and a step is labelled by `bodies` below `n` if every call inside it carries the body of its label
and no label from `n` on occurs.

## The invariant

A table is exact for `bodies` when it holds, under labels below `n` only, the call depths of the
words that the labels stand for. Measuring labelled steps gives their call depth and leaves an exact
table (`Instruction.measureAll_eq`). Labels from `n` on are free, so the next definition may take
`n` without any old fact changing.

What this rests on is only that no label stands for two bodies
(`Instruction.measureAll_of_records`): the labels may come from anywhere.
-/

namespace StackSynth

variable {σ : Type}

/-! ## Induction over programs -/

/-- A statement about programs holds of all of them if it passes from the rest of a program to the
program, and for a call from the body as well. -/
@[elab_as_elim]
theorem Program.induction {motive : Program σ → Prop} (nil : motive [])
    (push : ∀ value is, motive is → motive (.push value :: is))
    (native : ∀ name act is, motive is → motive (.native name act :: is))
    (call : ∀ name label body is, motive body → motive is → motive (.call name label body :: is))
    (constant : ∀ name value is, motive is → motive (.constant name value :: is)) :
    ∀ p : Program σ, motive p
  | [] => nil
  | .push value :: is =>
    push value is (Program.induction nil push native call constant is)
  | .native name act :: is =>
    native name act is (Program.induction nil push native call constant is)
  | .call name label body :: is =>
    call name label body is (Program.induction nil push native call constant body)
      (Program.induction nil push native call constant is)
  | .constant name value :: is =>
    constant name value is (Program.induction nil push native call constant is)

/-! ## Call depth -/

mutual

/-- The call depth of the word that a step calls, or `0` if it calls none. -/
def Instruction.callDepth : Instruction σ → Nat
  | .call _ _ body => Program.callDepth body + 1
  | .push _ | .native _ _ | .constant _ _ => 0

/-- The largest call depth of a word that one of the steps calls. -/
def Program.callDepth : List (Instruction σ) → Nat
  | [] => 0
  | i :: is => max i.callDepth (Program.callDepth is)

end

theorem Program.callDepth_append (p q : Program σ) :
    Program.callDepth (p ++ q) = max (Program.callDepth p) (Program.callDepth q) := by
  induction p with
  | nil => simp [Program.callDepth]
  | cons i is ih => rw [List.cons_append, Program.callDepth, Program.callDepth, ih, Nat.max_assoc]

theorem Program.callDepth_concat (p : Program σ) (i : Instruction σ) :
    Program.callDepth (p ++ [i]) = max (Program.callDepth p) i.callDepth := by
  rw [Program.callDepth_append, Program.callDepth, Program.callDepth, Nat.max_zero]

theorem Program.callDepth_le_iff {p : Program σ} {n : Nat} :
    Program.callDepth p ≤ n ↔ ∀ i ∈ p, i.callDepth ≤ n := by
  induction p with
  | nil => simp [Program.callDepth]
  | cons i is ih => rw [Program.callDepth, Nat.max_le, ih, List.forall_mem_cons]

/-! ## Labels -/

mutual

/-- Every call inside a step carries the body that its label stands for, and a label below `n`. -/
def Instruction.Labelled (bodies : Nat → Program σ) (n : Nat) : Instruction σ → Prop
  | .call _ label body => label < n ∧ bodies label = body ∧ Program.Labelled bodies n body
  | .push _ | .native _ _ | .constant _ _ => True

/-- Every step is labelled. -/
def Program.Labelled (bodies : Nat → Program σ) (n : Nat) : List (Instruction σ) → Prop
  | [] => True
  | i :: is => i.Labelled bodies n ∧ Program.Labelled bodies n is

end

theorem Program.labelled_iff {bodies : Nat → Program σ} {n : Nat} {p : Program σ} :
    Program.Labelled bodies n p ↔ ∀ i ∈ p, i.Labelled bodies n := by
  induction p with
  | nil => simp [Program.Labelled]
  | cons i is ih => rw [Program.Labelled, ih, List.forall_mem_cons]

/-- Labels from `n` on may come to stand for anything. -/
theorem Program.Labelled.mono {bodies bodies' : Nat → Program σ} {n n' : Nat} (hn : n ≤ n')
    (hb : ∀ label < n, bodies' label = bodies label) {p : Program σ}
    (h : Program.Labelled bodies n p) : Program.Labelled bodies' n' p := by
  induction p using Program.induction with
  | nil => trivial
  | push _ _ ih | native _ _ _ ih | constant _ _ _ ih => exact ⟨trivial, ih h.2⟩
  | call name label body is ihBody ih =>
    obtain ⟨⟨hlt, hbody, hin⟩, his⟩ := h
    exact ⟨⟨Nat.lt_of_lt_of_le hlt hn, (hb label hlt).trans hbody, ihBody hin⟩, ih his⟩

theorem Instruction.Labelled.mono {bodies bodies' : Nat → Program σ} {n n' : Nat} (hn : n ≤ n')
    (hb : ∀ label < n, bodies' label = bodies label) {i : Instruction σ}
    (h : i.Labelled bodies n) : i.Labelled bodies' n' :=
  (Program.Labelled.mono (p := [i]) hn hb ⟨h, trivial⟩).1

/-- The steps, or the words that they call, call the body under the label. -/
inductive Program.Calls (label : Nat) (body : Program σ) : Program σ → Prop where
  | here {name : String} {is : Program σ} : Program.Calls label body (.call name label body :: is)
  | inside {name : String} {label' : Nat} {body' is : Program σ}
      (h : Program.Calls label body body') :
      Program.Calls label body (.call name label' body' :: is)
  | later {i : Instruction σ} {is : Program σ} (h : Program.Calls label body is) :
      Program.Calls label body (i :: is)

theorem Program.Calls.of_labelled {bodies : Nat → Program σ} {n label : Nat} {body p : Program σ}
    (h : Program.Calls label body p) (hp : Program.Labelled bodies n p) :
    label < n ∧ bodies label = body := by
  induction h with
  | here => exact ⟨hp.1.1, hp.1.2.1⟩
  | inside _ ih => exact ih hp.1.2.2
  | later _ ih => exact ih hp.2

/-! ## Measuring -/

/-- A table that holds, under labels below `n`, the call depths of the words that the labels stand
for. -/
def DepthTable.Exact (bodies : Nat → Program σ) (n : Nat) (table : DepthTable) : Prop :=
  ∀ (label depth : Nat), table[label]? = some depth →
    label < n ∧ depth = Program.callDepth (bodies label) + 1

theorem DepthTable.exact_empty (bodies : Nat → Program σ) (n : Nat) :
    DepthTable.Exact bodies n ∅ := by
  intro label depth h
  rw [Std.HashMap.getElem?_empty] at h
  contradiction

theorem DepthTable.Exact.insert {bodies : Nat → Program σ} {n : Nat} {table : DepthTable}
    (h : table.Exact bodies n) {label : Nat} (hlt : label < n) :
    DepthTable.Exact bodies n (table.insert label (Program.callDepth (bodies label) + 1)) := by
  intro label' depth hget
  rw [Std.HashMap.getElem?_insert] at hget
  split at hget
  next heq =>
    obtain rfl := beq_iff_eq.mp heq
    exact ⟨hlt, (Option.some_inj.mp hget).symm⟩
  next => exact h label' depth hget

theorem DepthTable.Exact.mono {bodies bodies' : Nat → Program σ} {n n' : Nat} (hn : n ≤ n')
    (hb : ∀ label < n, bodies' label = bodies label) {table : DepthTable}
    (h : table.Exact bodies n) : table.Exact bodies' n' := by
  intro label depth hget
  obtain ⟨hlt, hdepth⟩ := h label depth hget
  exact ⟨Nat.lt_of_lt_of_le hlt hn, by rw [hb label hlt, hdepth]⟩

theorem Instruction.measure_call_of_some {table : DepthTable} {label depth : Nat}
    (h : table[label]? = some depth) (name : String) (body : Program σ) :
    Instruction.measure table (.call name label body) = (depth, table) := by
  rw [Instruction.measure, h]

theorem Instruction.measure_call_of_none {table : DepthTable} {label : Nat}
    (h : table[label]? = none) (name : String) (body : Program σ) :
    Instruction.measure table (.call name label body)
      = ((Instruction.measureAll table body).1 + 1,
        (Instruction.measureAll table body).2.insert label
          ((Instruction.measureAll table body).1 + 1)) := by
  rw [Instruction.measure, h]

theorem Instruction.measureAll_cons (table : DepthTable) (i : Instruction σ) (is : Program σ) :
    Instruction.measureAll table (i :: is)
      = (max (i.measure table).1 (Instruction.measureAll (i.measure table).2 is).1,
        (Instruction.measureAll (i.measure table).2 is).2) := by
  rw [Instruction.measureAll]

/-- A table that holds, under the labels of bodies that are known, the depths of the words with
these bodies. -/
def DepthTable.Records (known : Nat → Program σ → Prop) (table : DepthTable) : Prop :=
  ∀ (label depth : Nat), table[label]? = some depth →
    ∃ body, known label body ∧ depth = Program.callDepth body + 1

theorem DepthTable.records_empty (known : Nat → Program σ → Prop) :
    DepthTable.Records known ∅ := by
  intro label depth h
  rw [Std.HashMap.getElem?_empty] at h
  contradiction

theorem DepthTable.Records.imp {known known' : Nat → Program σ → Prop} {table : DepthTable}
    (h : table.Records known) (himp : ∀ label body, known label body → known' label body) :
    table.Records known' := by
  intro label depth hget
  obtain ⟨body, hknown, hdepth⟩ := h label depth hget
  exact ⟨body, himp label body hknown, hdepth⟩

theorem DepthTable.Records.insert {known : Nat → Program σ → Prop} {table : DepthTable}
    (h : table.Records known) {label : Nat} {body : Program σ} (hknown : known label body) :
    DepthTable.Records known (table.insert label (Program.callDepth body + 1)) := by
  intro label' depth hget
  rw [Std.HashMap.getElem?_insert] at hget
  split at hget
  next heq =>
    obtain rfl := beq_iff_eq.mp heq
    exact ⟨body, hknown, (Option.some_inj.mp hget).symm⟩
  next => exact h label' depth hget

/-- **Measuring is exact.** If no label is known for two bodies, one that the table knows stands for
the body at hand, so what it holds is the depth of that body. -/
theorem Instruction.measureAll_of_records {known : Nat → Program σ → Prop}
    (hknown : ∀ label body body', known label body → known label body' → body = body')
    {p : Program σ} (hp : ∀ label body, Program.Calls label body p → known label body)
    {table : DepthTable} (ht : table.Records known) :
    (Instruction.measureAll table p).1 = Program.callDepth p ∧
      (Instruction.measureAll table p).2.Records known := by
  induction p using Program.induction generalizing table with
  | nil => exact ⟨rfl, ht⟩
  | push _ _ ih | native _ _ _ ih | constant _ _ _ ih =>
    obtain ⟨hd, hrec⟩ := ih (fun label body h ↦ hp label body (.later h)) ht
    rw [measureAll_cons]
    exact ⟨by rw [Program.callDepth, ← hd]; rfl, hrec⟩
  | call name label body is ihBody ih =>
    have hhere : known label body := hp label body .here
    have hfirst : (Instruction.measure table (.call name label body)).1
          = Program.callDepth body + 1 ∧
        (Instruction.measure table (.call name label body)).2.Records known := by
      cases hget : table[label]? with
      | some depth =>
        obtain ⟨body', hbody', hdepth⟩ := ht label depth hget
        rw [measure_call_of_some hget]
        exact ⟨by rw [hdepth, hknown label body' body hbody' hhere], ht⟩
      | none =>
        obtain ⟨hd, hrec⟩ := ihBody (fun label body h ↦ hp label body (.inside h)) ht
        rw [measure_call_of_none hget, hd]
        exact ⟨rfl, hrec.insert hhere⟩
    obtain ⟨hd, hrec⟩ := ih (fun label body h ↦ hp label body (.later h)) hfirst.2
    rw [measureAll_cons]
    exact ⟨by rw [hd, hfirst.1, Program.callDepth, Instruction.callDepth], hrec⟩

theorem DepthTable.exact_iff_records {bodies : Nat → Program σ} {n : Nat} {table : DepthTable} :
    table.Exact bodies n ↔ table.Records fun label body ↦ label < n ∧ bodies label = body := by
  constructor
  · intro h label depth hget
    obtain ⟨hlt, hdepth⟩ := h label depth hget
    exact ⟨bodies label, ⟨hlt, rfl⟩, hdepth⟩
  · intro h label depth hget
    obtain ⟨body, ⟨hlt, rfl⟩, hdepth⟩ := h label depth hget
    exact ⟨hlt, hdepth⟩

/-- What is measured in labelled steps is their call depth, and the table stays exact. -/
theorem Instruction.measureAll_eq {bodies : Nat → Program σ} {n : Nat} {p : Program σ}
    (hp : Program.Labelled bodies n p) {table : DepthTable} (ht : table.Exact bodies n) :
    (Instruction.measureAll table p).1 = Program.callDepth p ∧
      (Instruction.measureAll table p).2.Exact bodies n := by
  rw [DepthTable.exact_iff_records] at ht ⊢
  refine measureAll_of_records ?_ (fun label body h ↦ h.of_labelled hp) ht
  rintro label body body' ⟨-, rfl⟩ ⟨-, rfl⟩
  rfl

end StackSynth
