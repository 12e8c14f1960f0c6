import StackSynth.Proofs.Language.Labels

/-!
# The natives of a program

A program gets to natives by name and through the words it calls. Names bring in natives from the
dictionary only, and closing a definition brings in none, so a program that compiles gets to no
natives but those that the dictionary gets to (`Dictionary.Uses.program`), and the same holds of the
dictionary with its definitions (`Dictionary.Uses.commit`).
-/

namespace StackSynth

variable {σ : Type} {K : Native σ → Prop}

mutual

/-- Every native that a step gets to is one of `K`. -/
def Instruction.Uses (K : Native σ → Prop) : Instruction σ → Prop
  | .native _ act => K act
  | .call _ _ body => Program.Uses K body
  | .push _ | .constant _ _ => True

/-- Every native that a program gets to is one of `K`. -/
def Program.Uses (K : Native σ → Prop) : List (Instruction σ) → Prop
  | [] => True
  | i :: is => i.Uses K ∧ Program.Uses K is

end

theorem Program.uses_iff {p : Program σ} : Program.Uses K p ↔ ∀ i ∈ p, i.Uses K := by
  induction p with
  | nil => simp [Program.Uses]
  | cons i is ih => rw [Program.Uses, ih, List.forall_mem_cons]

theorem Program.Uses.imp {K' : Native σ → Prop} (h : ∀ act, K act → K' act) {p : Program σ}
    (hp : Program.Uses K p) : Program.Uses K' p := by
  induction p using Program.induction with
  | nil => exact trivial
  | push _ is ih | constant _ _ is ih => exact ⟨trivial, ih hp.2⟩
  | native _ act is ih => exact ⟨h act hp.1, ih hp.2⟩
  | call _ _ body is ihBody ih => exact ⟨ihBody hp.1, ih hp.2⟩

/-- Every native that a name stands for or gets to is one of `K`. -/
abbrev Dictionary.Uses (K : Native σ → Prop) (d : Dictionary σ) : Prop := d.All (Instruction.Uses K)

theorem Build.All.uses_of_read {d : Dictionary σ} (h : d.Uses K) {tokens : List Token}
    {b : Build σ} (hread : (Build.start d).read tokens = .ok b) :
    b.All (Instruction.Uses K) := by
  refine read_induction (motive := fun _ b ↦ b.All (Instruction.Uses K)) (.start h) ?_ hread
  intro seen t b b' _ ih hmove
  cases hmove with
  | number => exact ih.emit trivial
  | name _ _ hr => exact ih.emit (ih.names _ _ hr)
  | start => exact ih.marker _
  | title => exact ih.title t
  | @close frame outer _ _ hf =>
    have hmem : frame ∈ b.frames := by rw [hf]; exact List.mem_cons_self
    exact ih.closed hf fun name ↦ Program.uses_iff.mpr (ih.frames frame hmem)

namespace Dictionary.Uses

variable {d : Dictionary σ}

theorem program (h : d.Uses K) {tokens : List Token} {c : Compiled σ}
    (hc : compileTokens d tokens = .ok c) : Program.Uses K c.program := by
  obtain ⟨b, hread, -, -, rfl⟩ := compileTokens_eq_ok_iff.mp hc
  exact Program.uses_iff.mpr (Build.All.uses_of_read h hread).program

theorem commit (h : d.Uses K) {tokens : List Token} {c : Compiled σ}
    (hc : compileTokens d tokens = .ok c) : (d.commit c).Uses K := by
  obtain ⟨b, hread, -, -, rfl⟩ := compileTokens_eq_ok_iff.mp hc
  intro name op hop
  rw [lookup_commit, Build.lookup_defineAll_of_read hread] at hop
  exact (Build.All.uses_of_read h hread).names name op hop

theorem empty : (Dictionary.empty : Dictionary σ).Uses K := by
  intro name op h
  rw [lookup, Dictionary.empty, Std.HashMap.getElem?_empty] at h
  cases h

theorem define (h : d.Uses K) {name : String} {op : Operation σ}
    (hop : ∀ name, (op.compiled name).Uses K) : (d.define name op).Uses K := by
  intro name' op' h'
  rw [lookup_define] at h'
  split at h'
  next => cases h'; exact hop name'
  next => exact h name' op' h'

theorem defineAll (h : d.Uses K) {words : List (String × Operation σ)}
    (hwords : ∀ word ∈ words, ∀ name, (word.2.compiled name).Uses K) :
    (d.defineAll words).Uses K := by
  induction words generalizing d with
  | nil => exact h
  | cons word words ih =>
    rw [List.forall_mem_cons] at hwords
    exact ih (h.define hwords.1) hwords.2

end Dictionary.Uses

end StackSynth
