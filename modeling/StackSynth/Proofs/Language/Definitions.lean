import Mathlib.Data.List.Basic
import Mathlib.Data.List.Nodup
import StackSynth.Proofs.Language.Labels

/-!
# What definitions bind

Committing a program binds the names that it defines and no others. Of several definitions of one
name the last one counts, so what the dictionary says afterwards is what the list of definitions
says, read from its end, and only for other names what the dictionary said before
(`Dictionary.lookup_defineAll`). All that a program defines are words
(`Build.definitions_of_read`).
-/

namespace StackSynth

variable {σ : Type}

namespace Dictionary

theorem lookup_defineAll (d : Dictionary σ) (entries : List (String × Operation σ))
    (name : String) :
    (d.defineAll entries).lookup name = (entries.reverse.lookup name).or (d.lookup name) := by
  induction entries using List.reverseRecOn with
  | nil => rfl
  | append_singleton entries entry ih =>
    obtain ⟨last, op⟩ := entry
    rw [defineAll_concat, lookup_define, ih, List.reverse_concat, List.lookup_cons]
    by_cases h : last = name
    · rw [if_pos h, beq_iff_eq.mpr h.symm, Option.some_or]
    · rw [if_neg h, beq_eq_false_iff_ne.mpr (Ne.symm h)]

theorem lookup_defineAll_of_not_mem (d : Dictionary σ) {entries : List (String × Operation σ)}
    {name : String} (h : name ∉ entries.map Prod.fst) :
    (d.defineAll entries).lookup name = d.lookup name := by
  have hnone : entries.reverse.lookup name = none := by
    rw [List.lookup_eq_none_iff]
    intro entry hentry
    rw [bne_iff_ne]
    rintro rfl
    exact h (List.mem_map_of_mem (List.mem_reverse.mp hentry))
  rw [lookup_defineAll, hnone, Option.none_or]

theorem exists_lookup_defineAll (d : Dictionary σ) {entries : List (String × Operation σ)}
    {name : String} (h : name ∈ entries.map Prod.fst) :
    ∃ op, (name, op) ∈ entries ∧ (d.defineAll entries).lookup name = some op := by
  rw [lookup_defineAll]
  cases hlookup : entries.reverse.lookup name with
  | none =>
    obtain ⟨entry, hentry, rfl⟩ := List.mem_map.mp h
    have hne := List.lookup_eq_none_iff.mp hlookup entry (List.mem_reverse.mpr hentry)
    exact absurd rfl (bne_iff_ne.mp hne)
  | some op =>
    obtain ⟨before, after, heq, -⟩ := List.lookup_eq_some_iff.mp hlookup
    refine ⟨op, ?_, Option.some_or⟩
    rw [← List.mem_reverse, heq]
    exact List.mem_append_right _ List.mem_cons_self

/-- Among entries of different names every one counts. -/
theorem lookup_defineAll_of_mem (d : Dictionary σ) {entries : List (String × Operation σ)}
    (hnodup : (entries.map Prod.fst).Nodup) {name : String} {op : Operation σ}
    (h : (name, op) ∈ entries) : (d.defineAll entries).lookup name = some op := by
  obtain ⟨op', hop', hlookup⟩ := d.exists_lookup_defineAll (List.mem_map_of_mem (f := Prod.fst) h)
  cases List.inj_on_of_nodup_map hnodup h hop' rfl
  exact hlookup

/-- What an empty dictionary stands for once entries of different names are in it. -/
theorem lookup_defineAll_empty_eq_some_iff {entries : List (String × Operation σ)}
    (hnodup : (entries.map Prod.fst).Nodup) {name : String} {op : Operation σ} :
    (empty.defineAll entries).lookup name = some op ↔ (name, op) ∈ entries := by
  refine ⟨fun hlookup ↦ ?_, lookup_defineAll_of_mem _ hnodup⟩
  by_cases hname : name ∈ entries.map Prod.fst
  · obtain ⟨op', hop', hlookup'⟩ := exists_lookup_defineAll empty hname
    rw [hlookup'] at hlookup
    cases hlookup
    exact hop'
  · rw [lookup_defineAll_of_not_mem _ hname, lookup, empty, Std.HashMap.getElem?_empty] at hlookup
    cases hlookup

/-- Entries of different names leave an empty dictionary with as many entries. -/
theorem size_defineAll_empty {entries : List (String × Operation σ)}
    (hnodup : (entries.map Prod.fst).Nodup) : (empty.defineAll entries).size = entries.length := by
  induction entries using List.reverseRecOn with
  | nil => exact Std.HashMap.size_empty
  | append_singleton entries entry ih =>
    obtain ⟨name, op⟩ := entry
    rw [List.map_append, List.map_singleton, List.nodup_append] at hnodup
    obtain ⟨hnodup, -, hnew⟩ := hnodup
    have hname : name ∉ entries.map Prod.fst := fun hmem ↦
      hnew name hmem name List.mem_cons_self rfl
    have hnone : (empty.defineAll entries).entries[name]? = none :=
      (lookup_defineAll_of_not_mem empty hname).trans Std.HashMap.getElem?_empty
    have hmiss : name ∉ (empty.defineAll entries).entries := by
      rw [Std.HashMap.mem_iff_isSome_getElem?, hnone]
      exact Bool.false_ne_true
    rw [defineAll_concat, size, define, Std.HashMap.size_insert, if_neg hmiss, List.length_append,
      List.length_singleton]
    exact congrArg (· + 1) (ih hnodup)

end Dictionary

/-- All that a program defines are words. -/
theorem Build.definitions_of_read {d : Dictionary σ} {tokens : List Token} {b : Build σ}
    (h : (Build.start d).read tokens = .ok b) :
    ∀ entry ∈ b.definitions.toList, ∃ label body, entry.2 = .word label body := by
  refine read_induction
    (motive := fun _ b ↦ ∀ entry ∈ b.definitions.toList, ∃ label body, entry.2 = .word label body)
    ?_ ?_ h
  · simp [Build.start]
  · intro seen t b b' _ ih hmove
    cases hmove with
    | number | name => rwa [emit_definitions]
    | start | title => exact ih
    | close =>
      rw [closed, Array.toList_push, List.forall_mem_append, List.forall_mem_singleton]
      exact ⟨ih, _, _, rfl⟩

end StackSynth
