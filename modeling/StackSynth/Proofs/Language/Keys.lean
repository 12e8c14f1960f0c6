import Mathlib.Data.List.Permutation
import StackSynth.Proofs.Language.Labels

/-!
# Bodies keyed by their places

The table of depths knows a body by its label, and a label stands for a place. Counting labels
(`Build.nextLabel`) is one way to hand out places. A store may do it in any other way, and it may
hand out a place again when the body there is gone. `Build.Keyed` is a compilation against such a
store: a definition that closes gets any key under which no body is alive.

A body is alive while something holds it: the dictionary, a definition that has closed, whether or
not its name still stands for it, an open definition or the program. No move lets go of a body
(`Build.Move.alive_iff`, `Build.alive_closedAt_iff`). So a key never comes to stand for a second
body, and every depth in the table is that of the body it was measured for
(`Build.depths_exact`).
-/

namespace StackSynth

variable {σ : Type}

/-! ## Calls -/

namespace Program

variable {key : Nat} {body : Program σ}

theorem not_calls_nil : ¬ Program.Calls key body [] := nofun

theorem calls_append_iff {p q : Program σ} :
    Program.Calls key body (p ++ q) ↔ Program.Calls key body p ∨ Program.Calls key body q := by
  induction p with
  | nil => simp [not_calls_nil]
  | cons i p ih =>
    rw [List.cons_append]
    constructor
    · intro h
      cases h with
      | here => exact .inl .here
      | inside h => exact .inl (.inside h)
      | later h => exact (ih.mp h).imp_left .later
    · rintro (h | h)
      · cases h with
        | here => exact .here
        | inside h => exact .inside h
        | later h => exact .later (ih.mpr (.inl h))
      · exact .later (ih.mpr (.inr h))

theorem calls_call_iff {name : String} {key' : Nat} {body' : Program σ} :
    Program.Calls key body [.call name key' body'] ↔
      Program.Calls key body body' ∨ (key = key' ∧ body = body') := by
  constructor
  · intro h
    cases h with
    | here => exact .inr ⟨rfl, rfl⟩
    | inside h => exact .inl h
    | later h => exact absurd h not_calls_nil
  · rintro (h | ⟨rfl, rfl⟩)
    · exact .inside h
    · exact .here

theorem Calls.of_mem {p : Program σ} {i : Instruction σ} (h : Program.Calls key body [i])
    (hi : i ∈ p) : Program.Calls key body p := by
  obtain ⟨before, behind, rfl⟩ := List.append_of_mem hi
  rw [List.append_cons, calls_append_iff, calls_append_iff]
  exact .inl (.inr h)

/-- What a called word calls is called. -/
theorem Calls.trans {key' : Nat} {body' p : Program σ} (h : Program.Calls key' body' p)
    (h' : Program.Calls key body body') : Program.Calls key body p := by
  induction h with
  | here => exact .inside h'
  | inside _ ih => exact .inside ih
  | later _ ih => exact .later ih

end Program

/-! ## Bodies alive -/

/-- A name stands for something that calls the body under the key. -/
def Dictionary.Reaches (d : Dictionary σ) (key : Nat) (body : Program σ) : Prop :=
  ∃ name op, d.lookup name = some op ∧ Program.Calls key body [op.compiled name]

/-- No two bodies that can be reached share a key. -/
def Dictionary.Unambiguous (d : Dictionary σ) : Prop :=
  ∀ key body body', d.Reaches key body → d.Reaches key body' → body = body'

theorem Dictionary.Labelled.unambiguous {d : Dictionary σ} (h : d.Labelled) : d.Unambiguous := by
  obtain ⟨bodies, hall⟩ := h
  rintro key body body' ⟨name, op, hop, hcalls⟩ ⟨name', op', hop', hcalls'⟩
  obtain ⟨-, rfl⟩ := hcalls.of_labelled ⟨hall name op hop, trivial⟩
  obtain ⟨-, rfl⟩ := hcalls'.of_labelled ⟨hall name' op' hop', trivial⟩
  rfl

theorem Dictionary.Labelled.lt_fresh {d : Dictionary σ} (h : d.Labelled) {key : Nat}
    {body : Program σ} (hreaches : d.Reaches key body) : key < d.fresh := by
  obtain ⟨bodies, hall⟩ := h
  obtain ⟨name, op, hop, hcalls⟩ := hreaches
  exact (hcalls.of_labelled ⟨hall name op hop, trivial⟩).1

/-- The key of a word. -/
def Operation.key? : Operation σ → Option Nat
  | .word key _ => some key
  | .native _ | .constant _ => none

namespace Build

/-- The steps that a build holds itself: those of its definitions, also of such as have lost their
names, of the definitions that are open and of the program. -/
def held (b : Build σ) : Program σ :=
  (b.definitions.toList.map fun entry ↦ entry.2.compiled entry.1)
    ++ (b.frames.flatMap fun frame ↦ frame.body.toList) ++ b.program.toList

/-- The body is kept under the key, by the dictionary or by the build. -/
def Alive (b : Build σ) (key : Nat) (body : Program σ) : Prop :=
  b.dictionary.Reaches key body ∨ Program.Calls key body b.held

/-- What a body alive calls is alive. -/
theorem Alive.trans {b : Build σ} {key key' : Nat} {body body' : Program σ}
    (h : b.Alive key' body') (h' : Program.Calls key body body') : b.Alive key body := by
  rcases h with ⟨name, op, hop, h⟩ | h
  · exact .inl ⟨name, op, hop, h.trans h'⟩
  · exact .inr (h.trans h')

theorem alive_start_iff {d : Dictionary σ} {key : Nat} {body : Program σ} :
    (start d).Alive key body ↔ d.Reaches key body :=
  or_iff_left Program.not_calls_nil

theorem alive_emit_iff {b : Build σ} {i : Instruction σ} {key : Nat} {body : Program σ} :
    (b.emit i).Alive key body ↔ b.Alive key body ∨ Program.Calls key body [i] := by
  cases hf : b.frames with
  | nil =>
    rw [emit_of_outside i hf]
    simp only [Alive, held, hf, Array.toList_push, Program.calls_append_iff]
    tauto
  | cons frame outer =>
    rw [emit_of_inside i hf]
    simp only [Alive, held, hf, List.flatMap_cons, Array.toList_push, Program.calls_append_iff]
    tauto

/-! ## Closing under a key -/

/-- The build with a definition closed and staged under a key, and only the definitions `outer`
open. -/
def closedAt (b : Build σ) (key : Nat) (frame : OpenDefinition σ)
    (outer : List (OpenDefinition σ)) : Build σ :=
  { b with
    frames := outer
    staged := b.staged.insert frame.name.text (.word key frame.body.toList)
    definitions := b.definitions.push (frame.name.text, .word key frame.body.toList)
    depths := (Instruction.measureAll b.depths frame.body.toList).2.insert key
      ((Instruction.measureAll b.depths frame.body.toList).1 + 1) }

theorem closedAt_nextLabel (b : Build σ) (frame : OpenDefinition σ)
    (outer : List (OpenDefinition σ)) : b.closedAt b.nextLabel frame outer = b.closed frame outer :=
  rfl

/-- The steps of a definition stay alive when it closes, inside its body. -/
theorem alive_closedAt_iff {b : Build σ} {frame : OpenDefinition σ}
    {outer : List (OpenDefinition σ)} (hf : b.frames = frame :: outer) {key key' : Nat}
    {body : Program σ} :
    (b.closedAt key' frame outer).Alive key body ↔
      b.Alive key body ∨ (key = key' ∧ body = frame.body.toList) := by
  simp only [Alive, held, closedAt, hf, List.flatMap_cons, Array.toList_push, List.map_append,
    List.map_cons, List.map_nil, Operation.compiled, Program.calls_append_iff,
    Program.calls_call_iff]
  tauto

/-- What names stand for by definitions is among the definitions. -/
def Backed (b : Build σ) : Prop :=
  ∀ name op, b.staged[name]? = some op → (name, op) ∈ b.definitions.toList

theorem backed_closedAt {b : Build σ} (h : b.Backed) (key : Nat) (frame : OpenDefinition σ)
    (outer : List (OpenDefinition σ)) : (b.closedAt key frame outer).Backed := by
  intro name op hget
  rw [closedAt, Std.HashMap.getElem?_insert] at hget
  rw [closedAt, Array.toList_push, List.mem_append, List.mem_singleton]
  split at hget
  next heq =>
    obtain rfl := beq_iff_eq.mp heq
    cases hget
    exact .inr rfl
  next => exact .inl (h name op hget)

/-- What a name stands for is alive already. -/
theorem Backed.alive_of_resolve {b : Build σ} (h : b.Backed) {name : String} {op : Operation σ}
    (hr : b.resolve name = some op) {key : Nat} {body : Program σ}
    (hcalls : Program.Calls key body [op.compiled name]) : b.Alive key body := by
  rw [resolve] at hr
  cases hs : b.staged[name]? with
  | none =>
    rw [hs] at hr
    exact .inl ⟨name, op, hr, hcalls⟩
  | some op' =>
    rw [hs] at hr
    cases hr
    have hmem := List.mem_map_of_mem (f := fun entry ↦ entry.2.compiled entry.1) (h name op hs)
    refine .inr ?_
    rw [held, List.append_assoc, Program.calls_append_iff]
    exact .inl (hcalls.of_mem hmem)

/-! ## Moves -/

/-- A move that closes nothing leaves the definitions and the table as they are. -/
theorem Move.unchanged {b b' : Build σ} {t : Token} (hmove : Move b t b')
    (hk : t.kind ≠ .definitionEnd) : b'.dictionary = b.dictionary ∧ b'.staged = b.staged ∧
      b'.definitions = b.definitions ∧ b'.depths = b.depths := by
  cases hmove with
  | number | name =>
    exact ⟨emit_dictionary _ _, emit_staged _ _, emit_definitions _ _, emit_depths _ _⟩
  | start | title => exact ⟨rfl, rfl, rfl, rfl⟩
  | close _ hk' => exact absurd hk' hk

/-- It lets go of no body and brings none. -/
theorem Move.alive_iff {b b' : Build σ} {t : Token} (hmove : Move b t b')
    (hk : t.kind ≠ .definitionEnd) (hb : b.Backed) {key : Nat} {body : Program σ} :
    b'.Alive key body ↔ b.Alive key body := by
  cases hmove with
  | number =>
    rw [alive_emit_iff, or_iff_left]
    rintro (_ | _ | h)
    exact Program.not_calls_nil h
  | name _ _ hr =>
    rw [alive_emit_iff, or_iff_left_of_imp]
    exact hb.alive_of_resolve hr
  | start => exact Iff.rfl
  | title => exact Iff.rfl
  | close _ hk' => exact absurd hk' hk

/-! ## Compilations with keys -/

/-- The builds that reading tokens against a dictionary passes through, if a definition that closes
may get any key under which no body is alive. -/
inductive Keyed (d : Dictionary σ) : List Token → Build σ → Prop where
  | start : Keyed d [] (start d)
  | move {seen : List Token} {t : Token} {b b' : Build σ} (h : Keyed d seen b)
      (hmove : Move b t b') (hk : t.kind ≠ .definitionEnd) : Keyed d (seen ++ [t]) b'
  | close {seen : List Token} {t : Token} {b : Build σ} {frame : OpenDefinition σ}
      {outer : List (OpenDefinition σ)} {key : Nat} (h : Keyed d seen b) (hm : b.marker = none)
      (hk : t.kind = .definitionEnd) (hf : b.frames = frame :: outer)
      (hd : (Instruction.measureAll b.depths frame.body.toList).1 + 1 ≤ maxCallDepth)
      (hfree : ∀ body, ¬ b.Alive key body) : Keyed d (seen ++ [t]) (b.closedAt key frame outer)

/-- The keys of the definitions that have closed. -/
def keys (b : Build σ) : List Nat := b.definitions.toList.filterMap fun entry ↦ entry.2.key?

theorem keys_closedAt (b : Build σ) (key : Nat) (frame : OpenDefinition σ)
    (outer : List (OpenDefinition σ)) : (b.closedAt key frame outer).keys = b.keys ++ [key] := by
  rw [keys, closedAt, Array.toList_push, List.filterMap_append]
  rfl

theorem exists_alive_of_mem_keys {b : Build σ} {key : Nat} (h : key ∈ b.keys) :
    ∃ body, b.Alive key body := by
  obtain ⟨⟨name, op⟩, hmem, hkey⟩ := List.mem_filterMap.mp h
  cases op with
  | native | constant => cases hkey
  | word key' body =>
    cases hkey
    refine ⟨body, .inr ?_⟩
    rw [held, List.append_assoc, Program.calls_append_iff]
    exact .inl (Program.Calls.of_mem .here
      (List.mem_map_of_mem (f := fun entry ↦ entry.2.compiled entry.1) hmem))

/-- The keys keep the bodies of a build apart. -/
structure KeysApart (b : Build σ) : Prop where
  backed : b.Backed
  /-- No two bodies alive that differ share a key. -/
  unique : ∀ key body body', b.Alive key body → b.Alive key body' → body = body'
  /-- No two definitions share a key, not even if their bodies are alike. -/
  nodup : b.keys.Nodup
  /-- No definition shares a key with a body in the dictionary. -/
  foreign : ∀ key ∈ b.keys, ∀ body, ¬ b.dictionary.Reaches key body

namespace KeysApart

variable {b : Build σ}

theorem start {d : Dictionary σ} (hd : d.Unambiguous) : (Build.start d).KeysApart where
  backed name op hget := by
    rw [Build.start, Std.HashMap.getElem?_empty] at hget
    cases hget
  unique key body body' h h' := hd key body body' (alive_start_iff.mp h) (alive_start_iff.mp h')
  nodup := List.nodup_nil
  foreign := nofun

theorem move (h : b.KeysApart) {b' : Build σ} {t : Token} (hmove : Move b t b')
    (hk : t.kind ≠ .definitionEnd) : b'.KeysApart := by
  obtain ⟨hdict, hstaged, hdefs, -⟩ := hmove.unchanged hk
  have hkeys : b'.keys = b.keys := by rw [keys, hdefs, keys]
  refine ⟨?_, ?_, ?_, ?_⟩
  · rw [Backed, hstaged, hdefs]
    exact h.backed
  · intro key body body'
    rw [hmove.alive_iff hk h.backed, hmove.alive_iff hk h.backed]
    exact h.unique key body body'
  · rw [hkeys]
    exact h.nodup
  · rw [hkeys, hdict]
    exact h.foreign

theorem closedAt (h : b.KeysApart) {frame : OpenDefinition σ} {outer : List (OpenDefinition σ)}
    (hf : b.frames = frame :: outer) {key : Nat} (hfree : ∀ body, ¬ b.Alive key body) :
    (b.closedAt key frame outer).KeysApart where
  backed := backed_closedAt h.backed key frame outer
  unique key' body body' hbody hbody' := by
    rw [alive_closedAt_iff hf] at hbody hbody'
    rcases hbody with hbody | ⟨rfl, rfl⟩ <;> rcases hbody' with hbody' | ⟨heq, rfl⟩
    · exact h.unique key' body body' hbody hbody'
    · exact absurd (heq ▸ hbody) (hfree body)
    · exact absurd hbody' (hfree body')
    · rfl
  nodup := by
    rw [keys_closedAt, List.nodup_append]
    refine ⟨h.nodup, (List.nodup_cons.mpr ⟨nofun, List.nodup_nil⟩), ?_⟩
    rintro key' hmem _ hmem' rfl
    obtain ⟨body, halive⟩ := exists_alive_of_mem_keys hmem
    exact hfree body (List.mem_singleton.mp hmem' ▸ halive)
  foreign key' hmem body hreaches := by
    rw [keys_closedAt, List.mem_append, List.mem_singleton] at hmem
    rcases hmem with hmem | rfl
    · exact h.foreign key' hmem body hreaches
    · exact hfree body (.inl hreaches)

/-- Steps whose calls are all alive are measured as deep as they are. -/
theorem measureAll_eq (h : b.KeysApart) {table : DepthTable} (ht : table.Records b.Alive)
    {p : Program σ} (hp : ∀ key body, Program.Calls key body p → b.Alive key body) :
    (Instruction.measureAll table p).1 = Program.callDepth p ∧
      (Instruction.measureAll table p).2.Records b.Alive :=
  Instruction.measureAll_of_records h.unique hp ht

end KeysApart

theorem alive_of_mem_frames {b : Build σ} {frame : OpenDefinition σ} (h : frame ∈ b.frames)
    {key : Nat} {body : Program σ} (hcalls : Program.Calls key body frame.body.toList) :
    b.Alive key body := by
  obtain ⟨inner, outer, heq⟩ := List.append_of_mem h
  refine .inr ?_
  rw [held, heq, List.flatMap_append, List.flatMap_cons]
  simp only [Program.calls_append_iff]
  tauto

/-- The table of a build is exact at this point, and every measurement from here on. -/
structure DepthsExact (b : Build σ) : Prop extends b.KeysApart where
  /-- Every entry is the depth of the word whose body is kept under its key. -/
  entries : b.depths.Records b.Alive
  /-- Asked about a body alive, any table with such entries answers its depth. -/
  words : ∀ table : DepthTable, table.Records b.Alive → ∀ name key body, b.Alive key body →
    (Instruction.measure table (.call name key body)).1 = Program.callDepth body + 1 ∧
      (Instruction.measure table (.call name key body)).2.Records b.Alive
  /-- It answers what an open definition calls, however far that has been compiled. -/
  bodies : ∀ table : DepthTable, table.Records b.Alive → ∀ frame ∈ b.frames,
    (Instruction.measureAll table frame.body.toList).1 = Program.callDepth frame.body.toList ∧
      (Instruction.measureAll table frame.body.toList).2.Records b.Alive

theorem KeysApart.depthsExact {b : Build σ} (h : b.KeysApart)
    (hrecords : b.depths.Records b.Alive) : b.DepthsExact where
  toKeysApart := h
  entries := hrecords
  words table ht name key body halive := by
    have hcalls : ∀ key' body', Program.Calls key' body' [.call name key body] →
        b.Alive key' body' := by
      intro key' body' hcalls
      rcases Program.calls_call_iff.mp hcalls with hcalls | ⟨rfl, rfl⟩
      · exact halive.trans hcalls
      · exact halive
    have hone := h.measureAll_eq ht hcalls
    rw [Instruction.measureAll_cons, Instruction.measureAll] at hone
    simpa [Program.callDepth, Instruction.callDepth] using hone
  bodies table ht frame hmem := h.measureAll_eq ht fun _ _ ↦ alive_of_mem_frames hmem

theorem Keyed.depthsExact {d : Dictionary σ} (hd : d.Unambiguous) {tokens : List Token}
    {b : Build σ} (h : Keyed d tokens b) : b.DepthsExact := by
  induction h with
  | start => exact (KeysApart.start hd).depthsExact (DepthTable.records_empty _)
  | move _ hmove hk ih =>
    refine (ih.toKeysApart.move hmove hk).depthsExact ?_
    rw [(hmove.unchanged hk).2.2.2]
    exact ih.entries.imp fun _ _ ↦ (hmove.alive_iff hk ih.backed).mpr
  | @close _ _ b frame outer key _ _ _ hf _ hfree ih =>
    refine (ih.toKeysApart.closedAt hf hfree).depthsExact ?_
    obtain ⟨hdepth, hrecords⟩ :=
      ih.bodies b.depths ih.entries frame (hf ▸ List.mem_cons_self)
    rw [closedAt, hdepth]
    exact (hrecords.imp fun _ _ halive ↦ (alive_closedAt_iff hf).mpr (.inl halive)).insert
      ((alive_closedAt_iff hf).mpr (.inr ⟨rfl, rfl⟩))

/-- Counting hands out keys under which nothing is alive. -/
theorem keyed_of_read {d : Dictionary σ} (hd : d.Labelled) {tokens : List Token} {b : Build σ}
    (h : (start d).read tokens = .ok b) : Keyed d tokens b := by
  have key : Keyed d tokens b ∧ ∀ key body, b.Alive key body → key < b.nextLabel := by
    refine read_induction (motive := fun tokens b ↦ Keyed d tokens b ∧
      ∀ key body, b.Alive key body → key < b.nextLabel) ?_ ?_ h
    · exact ⟨.start, fun key body halive ↦ hd.lt_fresh (alive_start_iff.mp halive)⟩
    · rintro seen t b b' - ⟨hkeyed, hlt⟩ hmove
      have hbacked := (hkeyed.depthsExact hd.unambiguous).backed
      by_cases hk : t.kind = .definitionEnd
      · cases hmove with
        | number _ hk' | name _ hk' | start _ hk' | title _ hk' => rw [hk'] at hk; cases hk
        | close hm _ hf hd' =>
          rw [← closedAt_nextLabel]
          refine ⟨hkeyed.close hm hk hf hd' fun body halive ↦ Nat.lt_irrefl _ (hlt _ _ halive), ?_⟩
          intro key body halive
          rw [closedAt_nextLabel, nextLabel_closed]
          rcases (alive_closedAt_iff hf).mp halive with halive | ⟨rfl, -⟩
          · exact Nat.lt_succ_of_lt (hlt key body halive)
          · exact Nat.lt_succ_self _
      · obtain ⟨hdict, -, hdefs, -⟩ := hmove.unchanged hk
        refine ⟨hkeyed.move hmove hk, fun key body halive ↦ ?_⟩
        rw [nextLabel, hdict, hdefs]
        exact hlt key body ((hmove.alive_iff hk hbacked).mp halive)
  exact key.1

/-- **Depths are exact.** Whatever keys the definitions get, as long as no body alive has them, the
table holds the call depth of every body that it knows, after every token; and no measurement, on
the way to closing a definition either, answers anything else. Counting is one way to get such
keys. -/
theorem depths_exact (d : Dictionary σ) (tokens : List Token) (b : Build σ) :
    (d.Unambiguous → Keyed d tokens b → b.DepthsExact) ∧
      (d.Labelled → (start d).read tokens = .ok b → Keyed d tokens b ∧ b.DepthsExact) := by
  refine ⟨fun hd h ↦ h.depthsExact hd, fun hd h ↦ ?_⟩
  have hkeyed := keyed_of_read hd h
  exact ⟨hkeyed, hkeyed.depthsExact hd.unambiguous⟩

/-- A word is redefined over itself, by counting; and one gets the key `7`. -/
theorem depths_exact_redefinition :
    (Dictionary.empty : Dictionary Unit).Labelled ∧
      (∃ b, (start (Dictionary.empty : Dictionary Unit)).read (tokenize ": w ; : w w w ; w")
          = .ok b ∧ b.DepthsExact ∧ b.keys = [0, 1] ∧ b.depths[0]? = some 1 ∧
          b.depths[1]? = some 2) ∧
      ∃ b, Keyed (Dictionary.empty : Dictionary Unit) (tokenize ": w ;") b ∧ b.DepthsExact ∧
        b.keys = [7] ∧ b.depths[7]? = some 1 := by
  have hd : (Dictionary.empty : Dictionary Unit).Labelled := Dictionary.labelled_empty
  refine ⟨hd, ?_, ?_⟩
  · have hshown : ((start (Dictionary.empty : Dictionary Unit)).read
        (tokenize ": w ; : w w w ; w")).map (fun b ↦ (b.keys, b.depths[0]?, b.depths[1]?))
          = .ok ([0, 1], some 1, some 2) := by cbv
    cases hread : (start (Dictionary.empty : Dictionary Unit)).read
        (tokenize ": w ; : w w w ; w") with
    | error e =>
      rw [hread] at hshown
      cases hshown
    | ok b =>
      rw [hread] at hshown
      obtain ⟨hkeys, hzero, hone⟩ : b.keys = [0, 1] ∧ b.depths[0]? = some 1 ∧
          b.depths[1]? = some 2 := by simpa [Except.map] using hshown
      exact ⟨b, rfl, ((depths_exact _ _ b).2 hd hread).2, hkeys, hzero, hone⟩
  · have htokens : tokenize ": w ;" = [⟨.definitionStart, ":", ⟨1, 1⟩⟩, ⟨.name, "w", ⟨1, 3⟩⟩,
        ⟨.definitionEnd, ";", ⟨1, 5⟩⟩] := by cbv
    have hopen : Keyed (Dictionary.empty : Dictionary Unit)
        [⟨.definitionStart, ":", ⟨1, 1⟩⟩, ⟨.name, "w", ⟨1, 3⟩⟩]
        { start Dictionary.empty with frames := [⟨⟨.name, "w", ⟨1, 3⟩⟩, #[]⟩] } :=
      .move (.move .start (.start rfl rfl) (by simp)) (.title rfl rfl) (by simp)
    have hfree : ∀ body, ¬ Alive { start (Dictionary.empty : Dictionary Unit) with
        frames := [⟨⟨.name, "w", ⟨1, 3⟩⟩, #[]⟩] } 7 body := by
      rintro body (h | h)
      · exact absurd (hd.lt_fresh h) (by decide)
      · exact Program.not_calls_nil h
    rw [htokens]
    have hkeyed := hopen.close (t := ⟨.definitionEnd, ";", ⟨1, 5⟩⟩) rfl rfl rfl (by decide) hfree
    exact ⟨_, hkeyed, (depths_exact _ _ _).1 hd.unambiguous hkeyed, rfl, by cbv⟩

end Build

end StackSynth
