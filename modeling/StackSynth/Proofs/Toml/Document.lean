import StackSynth.Proofs.Toml.Values

/-!
# Written documents are read back

Tables whose keys need no quotes and whose values are read back make a document that is read back
(`exists_writeTables`).

A document is read line by line, and what was read so far is a header and the tables up to it.
`Yields` says which tables come out in the end. A line that is read goes in front of what is left
(`Yields.line`), so the entries of a table, a table and all tables are each an induction from the
last line to the first (`yields_entries`, `yields_table`, `yields_tables`).
-/

namespace StackSynth.Toml

/-! ## Keys -/

/-- A key that needs no quotes. -/
structure IsKey (key : String) : Prop where
  ne_nil : key.toList ≠ []
  all : ∀ c ∈ key.toList, isKeyChar c = true

instance (key : String) : Decidable (IsKey key) :=
  decidable_of_iff (key.toList ≠ [] ∧ key.toList.all isKeyChar = true)
    ⟨fun h ↦ ⟨h.1, List.all_eq_true.mp h.2⟩, fun h ↦ ⟨h.ne_nil, List.all_eq_true.mpr h.all⟩⟩

/-- No character of a key means anything else. -/
theorem ne_of_isKeyChar {c d : Char} (hc : isKeyChar c = true) (hd : isKeyChar d = false) :
    c ≠ d := by
  rintro rfl
  rw [hc] at hd
  cases hd

section Keys

variable {name : String} {rest rest' : List Char} {c : Char} {fuel : Nat}

/-- A key is read up to what follows it. -/
theorem keyPart_isKey (h : IsKey name) (hstop : ∀ c, rest.head? = some c → isKeyChar c = false) :
    keyPart (name.toList ++ rest) = some (name, rest) := by
  have htake : (name.toList ++ rest).takeWhile isKeyChar = name.toList := by
    rw [List.takeWhile_append_of_pos h.all]
    rcases rest with _ | ⟨c, rest⟩
    · exact List.append_nil _
    · rw [List.takeWhile_cons, hstop c rfl, if_neg Bool.false_ne_true, List.append_nil]
  obtain ⟨c, cs, hname⟩ := List.exists_cons_of_ne_nil h.ne_nil
  have hc : isKeyChar c = true := h.all c (by rw [hname]; exact List.mem_cons_self)
  have hpeek : peek (name.toList ++ rest) = some (some c, name.toList ++ rest) := by
    rw [hname]
    rfl
  rw [keyPart, bind_eq hpeek]
  refine (congrFun (?_ : _ = fun cs ↦ let name := cs.takeWhile isKeyChar
    if name.isEmpty then none else some (String.ofList name, cs.drop name.length)) _).trans ?_
  · split
    next heq => exact absurd (Option.some.inj heq) (ne_of_isKeyChar hc rfl)
    next heq => exact absurd (Option.some.inj heq) (ne_of_isKeyChar hc rfl)
    next => rfl
  · dsimp only
    rw [htake, List.drop_left, String.ofList_toList, if_neg]
    rw [List.isEmpty_iff]
    exact h.ne_nil

theorem key_isKey (h : IsKey name) (hstop : ∀ c, rest.head? = some c → isKeyChar c = false)
    (hblanks : blanks rest = some ((), c :: rest')) (hpoint : c ≠ '.') :
    key (fuel + 1) (name.toList ++ rest) = some ([name], c :: rest') := by
  have hfirst : blanks (name.toList ++ rest) = some ((), name.toList ++ rest) := by
    obtain ⟨d, cs, hname⟩ := List.exists_cons_of_ne_nil h.ne_nil
    have hd : isKeyChar d = true := h.all d (by rw [hname]; exact List.mem_cons_self)
    rw [hname]
    exact blanks_cons (ne_of_isKeyChar hd rfl) (ne_of_isKeyChar hd rfl) _
  rw [key, bind_eq hfirst, bind_eq (keyPart_isKey h hstop), bind_eq hblanks,
    bind_eq (peek_cons c rest'), if_neg fun heq ↦ hpoint (Option.some.inj heq)]
  rfl

/-- An entry is read as its key and its value. -/
theorem entry_isKey (h : IsKey name) {depth : Nat} {v : Value} {text : List Char}
    (hv : Reads depth v text) (hfuel : text.length ≤ fuel + 1) (hends : Ends rest) :
    entry (value depth (fuel + 1)) (fuel + 1) (name.toList ++ ([' ', '=', ' '] ++ (text ++ rest)))
      = some (([], name, v), rest) := by
  have hkey : key (fuel + 1) (name.toList ++ ([' ', '=', ' '] ++ (text ++ rest))) =
      some ([name], '=' :: ' ' :: (text ++ rest)) := by
    refine key_isKey h ?_ rfl (by decide)
    intro c hc
    rw [← Option.some.inj hc]
    rfl
  have hblanks : blanks (' ' :: (text ++ rest)) = some ((), text ++ rest) := by
    obtain ⟨c, cs, rfl, hc, -⟩ := hv.solid
    rw [blanks_space]
    exact blanks_cons (by rintro rfl; cases hc) (by rintro rfl; cases hc) _
  rw [entry, bind_eq hkey]
  change (expect '=' >>= _) _ = _
  rw [bind_eq (expect_cons '=' _), bind_eq hblanks, bind_eq (hv.read hfuel hends)]
  rfl

end Keys

/-! ## Tables -/

namespace Node

variable {done inner : Entries} {name key : String} {v : Value}

/-- A table behind entries of other names. -/
def behind (done : Entries) (name : String) (inner : Entries) : Entries :=
  done ++ [(name, .table .header inner)]

theorem lookup_eq_none (h : name ∉ done.map Prod.fst) : done.lookup name = none := by
  rw [List.lookup_eq_none_iff]
  intro entry hentry
  rw [bne_iff_ne]
  rintro rfl
  exact h (List.mem_map_of_mem hentry)

theorem openTable_new (h : name ∉ done.map Prod.fst) :
    openTable [] name done = some (behind done name []) := by
  rw [openTable, edit, lookup_eq_none h]
  rfl

theorem lookup_behind (h : name ∉ done.map Prod.fst) :
    (behind done name inner).lookup name = some (.table .header inner) := by
  rw [behind, List.lookup_append, lookup_eq_none h]
  simp

theorem put_behind (h : name ∉ done.map Prod.fst) (inner' : Entries) :
    put (behind done name inner) name (.table .header inner') = behind done name inner' := by
  rw [put, if_pos (by simp [behind]), behind, List.map_append,
    List.map_congr_left (l := done) (g := id), List.map_id]
  · simp [behind]
  · intro entry hentry
    refine if_neg ?_
    rintro rfl
    exact h (List.mem_map_of_mem hentry)

/-- An entry of a new key is written behind the others. -/
theorem write_behind (hname : name ∉ done.map Prod.fst) (hkey : key ∉ inner.map Prod.fst) :
    write [name] [] key v (behind done name inner) =
      some (behind done name (inner ++ [(key, .value v)])) := by
  have hadd : add key (.value v) inner = some (inner ++ [(key, .value v)]) := by
    rw [add, if_neg]
    simpa using hkey
  rw [write, edit, lookup_behind hname]
  change (do return put _ name (.table .header (← add key (.value v) inner))) = _
  rw [hadd]
  exact congrArg some (put_behind hname _)

end Node

/-! ## Lines -/

section Lines

variable {name : String} {rest : List Char} {p : Progress} {size : Nat}

/-- An empty line changes nothing. -/
theorem line_empty (size : Nat) (p : Progress) (rest : List Char) :
    line size p ('\n' :: rest) = some (p, rest) := by
  rw [line, bind_eq (blanks_cons (by decide) (by decide) rest), bind_eq (peek_cons '\n' rest)]
  change (endLine >>= _) _ = _
  rw [bind_eq (endLine_lineFeed rest)]
  rfl

/-- A header opens a table. -/
theorem line_header (h : IsKey name) (hnew : name ∉ p.root.map Prod.fst) :
    line (size + 1) p ('[' :: (name.toList ++ ']' :: '\n' :: rest)) =
      some (⟨[name], Node.behind p.root name []⟩, rest) := by
  have hkey : key (size + 1) (name.toList ++ ']' :: '\n' :: rest) =
      some ([name], ']' :: '\n' :: rest) := by
    refine key_isKey h ?_ (blanks_cons (by decide) (by decide) _) (by decide)
    intro c hc
    rw [← Option.some.inj hc]
    rfl
  obtain ⟨c, cs, hname⟩ := List.exists_cons_of_ne_nil h.ne_nil
  have hc : isKeyChar c = true := h.all c (by rw [hname]; exact List.mem_cons_self)
  have hpeek : peek (name.toList ++ ']' :: '\n' :: rest) =
      some (some c, name.toList ++ ']' :: '\n' :: rest) := by
    rw [hname]
    rfl
  have harray : some c ≠ some '[' := fun heq ↦ ne_of_isKeyChar hc rfl (Option.some.inj heq)
  rw [line, bind_eq (blanks_cons (by decide) (by decide) _), bind_eq (peek_cons '[' _)]
  change headerLine (size + 1) p _ = _
  rw [headerLine, bind_eq (expect_cons '[' _), bind_eq hpeek]
  simp only [if_neg harray]
  rw [bind_eq hkey, bind_eq (expect_cons ']' _), bind_eq (endLine_lineFeed rest)]
  have hsplit : splitKey [name] = some ([], name) := rfl
  simp only [hsplit, Node.openTable_new hnew]
  rfl

/-- An entry goes into the table of the last header. -/
theorem line_entry (h : IsKey name) {v : Value} {text : List Char} (hv : Reads maxDepth v text)
    (hsize : text.length ≤ size + 1) {root : Node.Entries}
    (hroot : Node.write p.header [] name v p.root = some root) :
    line (size + 1) p (name.toList ++ ([' ', '=', ' '] ++ (text ++ '\n' :: rest))) =
      some ({ p with root }, rest) := by
  have hentry := entry_isKey h hv hsize ⟨'\n', rest, rfl, Or.inl rfl⟩
  obtain ⟨c, cs, hname⟩ := List.exists_cons_of_ne_nil h.ne_nil
  have hc : isKeyChar c = true := h.all c (by rw [hname]; exact List.mem_cons_self)
  rw [hname, List.cons_append] at hentry ⊢
  rw [line, bind_eq (blanks_cons (ne_of_isKeyChar hc rfl) (ne_of_isKeyChar hc rfl) _),
    bind_eq (peek_cons c _)]
  refine (congrFun (?_ : _ = entryLine (size + 1) p) _).trans ?_
  · split
    next heq => cases heq
    next heq => exact absurd (Option.some.inj heq) (ne_of_isKeyChar hc rfl)
    next heq => exact absurd (Option.some.inj heq) (ne_of_isKeyChar hc rfl)
    next heq => exact absurd (Option.some.inj heq) (ne_of_isKeyChar hc rfl)
    next heq => exact absurd (Option.some.inj heq) (ne_of_isKeyChar hc rfl)
    next => rfl
  · rw [entryLine, bind_eq hentry]
    change (endLine >>= _) _ = _
    rw [bind_eq (endLine_lineFeed rest), hroot]
    rfl

end Lines

/-! ## Documents -/

/-- What is left of a document adds up to its tables. Every character is fuel enough for a line. -/
def Yields (size : Nat) (p : Progress) (cs : List Char) (root : Node.Entries) : Prop :=
  ∀ fuel, cs.length ≤ fuel → document size fuel p cs = some root

namespace Yields

variable {size : Nat} {p p' : Progress} {root : Node.Entries} {text rest : List Char}

theorem nil : Yields size p [] p.root := fun fuel _ ↦ by rw [document]

/-- A line is read, and then the lines behind it are. -/
theorem line (hline : Toml.line size p (text ++ rest) = some (p', rest)) (hne : text ≠ [])
    (h : Yields size p' rest root) : Yields size p (text ++ rest) root := by
  intro fuel hfuel
  obtain ⟨c, text, rfl⟩ := List.exists_cons_of_ne_nil hne
  rw [List.cons_append, List.length_cons, List.length_append] at hfuel
  obtain ⟨fuel, rfl⟩ : ∃ n, fuel = n + 1 := ⟨fuel - 1, by omega⟩
  rw [List.cons_append] at hline ⊢
  rw [document, hline, Option.bind_some]
  · exact h fuel (by omega)
  · intro heq
    cases heq

end Yields

/-- A line that writes an entry. -/
def WritesEntry (entry : String × Value) (line : String) : Prop :=
  ∃ text, line = entry.1 ++ " = " ++ text ++ "\n" ∧ IsKey entry.1 ∧
    Reads maxDepth entry.2 text.toList

theorem exists_writesEntry {table : Table}
    (h : ∀ entry ∈ table, IsKey entry.1 ∧ ReadBack maxDepth entry.2) :
    ∃ lines, (table.mapM fun (key, v) ↦ do return key ++ " = " ++ (← writeValue v) ++ "\n")
      = some lines ∧ List.Forall₂ WritesEntry table lines := by
  induction table with
  | nil => exact ⟨[], rfl, .nil⟩
  | cons entry table ih =>
    obtain ⟨key, v⟩ := entry
    obtain ⟨hkey, text, hwrite, hread⟩ := h (key, v) List.mem_cons_self
    obtain ⟨lines, hlines, hwrites⟩ := ih fun entry hentry ↦ h entry (List.mem_cons_of_mem _ hentry)
    refine ⟨_, ?_, .cons ⟨text, rfl, hkey, hread⟩ hwrites⟩
    rw [List.mapM_cons, hlines]
    change ((writeValue v).bind _).bind _ = _
    rw [hwrite]
    rfl

/-- A value as part of a table that may still grow. -/
def leaf (entry : String × Value) : String × Node := (entry.1, .value entry.2)

section Lines

variable {size : Nat} {name : String} {done root : Node.Entries} {rest : List Char}

/-- Entries go into the table of the last header one behind the other. -/
theorem yields_entries {table : Table} {lines : List String}
    (h : List.Forall₂ WritesEntry table lines) (hname : name ∉ done.map Prod.fst)
    {inner : Node.Entries} (hkeys : (inner.map Prod.fst ++ table.map Prod.fst).Nodup)
    (hsize : (lines.flatMap String.toList).length ≤ size + 1)
    (hrest : Yields (size + 1) ⟨[name], Node.behind done name (inner ++ table.map leaf)⟩ rest
      root) :
    Yields (size + 1) ⟨[name], Node.behind done name inner⟩ (lines.flatMap String.toList ++ rest)
      root := by
  induction h generalizing inner with
  | nil => simpa using hrest
  | @cons entry line table lines hentry _ ih =>
    obtain ⟨key, v⟩ := entry
    obtain ⟨text, rfl, hkey, hread⟩ := hentry
    have hline : (key ++ " = " ++ text ++ "\n").toList =
        key.toList ++ ([' ', '=', ' '] ++ (text.toList ++ ['\n'])) := by
      simp
    rw [List.flatMap_cons, List.length_append, hline] at hsize
    rw [List.flatMap_cons, hline]
    have hnew : key ∉ inner.map Prod.fst := fun hmem ↦
      (List.nodup_append.mp hkeys).2.2 key hmem key List.mem_cons_self rfl
    have hread' : Toml.line (size + 1) ⟨[name], Node.behind done name inner⟩
        ((key.toList ++ ([' ', '=', ' '] ++ (text.toList ++ ['\n'])))
          ++ (lines.flatMap String.toList ++ rest)) =
        some (⟨[name], Node.behind done name (inner ++ [leaf (key, v)])⟩,
          lines.flatMap String.toList ++ rest) := by
      simp only [List.append_assoc, List.singleton_append]
      refine line_entry hkey hread ?_ (Node.write_behind hname hnew)
      simp only [List.length_append] at hsize
      omega
    rw [List.append_assoc]
    refine .line hread' (by simp) (ih ?_ (by omega) ?_)
    · simpa [leaf, List.append_assoc] using hkeys
    · simpa [List.append_assoc] using hrest

/-- A text that writes a table. -/
def WritesTable (entry : String × Table) (text : String) : Prop :=
  ∃ lines, text = "[" ++ entry.1 ++ "]\n" ++ String.join lines ∧ IsKey entry.1 ∧
    List.Forall₂ WritesEntry entry.2 lines ∧ (entry.2.map Prod.fst).Nodup

/-- A table as part of a document of which more may be read. -/
def grown (entry : String × Table) : String × Node := (entry.1, .table .header (entry.2.map leaf))

theorem yields_table {entry : String × Table} {text : String} (h : WritesTable entry text)
    (hname : entry.1 ∉ done.map Prod.fst) (hsize : text.toList.length ≤ size + 1)
    (hrest : Yields (size + 1) ⟨[entry.1], done ++ [grown entry]⟩ rest root)
    (header : List String) :
    Yields (size + 1) ⟨header, done⟩ (text.toList ++ rest) root := by
  obtain ⟨lines, rfl, hkey, hentries, hkeys⟩ := h
  have htext : ("[" ++ entry.1 ++ "]\n" ++ String.join lines).toList =
      '[' :: (entry.1.toList ++ [']', '\n']) ++ lines.flatMap String.toList := by
    simp
  rw [htext, List.length_append] at hsize
  rw [htext, List.append_assoc]
  have hbody : Yields (size + 1) ⟨[entry.1], Node.behind done entry.1 []⟩
      (lines.flatMap String.toList ++ rest) root :=
    yields_entries hentries hname hkeys (by omega) hrest
  refine .line ?_ (List.cons_ne_nil _ _) hbody
  rw [List.cons_append, List.append_assoc]
  exact line_header hkey hname

/-- Tables go into a document one behind the other. -/
theorem yields_tables {tables : List (String × Table)} {texts : List String}
    (h : List.Forall₂ WritesTable tables texts)
    (hnames : (done.map Prod.fst ++ tables.map Prod.fst).Nodup)
    (hsize : ∀ text ∈ texts, text.toList.length ≤ size + 1) (header : List String) :
    Yields (size + 1) ⟨header, done⟩ (texts.flatMap fun text ↦ '\n' :: text.toList)
      (done ++ tables.map grown) := by
  induction h generalizing done header with
  | nil => simpa using Yields.nil
  | @cons entry text tables texts hentry _ ih =>
    have hname : entry.1 ∉ done.map Prod.fst := fun hmem ↦
      (List.nodup_append.mp hnames).2.2 _ hmem _ List.mem_cons_self rfl
    have hrest : Yields (size + 1) ⟨[entry.1], done ++ [grown entry]⟩
        (texts.flatMap fun text ↦ '\n' :: text.toList)
        ((done ++ [grown entry]) ++ tables.map grown) :=
      ih (by simpa [grown] using hnames) (fun t ht ↦ hsize t (List.mem_cons_of_mem _ ht)) _
    rw [List.append_assoc] at hrest
    have hbody := yields_table hentry hname (hsize text List.mem_cons_self) hrest header
    rw [List.flatMap_cons, List.cons_append]
    exact .line (line_empty _ _ _) (List.cons_ne_nil '\n' []) hbody

end Lines

/-! ## Reading what is written -/

theorem finishEntries_leaf (table : Table) : Node.finishEntries (table.map leaf) = table := by
  induction table with
  | nil => rfl
  | cons entry table ih =>
    rw [List.map_cons, leaf, Node.finishEntries, ih, Node.finish]

theorem finishEntries_grown (tables : List (String × Table)) :
    Node.finishEntries (tables.map grown) =
      tables.map fun entry ↦ (entry.1, Value.table entry.2) := by
  induction tables with
  | nil => rfl
  | cons entry tables ih =>
    rw [List.map_cons, List.map_cons, grown, Node.finishEntries, ih, Node.finish,
      finishEntries_leaf]

/-- A table that can be written and read back: keys that need no quotes, none of them twice, and
values that are read back. -/
structure IsReadBack (table : Table) : Prop where
  entries : ∀ entry ∈ table, IsKey entry.1 ∧ ReadBack maxDepth entry.2
  nodup : (table.map Prod.fst).Nodup

theorem exists_writesTable {tables : List (String × Table)}
    (h : ∀ entry ∈ tables, IsKey entry.1 ∧ IsReadBack entry.2) :
    ∃ texts, (tables.mapM fun (name, table) ↦ writeTable name table) = some texts ∧
      List.Forall₂ WritesTable tables texts := by
  induction tables with
  | nil => exact ⟨[], rfl, .nil⟩
  | cons entry tables ih =>
    obtain ⟨name, table⟩ := entry
    obtain ⟨hkey, hentries, hnodup⟩ := h (name, table) List.mem_cons_self
    obtain ⟨lines, hlines, hwrites⟩ := exists_writesEntry hentries
    obtain ⟨texts, htexts, htables⟩ := ih fun entry hentry ↦ h entry (List.mem_cons_of_mem _ hentry)
    refine ⟨_, ?_, .cons ⟨lines, rfl, hkey, hwrites, hnodup⟩ htables⟩
    rw [List.mapM_cons, htexts]
    change (writeTable name table).bind _ = _
    rw [writeTable, hlines]
    rfl

theorem toList_intercalate_cons (text : String) (texts : List String) :
    ("\n".intercalate (text :: texts)).toList =
      text.toList ++ texts.flatMap fun text ↦ '\n' :: text.toList := by
  rw [String.toList_intercalate, List.map_cons]
  induction texts generalizing text with
  | nil => simp
  | cons text' texts ih =>
    rw [List.map_cons, List.intercalate_cons_cons, ih, List.flatMap_cons, List.append_assoc]
    rfl

/-- A text without a byte order mark is read from its first character on. -/
theorem read?_of_yields {text : String} {root : Node.Entries}
    (hmark : text.toList.head? ≠ some '\ufeff')
    (h : Yields (text.toList.length + 1) ⟨[], []⟩ text.toList root) :
    read? text = some (Node.finishEntries root) := by
  have hdocument := h (text.toList.length + 1) (Nat.le_succ _)
  rw [read?]
  split
  next cs heq =>
    rw [heq] at hmark
    exact absurd rfl hmark
  next => rw [hdocument, Option.map_some]

/-- **A document is read back from what is written of it.** -/
theorem exists_writeTables {tables : List (String × Table)}
    (h : ∀ entry ∈ tables, IsKey entry.1 ∧ IsReadBack entry.2)
    (hnames : (tables.map Prod.fst).Nodup) :
    ∃ text, writeTables tables = some text ∧
      read? text = some (tables.map fun entry ↦ (entry.1, Value.table entry.2)) := by
  obtain ⟨texts, htexts, hwrites⟩ := exists_writesTable h
  refine ⟨"\n".intercalate texts, by rw [writeTables, htexts]; rfl, ?_⟩
  rcases hwrites with _ | @⟨entry, text, tables, texts, hentry, hwrites⟩
  · rfl
  have hcs := toList_intercalate_cons text texts
  have hsize : ∀ t ∈ text :: texts,
      t.toList.length ≤ ("\n".intercalate (text :: texts)).toList.length + 1 := by
    intro t ht
    rw [hcs, List.length_append]
    rcases List.mem_cons.mp ht with rfl | ht
    · omega
    · have hpart : ('\n' :: t.toList).Sublist (texts.flatMap fun text ↦ '\n' :: text.toList) :=
        List.sublist_flatten_of_mem (List.mem_map_of_mem ht)
      have hle := hpart.length_le
      rw [List.length_cons] at hle
      omega
  have hrest : Yields (("\n".intercalate (text :: texts)).toList.length + 1)
      ⟨[entry.1], [grown entry]⟩ (texts.flatMap fun text ↦ '\n' :: text.toList)
      ([grown entry] ++ tables.map grown) :=
    yields_tables hwrites (by simpa [grown] using hnames)
      (fun t ht ↦ hsize t (List.mem_cons_of_mem _ ht)) _
  have hyields : Yields (("\n".intercalate (text :: texts)).toList.length + 1) ⟨[], []⟩
      (text.toList ++ texts.flatMap fun text ↦ '\n' :: text.toList)
      ([grown entry] ++ tables.map grown) :=
    yields_table hentry List.not_mem_nil (hsize text List.mem_cons_self) hrest []
  rw [← hcs] at hyields
  rw [read?_of_yields ?_ hyields, ← finishEntries_grown]
  · rfl
  · obtain ⟨lines, rfl, -⟩ := hentry
    rw [hcs]
    simp

end StackSynth.Toml
