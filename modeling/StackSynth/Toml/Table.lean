import StackSynth.Toml.Value

/-!
# Tables in the making

A table may be defined in pieces. A header `[a.b]` opens the table `b` of the table `a`, a header
`[[a.b]]` opens one more table of the array `b`, and a dotted key `a.b = 1` writes an entry of the
table `a` from outside. No piece may define again what an earlier one has defined: every header
opens a new table, unless earlier headers have only passed through it, and dotted keys extend only
tables that dotted keys have made.
-/

namespace StackSynth.Toml

/-- What has brought a table into being. -/
inductive Origin where
  /-- A header that names it, or an inline table. -/
  | header
  /-- A header that passes through it. -/
  | implied
  /-- A dotted key. -/
  | dotted
  deriving DecidableEq, Repr

/-- A value that may still grow. -/
inductive Node where
  | value (v : Value)
  | table (origin : Origin) (entries : List (String × Node))
  /-- An array of tables, the last one first. -/
  | tables (items : List (List (String × Node)))

namespace Node

/-- The entries of a table that may still grow. -/
abbrev Entries := List (String × Node)

/-- Writes an entry over the one of the same key, or behind all others. -/
def put (entries : Entries) (key : String) (node : Node) : Entries :=
  if entries.any fun (k, _) => k = key then
    entries.map fun (k, n) => if k = key then (k, node) else (k, n)
  else entries ++ [(key, node)]

/-- Edits the table that a path leads to; tables that are missing on the way come into being as
`missing`. -/
def edit (missing : Origin) (change : Origin → Entries → Option Entries) :
    List String → Origin → Entries → Option Entries
  | [], origin, entries => change origin entries
  | key :: path, _, entries =>
    match entries.lookup key with
    | none => do return put entries key (.table missing (← edit missing change path missing []))
    | some (.table origin inner) =>
      if missing = .dotted && origin = .header then none
      else do return put entries key (.table origin (← edit missing change path origin inner))
    | some (.tables (last :: earlier)) => do
      return put entries key (.tables ((← edit missing change path .header last) :: earlier))
    | _ => none

/-- Adds an entry that must not be there. -/
def add (key : String) (node : Node) (entries : Entries) : Option Entries :=
  if entries.any fun (k, _) => k = key then none else some (entries ++ [(key, node)])

/-- Writes a value into the table of a header, under a key that may be dotted. -/
def write (header path : List String) (key : String) (v : Value) (root : Entries) :
    Option Entries :=
  let inTable (origin : Origin) (entries : Entries) : Option Entries :=
    if path.isEmpty || origin = .dotted then add key (.value v) entries else none
  edit .implied (edit .dotted inTable path) header .header root

/-- Opens the table of a header. -/
def openTable (path : List String) (key : String) (root : Entries) : Option Entries :=
  edit .implied (fun _ entries =>
    match entries.lookup key with
    | none => some (entries ++ [(key, .table .header [])])
    | some (.table .implied inner) => some (put entries key (.table .header inner))
    | _ => none) path .header root

/-- Opens one more table of the array of a header. -/
def openItem (path : List String) (key : String) (root : Entries) : Option Entries :=
  edit .implied (fun _ entries =>
    match entries.lookup key with
    | none => some (entries ++ [(key, .tables [[]])])
    | some (.tables items) => some (put entries key (.tables ([] :: items)))
    | _ => none) path .header root

mutual

/-- The finished value. -/
def finish : Node → Value
  | .value v => v
  | .table _ entries => .table (finishEntries entries)
  | .tables items => .array (finishItems items [])

/-- The finished entries of a table. -/
def finishEntries : List (String × Node) → Table
  | [] => []
  | (key, node) :: rest => (key, node.finish) :: finishEntries rest

/-- The finished tables of an array in front of those in `later`. -/
def finishItems : List (List (String × Node)) → List Value → List Value
  | [], later => later
  | entries :: rest, later => finishItems rest (.table (finishEntries entries) :: later)

end

end Node

end StackSynth.Toml
