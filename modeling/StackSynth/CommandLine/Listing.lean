import StackSynth.CommandLine.Setup

/-!
# Commands that list something

`check` tells what a program consists of, `words` lists what programs can use, and `devices` lists
where sound can be played. None of them runs a program.
-/

namespace StackSynth

/-- Lines, each with its end. -/
def unlines (lines : List String) : String := String.join (lines.map (· ++ "\n"))

/-! ## `check` -/

/-- What `check` prints. -/
def CheckArguments.run (a : CheckArguments) (w : Workplace) : Attempt String := do
  let e ← a.engine.engine w
  let (report, _) ← e.attemptReload w.folder a.program
  return unlines (s!"{a.program}: ok, {report.instructions} instruction(s)" ::
    if report.definitions.isEmpty then []
    else ["defines: " ++ " ".intercalate report.definitions])

/-! ## `words` -/

/-- A character inside a JSON string. -/
private def jsonChar (c : Char) : String :=
  if c = '"' then "\\\""
  else if c = '\\' then "\\\\"
  else if c = '\n' then "\\n"
  else if c = '\r' then "\\r"
  else if c = '\t' then "\\t"
  else if c = '\x08' then "\\b"
  else if c = '\x0c' then "\\f"
  else if c < ' ' then
    let hex := Nat.toDigits 16 c.toNat
    "\\u" ++ "".pushn '0' (4 - hex.length) ++ String.ofList hex
  else c.toString

/-- A JSON string. -/
def jsonText (s : String) : String := "\"" ++ String.join (s.toList.map jsonChar) ++ "\""

/-- Words as JSON: a list of objects, one field to a line. -/
def jsonWords (words : List (String × OperationKind)) : String :=
  if words.isEmpty then "[]"
  else
    let object (word : String × OperationKind) : String :=
      "  \x7b\n    \"name\": " ++ jsonText word.1 ++ ",\n    \"kind\": " ++ jsonText word.2.text
        ++ "\n  \x7d"
    "[\n" ++ ",\n".intercalate (words.map object) ++ "\n]"

/-- Words as a table with their number below. The column of names is as wide as the longest name has
bytes. -/
def wordTable (words : List (String × OperationKind)) : String :=
  let width := words.foldl (fun most word => max most word.1.utf8ByteSize) 0
  let row (word : String × OperationKind) : String :=
    "  " ++ word.1.pushn ' ' (width - word.1.length) ++ "  " ++ word.2.text
  unlines (words.map row ++ ["", s!"{words.length} word(s)"])

/-- What `words` prints. -/
def WordsArguments.run (a : WordsArguments) (w : Workplace) : Attempt String := do
  let e ← a.engine.engine w
  let e ← match a.program with
    | none => pure e
    | some path => Prod.snd <$> e.attemptReload w.folder path
  let words := e.dictionary.listing
  return if a.json then jsonWords words ++ "\n" else wordTable words

/-! ## `devices` -/

/-- A device as a line of the list. -/
def deviceLine (info : DeviceInfo) (i : Nat) : String :=
  s!"  [{i}] {info.name} ({info.format.channels} ch, {info.format.rate} Hz)"
    ++ if info.isDefault then " (default)" else ""

/-- What `devices` prints. -/
def AudioMachine.report (m : AudioMachine) : String :=
  match m.listing with
  | [] => unlines ["No audio output devices found."]
  | devices =>
    unlines (["Default output: " ++ AudioMachine.defaultName, "", "Output Devices:"]
      ++ (devices.zipIdx.map fun (info, i) => deviceLine info i)
      ++ ["", "Tip: pass an index or part of a name with --output-device:",
          "  forthwave play patch.fw --output-device 0"])

end StackSynth
