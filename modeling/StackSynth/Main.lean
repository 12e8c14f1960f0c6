import StackSynth.CommandLine.Files
import StackSynth.CommandLine.Run

/-!
# The command line

The program copies what a command line needs from the file system, runs the command on the copy, and
prints and writes what came of it. It knows no audio devices.
-/

namespace StackSynth

/-- What stands at a place of the file system. -/
def nodeAt (place : List String) : IO (Option Node) := do
  let path := (← IO.currentDir) / ("/" ++ "/".intercalate place)
  if ← path.isDir then return some .directory
  if !(← path.pathExists) then return none
  let modified := (← path.metadata).modified
  let stamp := modified.sec.toNat * 1000000000 + modified.nsec.toNat
  return some (.file (← IO.FS.readBinFile path).data stamp)

/-- Copies what stands along components. -/
def copyAlong (folder : Folder) (place : List String) : List String → IO Folder
  | [] => return folder
  | part :: rest => do
    let place := Folder.step place part
    match ← nodeAt place with
    | none => return folder
    | some node =>
      let known := place.isPrefixOf folder.here
      copyAlong (if known then folder else folder.put place node) place rest

/-- Copies what a path leads to. -/
def copyPath (folder : Folder) (path : String) : IO Folder :=
  copyAlong folder (folder.start path) (Path.components path)

/-- Copies what a path leads to, and the files in it if it is a directory. -/
def copySource (folder : Folder) (path : String) : IO Folder := do
  let folder ← copyPath folder path
  let some .directory := (folder.get path).toOption | return folder
  let entries ← ((← IO.currentDir) / path).readDir
  entries.foldlM (fun folder entry => copyPath folder (Path.join path entry.fileName)) folder

/-- Copies what an order needs. -/
def copyFor (order : Order) (w : Workplace) : IO Workplace := do
  let settings := order.engine?.map fun a => a.settingsFile w.home
  let paths := settings.toList ++ order.program?.toList ++ order.output?.toList
  let w := { w with folder := ← paths.foldlM copyPath w.folder }
  let sources := (order.engine?.map fun a => a.sources w).getD []
  return { w with folder := ← sources.foldlM copySource w.folder }

/-- Writes the file that a command wrote. -/
def writeBack (order : Order) (outcome : Outcome) : IO Unit := do
  let some path := order.output? | return
  if outcome.status = 0 then
    if let .ok bytes := outcome.folder.read path then
      IO.FS.writeBinFile ((← IO.currentDir) / path) ⟨bytes⟩

/-- Prints lines. -/
def printLines (lines : List String) : IO Unit := lines.forM fun line => IO.println line

/-- Logs events. -/
def logEvents (events : List Event) : IO Unit :=
  (events.flatMap (·.entry.lines)).forM fun line => IO.eprintln line

/-- Talks until the session is over or the console is closed. -/
partial def converse (folder : Folder) (session : Session) : IO Unit := do
  if session.isOver then return
  let line ← (← IO.getStdin).getLine
  let folder ← copyPath folder session.program
  let (answers, next) := if line.isEmpty then session.stop else session.hear folder line
  printLines answers
  logEvents (next.events.toList.drop session.events.size)
  converse folder next

end StackSynth

open StackSynth in
/-- Runs a command line. -/
def main (words : List String) : IO UInt32 := do
  let here := Path.components (← IO.currentDir).toString
  let home := (← IO.getEnv "HOME").getD "/"
  let mut w : Workplace := { folder := { here }, home }
  let order := (Order.parse words).toOption
  if let some order := order then
    w ← copyFor order w
  let (started, events) := runCommandLine words w
  logEvents events.toList
  match started with
  | .playing session =>
    IO.println session.greeting
    converse w.folder session
    return 0
  | .finished outcome =>
    if let some order := order then
      writeBack order outcome
    IO.print outcome.printed
    IO.eprint outcome.reported
    return outcome.status.toUInt32
