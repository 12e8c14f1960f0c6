import StackSynth.Storage.Path
import StackSynth.Text.Utf8

/-!
# The files that a command sees

A `Folder` is the part of a file system that a command can reach: files with their bytes and
modification stamps, directories, and the place where the command works. Paths are resolved one
component at a time, so a path through something that is missing fails in another way than a path
through a file.

The directories above the working directory are always there, whether or not they are listed.
-/

namespace StackSynth

/-- Why the operating system refuses. -/
inductive OsError where
  | notFound
  | notDirectory
  | isDirectory
  deriving DecidableEq, Repr

/-- The text of a refusal. -/
def OsError.message : OsError → String
  | .notFound => "No such file or directory (os error 2)"
  | .notDirectory => "Not a directory (os error 20)"
  | .isDirectory => "Is a directory (os error 21)"

/-- Why a text cannot be read from a file. -/
inductive ReadError where
  | os (error : OsError)
  /-- The bytes encode no text. -/
  | encoding
  deriving DecidableEq, Repr

/-- The text of a failed read. -/
def ReadError.message : ReadError → String
  | .os e => e.message
  | .encoding => "stream did not contain valid UTF-8"

/-- What a path can lead to. -/
inductive Node where
  /-- A file, with its bytes and the stamp of its last modification. -/
  | file (content : Array UInt8) (modified : Nat)
  | directory

/-- Files and directories, and where a command works. -/
structure Folder where
  /-- The working directory, by components from the root. -/
  here : List String := []
  /-- What is known, by components from the root. -/
  nodes : List (List String × Node) := []

namespace Folder

/-- What stands at a place. -/
def node? (f : Folder) (place : List String) : Option Node :=
  if place.isPrefixOf f.here then some .directory
  else (f.nodes.find? fun (p, _) => p = place).map Prod.snd

/-- The place that a component leads to from a directory. Nothing is above the root. -/
def step (place : List String) (part : String) : List String :=
  if part = ".." then place.dropLast else place ++ [part]

/-- Follows components from a place. Every step starts from a directory. -/
def walk (f : Folder) (place : List String) : List String → Except OsError (List String)
  | [] => .ok place
  | part :: rest =>
    match f.node? place with
    | none => .error .notFound
    | some (.file _ _) => .error .notDirectory
    | some .directory => f.walk (step place part) rest

/-- The place where a path starts. -/
def start (f : Folder) (path : String) : List String := if Path.isAbsolute path then [] else f.here

/-- The place that a path means, whether or not something is there. -/
def locate (f : Folder) (path : String) : Except OsError (List String) :=
  if path = "" then .error .notFound else f.walk (f.start path) (Path.components path)

/-- What a path leads to. -/
def get (f : Folder) (path : String) : Except OsError Node := do
  match f.node? (← f.locate path) with
  | none => .error .notFound
  | some (.file content modified) =>
    if Path.mustBeDirectory path then .error .notDirectory else .ok (.file content modified)
  | some .directory => .ok .directory

/-- Whether a path leads to something. -/
def holds (f : Folder) (path : String) : Bool := (f.get path).toBool

/-- Whether a path leads to a file. -/
def isFile (f : Folder) (path : String) : Bool :=
  match f.get path with
  | .ok (.file _ _) => true
  | _ => false

/-- The bytes of a file. -/
def read (f : Folder) (path : String) : Except OsError (Array UInt8) := do
  match ← f.get path with
  | .file content _ => .ok content
  | .directory => .error .isDirectory

/-- The text of a file. -/
def readText (f : Folder) (path : String) : Except ReadError String :=
  match f.read path with
  | .error e => .error (.os e)
  | .ok bytes =>
    match Utf8.decode bytes.toList with
    | .ok text => .ok text
    | .error _ => .error .encoding

/-- The stamp of the last modification of what a path leads to. -/
def modified? (f : Folder) (path : String) : Option Nat :=
  match f.get path with
  | .ok (.file _ stamp) => some stamp
  | .ok .directory => some 0
  | .error _ => none

/-- The names of what a directory holds, sorted by their bytes. -/
def list (f : Folder) (path : String) : List String :=
  match f.locate path with
  | .error _ => []
  | .ok place =>
    let names := f.nodes.filterMap fun (p, _) =>
      if p ≠ [] && p.dropLast = place then p.getLast? else none
    names.mergeSort fun a b => !decide (b < a)

/-! ## Changes -/

/-- Puts a node at a place. -/
def put (f : Folder) (place : List String) (node : Node) : Folder :=
  { f with nodes := f.nodes.filter (fun (p, _) => p ≠ place) ++ [(place, node)] }

/-- Writes a file as a whole. The directory it goes into has to be there. -/
def write (f : Folder) (path : String) (content : Array UInt8) (stamp : Nat) :
    Except OsError Folder := do
  let place ← f.locate path
  match f.node? place with
  | some .directory => .error .isDirectory
  | some (.file _ _) =>
    if Path.mustBeDirectory path then .error .notDirectory
    else .ok (f.put place (.file content stamp))
  | none =>
    if Path.mustBeDirectory path then .error .isDirectory
    else .ok (f.put place (.file content stamp))

/-- Removes a file and says whether there was one. -/
def remove (f : Folder) (path : String) : Bool × Folder :=
  match f.get path, f.locate path with
  | .ok (.file _ _), .ok place => (true, { f with nodes := f.nodes.filter fun (p, _) => p ≠ place })
  | _, _ => (false, f)

/-- Makes the directories along components that start at a place, as far as they are missing. -/
private def makeFrom (f : Folder) (place : List String) : List String → Except OsError Folder
  | [] => .ok f
  | part :: rest =>
    let place := step place part
    match f.node? place with
    | some .directory => f.makeFrom place rest
    | some (.file _ _) => .error .notDirectory
    | none => (f.put place .directory).makeFrom place rest

/-- Makes a directory and the directories above it, as far as they are missing. -/
def makeDirectories (f : Folder) (path : String) : Except OsError Folder :=
  f.makeFrom (f.start path) (Path.components path)

end Folder

end StackSynth
