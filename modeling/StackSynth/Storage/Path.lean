/-!
# Path names

A path is a text whose components are separated by slashes. Empty components and components that are
a single point mean nothing, so the last component of `a/b/.` is `b`; a component of two points
leads back and names nothing itself.

A file name is split at its last point, unless that is its first character: then the name has no
extension.
-/

namespace StackSynth.Path

/-- The components of a path that mean something. -/
def components (path : String) : List String :=
  (path.splitOn "/").filter fun part => part ≠ "" && part ≠ "."

/-- Whether a path starts at the root. -/
def isAbsolute (path : String) : Bool := path.toList.head? = some '/'

/-- Whether a path can only name a directory, by the way it ends. -/
def mustBeDirectory (path : String) : Bool :=
  match (path.splitOn "/").reverse with
  | last :: _ :: _ => last = "" || last = "."
  | _ => false

/-- The name of what a path leads to. -/
def fileName? (path : String) : Option String :=
  match (components path).getLast? with
  | some ".." | none => none
  | some name => some name

/-- A file name before and behind its last point; without an extension there is nothing behind. -/
def splitName (name : String) : String × Option String :=
  let back := name.toList.reverse
  let extension := back.takeWhile (· ≠ '.')
  match back.drop extension.length with
  | '.' :: c :: stem => (String.ofList (c :: stem).reverse, some (String.ofList extension.reverse))
  | _ => (name, none)

/-- The file name without its extension. -/
def stem? (path : String) : Option String := (fileName? path).map fun name => (splitName name).1

/-- The extension of the file name. -/
def extension? (path : String) : Option String :=
  (fileName? path).bind fun name => (splitName name).2

/-- A relative path appended to another path. -/
def join (path rest : String) : String :=
  if path.isEmpty || path.toList.getLast? = some '/' then path ++ rest else path ++ "/" ++ rest

/-- Drops the parts at the front of a split path that mean nothing. -/
def trimFront (parts : List String) : List String :=
  parts.dropWhile fun part => part = "" || part = "."

/-- The parts of a split path behind which nothing is meant. -/
def trimBack (parts : List String) : List String := (trimFront parts.reverse).reverse

/-- The path of the directory that holds what a path leads to; empty for a bare name, and nothing
for the root. -/
def parent? (path : String) : Option String :=
  match (trimBack (path.splitOn "/")).reverse with
  | [] => if isAbsolute path then none else if path = "" then none else some ""
  | _ :: rest =>
    match trimBack rest.reverse with
    | [] => some (if isAbsolute path then "/" else if rest.getLast? = some "." then "." else "")
    | parts => some ("/".intercalate parts)

/-- A path whose first component is a tilde, with the home directory in its place. -/
def expandHome (home path : String) : String :=
  match path.splitOn "/" with
  | "~" :: rest => join home ("/".intercalate (trimBack (trimFront rest)))
  | _ => path

end StackSynth.Path
