import StackSynth.Storage.Folder

/-!
# Watching a file

A watcher remembers the stamp of the last modification of a file and tells whether it has changed
since. A file that is missing has not changed, because files are often replaced by being removed and
written anew.
-/

namespace StackSynth

/-- A file and its last known stamp. -/
structure Watcher where
  path : String
  last : Option Nat
  deriving DecidableEq, Repr

namespace Watcher

/-- A watcher that knows the file as it is. -/
def new (folder : Folder) (path : String) : Watcher := ⟨path, folder.modified? path⟩

/-- Whether the file has changed since the last answer. -/
def changed (w : Watcher) (folder : Folder) : Bool × Watcher :=
  match folder.modified? w.path with
  | some stamp => if some stamp = w.last then (false, w) else (true, { w with last := some stamp })
  | none => (false, w)

end Watcher

end StackSynth
