import StackSynth.Engine.Basic
import StackSynth.Language.Excerpt
import StackSynth.Session.Failure
import StackSynth.Storage.Folder

/-!
# Programs in files

A program file is built into an engine whenever somebody asks for it. If the file cannot be read or
does not compile, the engine stays as it was.
-/

namespace StackSynth

/-- Why a program file is not built. -/
inductive ReloadError where
  /-- The operating system refuses to read it. -/
  | unreadable (path : String) (error : OsError)
  /-- It does not compile. -/
  | rejected (source : List UInt8) (error : CompileError)

/-- A reload error as the failure of a command. A compile error shows the line it points into. -/
def ReloadError.failure : ReloadError → Failure
  | .unreadable path e => ⟨s!"failed to read program '{path}'", some e.message⟩
  | .rejected source e => ⟨e.excerpt source, none⟩

/-- Builds the program in a file. -/
def Engine.reload {σ : Type} (folder : Folder) (path : String) (e : Engine σ) :
    Except ReloadError (BuildReport × Engine σ) :=
  match folder.read path with
  | .error error => .error (.unreadable path error)
  | .ok content =>
    (e.buildBytes content.toList).mapError (.rejected content.toList)

end StackSynth
