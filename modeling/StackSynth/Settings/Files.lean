import StackSynth.Settings.Document

/-!
# Settings in files

The settings of a user stand in one file below the home directory. A file that is not there means
the defaults, but only for this file: a file that is asked for by name has to be there.
-/

namespace StackSynth.Settings

/-- The directory of the settings file. -/
def directory (home : String) : String := Path.join (Path.join home ".config") "forthwave"

/-- The settings file. -/
def defaultFile (home : String) : String := Path.join (directory home) "config.toml"

/-- Loads settings. -/
def load (home : String) (folder : Folder) (path : String) : Except SettingsError Settings :=
  match folder.readText path with
  | .error e => .error (.unreadable path e)
  | .ok text => read home text

/-- Loads settings if the file is there. -/
def loadOrDefault (home : String) (folder : Folder) (path : String) :
    Except SettingsError Settings :=
  if folder.holds path then load home folder path else .ok {}

/-- Makes the directories above a file, as far as they are missing. -/
def makeRoom (folder : Folder) (path : String) : Except SettingsError Folder :=
  match Path.parent? path with
  | none => .ok folder
  | some parent =>
    if parent = "" || folder.holds parent then .ok folder
    else (folder.makeDirectories parent).mapError (.noDirectory parent)

/-- Saves settings. The directories above the file are made first, and stay even if the file is not
written. -/
def save (folder : Folder) (path : String) (s : Settings) (stamp : Nat) :
    Except SettingsError Unit × Folder :=
  match makeRoom folder path with
  | .error e => (.error e, folder)
  | .ok folder =>
    match s.write with
    | .error e => (.error e, folder)
    | .ok text =>
      match folder.write path (Utf8.encode text).toArray stamp with
      | .error e => (.error (.unwritable path e), folder)
      | .ok folder => (.ok (), folder)

end StackSynth.Settings
