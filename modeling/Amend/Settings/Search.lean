import Amend.Disk.Files
import Amend.Failure
import Amend.Settings.File

/-!
# Finding the settings

Without being told which file to use, the program looks for a settings file in the current
directory and in the directories above it.  A file that cannot be used is passed over with a
warning.  A file that was named has to be usable.
-/

namespace Amend.Settings

/-- The number of directories that are searched. -/
def searchDepth : Nat := 10

/-- The settings in a file, if there is such a file and it can be used. -/
def tryFile (d : Disk) (path : String) : Logged (Option Settings) :=
  match d.read path with
  | .error .notFound => return none
  | .error reason => do
    Logged.write .warn .settings s!"Failed to read config file {path}: {reason.message}"
    return none
  | .ok text => do
    match ← parse? text with
    | some s =>
      Logged.write .debug .settings s!"Loaded config from {path}"
      return some s
    | none =>
      Logged.write .warn .settings s!"{parseFailure}. Using defaults."
      return none

/-- The settings in the first file of a list that can be used. -/
def firstUsable (d : Disk) : List String → Logged (Option Settings)
  | [] => return none
  | path :: rest => do
    match ← tryFile d path with
    | some s => return some s
    | none => firstUsable d rest

/-- The settings files that concern a directory, nearest first. -/
def filesFor (directory : String) : List String :=
  (Path.ancestors searchDepth directory).map (Path.join · fileName)

/-- The settings for a directory. -/
def find (d : Disk) (directory : String) : Logged Settings := do
  match ← firstUsable d (filesFor directory) with
  | some s => return s
  | none =>
    Logged.write .debug .settings
      s!"No config found after checking {searchDepth} directories. Using default config."
    return {}

/-- The settings for the current directory. -/
def findHere (d : Disk) : Logged Settings := find d d.here.path

/-- The settings in a file that was named. -/
def load (d : Disk) (path : String) : ExceptT Failure Logged Settings := do
  match d.read path with
  | .error reason => throw (.configuration s!"Cannot read {path}: {reason.message}")
  | .ok text =>
    match ← (parse? text : Logged (Option Settings)) with
    | none => throw (.configuration s!"{parseFailure} ({path})")
    | some s =>
      (Logged.write .debug .settings s!"Loaded config from {path}" : Logged Unit)
      return s

end Amend.Settings
