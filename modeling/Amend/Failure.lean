import Amend.Disk.OsError

/-!
# Failures

What can go wrong in the library, told apart by cause.  `Failure.message` is the one place
where a failure is put into words.
-/

namespace Amend

/-- A reason for which an operation of the library fails. -/
inductive Failure where
  /-- A root of discovery is neither an existing file nor an existing directory. -/
  | invalidRoot (path : String)
  /-- A text could not be read into a syntax tree. -/
  | parse (path reason : String)
  /-- No tree is to be had for a text. -/
  | frontend (reason : String)
  /-- A settings file that was named does not give settings. -/
  | configuration (reason : String)
  /-- An enabled rule does not exist. -/
  | unknownRule (name : String) (available : List String)
  /-- A file could not be made. -/
  | fileSystem (reason : String) (path : Option String) (cause : Option OsError)
  /-- Reading or writing failed half way. -/
  | io (reason : String)
  /-- A value could not be written as JSON. -/
  | json (reason : String)
deriving DecidableEq, Repr

namespace Failure

def message : Failure → String
  | invalidRoot path => s!"Invalid source root: {path} is neither a file nor a directory"
  | parse path reason => s!"Parse error in {path}: {reason}"
  | frontend reason => s!"Frontend error: {reason}"
  | configuration reason => s!"Configuration error: {reason}"
  | unknownRule name available =>
    s!"Unknown rule '" ++ name ++ "' (available: " ++ String.intercalate ", " available ++ ")"
  | fileSystem reason _ _ => s!"File system error: {reason}"
  | io reason => reason
  | json reason => reason

/-- The texts of a failure and of what caused it, outermost first. -/
def chain (f : Failure) : List String :=
  match f with
  | fileSystem _ _ (some cause) => [f.message, cause.message]
  | _ => [f.message]

end Failure

end Amend
