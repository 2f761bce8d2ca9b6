import Amend.Text.Caseless
import Amend.Text.Cut

/-!
# Declarations

What the project index knows of a class, trait, enum or interface: its full name, its
parent, the traits it uses and its methods.  Names of declarations are compared by their
`key`, which leaves out leading backslashes and the case of letters.
-/

namespace Amend

/-- A method of a declaration. -/
structure Member where
  name : String
  isStatic : Bool
deriving DecidableEq, Repr

/-- A class-like declaration under its full name. -/
structure Declaration where
  name : String
  parent : Option String := none
  traits : List String := []
  members : List Member := []
deriving DecidableEq, Repr

/-- One spelling for all spellings of a name: no leading backslashes, small letters. -/
def key (name : String) : String := Text.fold (Text.trimStart '\\' name)

/-- The first method of a declaration with a name, its letter case aside. -/
def Declaration.member? (d : Declaration) (name : String) : Option Member :=
  d.members.find? (Text.sameFolded ·.name name)

end Amend
