import Amend.Index.Project
import Amend.Php.Resolution

/-!
# The declarations of a file

The class-like declarations of a tree whose names have been resolved, in the order in which
they stand in the file.
-/

namespace Amend.Php

/-- Whether a method is static. -/
def isStaticMethod (method : Node) : Bool :=
  method.children.any fun c =>
    c.kind == staticModifier || c.tokenText.any (Text.sameFolded · "static")

/-- The methods in the body of a declaration. -/
def methodsOf (declaration : Node) : List Member :=
  match declaration.childByField "body" with
  | none => []
  | some body =>
    (body.children.filter (·.kind == methodDeclaration)).filterMap fun method =>
      (method.childByField "name").map fun n => ⟨n.text, isStaticMethod method⟩

/-- The traits recorded on a declaration. -/
def recordedTraits (declaration : Node) : List String :=
  match declaration.recorded traitNamesKey with
  | none => []
  | some traits => (Text.splitOn ',' traits).filter (· ≠ "")

/-- What a node declares, if it is class-like and has a name. -/
def declarationOf (n : Node) : Option Declaration :=
  if isClassLike n.kind then
    n.declaredName.map fun declared =>
      { name := declared
        parent := n.recorded parentNameKey
        traits := recordedTraits n
        members := methodsOf n }
  else none

/-- The declarations of a tree in the order in which they stand in it. -/
def declarationsOf (root : Node) : List Declaration := root.descendants.filterMap declarationOf

/-- The index with the declarations of a tree. -/
def collect (index : ProjectIndex) (root : Node) : Logged ProjectIndex :=
  index.insertAll (declarationsOf root)

end Amend.Php
