import Amend.Php.Kinds
import Amend.Php.Scope
import Amend.Tree.Preorder

/-!
# Full names in a file

`resolveNames` goes through a tree and records on every named class-like declaration its
full name, the full name of its parent and those of the traits it uses, so that later
stages need not know of namespaces and imports.
-/

namespace Amend.Php

/-- The key of a declaration's parent. -/
def parentNameKey : String := "parent_name"

/-- The key of the traits that a declaration uses. -/
def traitNamesKey : String := "trait_names"

/-- Whether a node is a reference to a class. -/
def isClassReference (n : Node) : Bool := n.kind == name || n.kind == qualifiedName

/-- Whether a token is one of two keywords, letter case aside. -/
def isFunctionOrConst (n : Node) : Bool :=
  n.tokenText.any fun t => Text.sameFolded t "function" || Text.sameFolded t "const"

/-- Whether a node imports one name. -/
def isUseClause (n : Node) : Bool := n.kind == useClause || n.kind == useGroupClause

/-- The alias that a clause gives to what it imports. -/
def clauseAlias (clause : Node) : Option String :=
  ((clause.childByField "alias").map Node.text).or
    (((clause.childOfKind aliasingClause).bind (·.childOfKind name)).map Node.text)

/-- What a clause imports, as it is written there. -/
def clauseTarget (clause : Node) : Option Node :=
  clause.children.find? fun c => isClassReference c && c.field != some "alias"

/-- Import what a clause names, under the common first part of its group. -/
def importClause (group : Option String) (scope : Scope) (clause : Node) : Scope :=
  match clauseTarget clause with
  | none => scope
  | some target =>
    let target := match group with
      | some front => s!"{front}\\{target.text}"
      | none => target.text
    scope.addImport target (clauseAlias clause)

/-- Import the classes of a `use` statement; statements for functions and constants import
none. -/
def importStatement (scope : Scope) (statement : Node) : Scope :=
  if statement.children.any isFunctionOrConst then scope
  else
    let group := (statement.childOfKind namespaceName).map Node.text
    (statement.descendants.filter isUseClause).foldl (importClause group) scope

/-- The references to traits in the body of a declaration. -/
def traitReferences (declaration : Node) : List Node :=
  match declaration.childByField "body" with
  | none => []
  | some body =>
    (body.children.filter (·.kind == traitUse)).flatMap fun statement => statement.children.filter isClassReference

/-- The reference to the parent of a declaration. -/
def parentReference (declaration : Node) : Option Node :=
  (declaration.childOfKind baseClause).bind fun clause => clause.children.find? isClassReference

/-- Record the full names on a declaration. -/
def annotate (scope : Scope) (declaration : Node) : Node :=
  match declaration.childByField "name" with
  | none => declaration
  | some declared =>
    let named := declaration.withAttribute Node.qualifiedNameKey (scope.declare declared.text)
    let extended := match parentReference declaration with
      | some reference => named.withAttribute parentNameKey (scope.resolve reference.text)
      | none => named
    match (traitReferences declaration).map fun reference => scope.resolve reference.text with
    | [] => extended
    | traits => extended.withAttribute traitNamesKey (String.intercalate "," traits)

mutual

/-- Record the full names below a node, the scope being that before it; the result comes
with the scope after it. -/
def resolveBelow (scope : Scope) : Node → Node × Scope
  | .leaf tag text => (.leaf tag text, scope)
  | .branch tag children =>
    let (children, scope) := resolveSiblings scope children
    (.branch tag children, scope)

/-- Record the full names on siblings and below them.  A namespace with a body has a scope
of its own; one without opens the scope of what follows it. -/
def resolveSiblings (scope : Scope) : List Node → List Node × Scope
  | [] => ([], scope)
  | n :: rest =>
    if n.kind = namespaceDefinition then
      let space := ((n.childByField "name").map Node.text).getD ""
      if (n.childByField "body").isSome then
        let (inner, _) := resolveBelow (.entering space) n
        let (rest, scope) := resolveSiblings scope rest
        (inner :: rest, scope)
      else
        let (rest, scope) := resolveSiblings (.entering space) rest
        (n :: rest, scope)
    else if n.kind = useStatement then
      let (rest, scope) := resolveSiblings (importStatement scope n) rest
      (n :: rest, scope)
    else
      let tag := if isClassLike n.kind then (annotate scope n).tag else n.tag
      let (inner, scope) := resolveBelow scope n
      let (rest, scope) := resolveSiblings scope rest
      (inner.withTag tag :: rest, scope)

end

/-- Record the full names in the tree of a file. -/
def resolveNames (root : Node) : Node := (resolveBelow {} root).1

end Amend.Php
