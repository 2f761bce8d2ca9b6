import Amend.Php.ParseTree
import Amend.Text.Cut

/-!
# Listed parse trees

A parser may hand over a tree as the list of its nodes, each before its children and with
their number.  A listing is read from its end: a node takes as many of the trees that follow
it as it has children.

As a text, a listing has one node to a line: the bytes that the node covers, its flags, the
number of its children, its field or a dash, and its kind, with blanks between them.
-/

namespace Amend

/-- A node of a listing: what a node is apart from its children, and how many it has. -/
structure ListedNode where
  kind : Kind
  start : Nat
  stop : Nat
  field : Option String
  isError : Bool
  isMissing : Bool
  hasError : Bool
  childCount : Nat
deriving DecidableEq, Repr

namespace ListedNode

/-- A node whose flags are the bits of a number: one for a text that could not be read, two
for a missing text, four for a node that is or holds such a one. -/
def ofFlags (kind : Kind) (start stop : Nat) (field : Option String) (flags childCount : Nat) : ListedNode :=
  { kind, start, stop, field, childCount
    isError := flags.testBit 0, isMissing := flags.testBit 1, hasError := flags.testBit 2 }

/-- The trees that begin with a node, made of the trees that follow it. -/
def before? (n : ListedNode) (trees : List ParseTree) : Option (List ParseTree) :=
  let children := trees.take n.childCount
  if children.length = n.childCount then
    some (.node n.kind n.start n.stop n.field n.isError n.isMissing n.hasError children
      :: trees.drop n.childCount)
  else none

/-- Read a line of a listing. -/
def ofLine? (line : String) : Option ListedNode :=
  match Text.splitOn ' ' line with
  | start :: stop :: flags :: count :: field :: kind =>
    match start.toNat?, stop.toNat?, flags.toNat?, count.toNat? with
    | some start, some stop, some flags, some count =>
      let field := if field = "-" then none else some field
      some (ofFlags ⟨String.intercalate " " kind⟩ start stop field flags count)
    | _, _, _, _ => none
  | _ => none

end ListedNode

namespace ParseTree

/-- The trees that a listing holds one after another. -/
def forest? : List ListedNode → Option (List ParseTree)
  | [] => some []
  | n :: rest =>
    match forest? rest with
    | some trees => n.before? trees
    | none => none

/-- The tree that a listing holds, if it holds exactly one. -/
def ofListing? (ns : List ListedNode) : Option ParseTree :=
  match forest? ns with
  | some [tree] => some tree
  | _ => none

/-- Read a listing that is written as a text. -/
def ofText? (text : String) : Option ParseTree := do
  let lines := (Text.splitOn '\n' text).filter (· ≠ "")
  ofListing? (← lines.mapM ListedNode.ofLine?)

end ParseTree

end Amend
