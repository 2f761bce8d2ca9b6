import Amend.Text.Offset
import Amend.Tree.Node

/-!
# Parse trees of a text

A parser tells the structure of a text by a tree of byte ranges.  `ParseTree.toNode` fills
in the text: a childless node is a token, what stands between the children of a node becomes
their leading trivia, and what stands after the last child the node's trailing trivia, so
that every byte of the text is kept in one place.
-/

namespace Amend

/-- A node of a parse tree: its kind, the bytes it covers, the field it fills in its parent,
and whether it stands for text that could not be read, for text that is missing, or holds
such a node. -/
inductive ParseTree where
  | node (kind : Kind) (start stop : Nat) (field : Option String) (isError isMissing hasError : Bool)
      (children : List ParseTree)

namespace ParseTree

def kind : ParseTree → Kind
  | node kind _ _ _ _ _ _ _ => kind

/-- The first byte that the node covers. -/
def start : ParseTree → Nat
  | node _ start _ _ _ _ _ _ => start

/-- The first byte that the node does not cover any more. -/
def stop : ParseTree → Nat
  | node _ _ stop _ _ _ _ _ => stop

def field : ParseTree → Option String
  | node _ _ _ field _ _ _ _ => field

/-- Whether the node stands for text that could not be read or that is missing. -/
def isFault : ParseTree → Bool
  | node _ _ _ _ isError isMissing _ _ => isError || isMissing

/-- Whether the node is marked as a fault or as holding one. -/
def hasError : ParseTree → Bool
  | node _ _ _ _ _ _ hasError _ => hasError

def children : ParseTree → List ParseTree
  | node _ _ _ _ _ _ _ children => children

mutual

/-- The node with its text, without what stands before it. -/
def toInner (text : String) : ParseTree → Node
  | node kind start stop _ _ _ _ [] => .leaf { kind } (Text.slice text start stop)
  | node kind start stop _ _ _ _ (child :: rest) =>
    let (children, reached) := toSiblings text start (child :: rest)
    .branch { kind, trailing := Text.slice text reached stop } children

/-- The children of a node, each with what stands before it, and the first byte after all
of them. -/
def toSiblings (text : String) (offset : Nat) : List ParseTree → List Node × Nat
  | [] => ([], offset)
  | child :: rest =>
    let inner := toInner text child
    let placed := inner.withTag
      { inner.tag with leading := Text.slice text offset child.start, field := child.field }
    let (siblings, reached) := toSiblings text (max offset child.stop) rest
    (placed :: siblings, reached)

end

/-- The tree of a whole text, with what stands before the root and after it. -/
def toNode (text : String) (root : ParseTree) : Node :=
  let inner := root.toInner text
  inner.withTag { inner.tag with
    leading := Text.slice text 0 root.start
    trailing := inner.trailing ++ Text.slice text root.stop text.utf8ByteSize }

mutual

/-- The place of the first fault in a tree, found by looking only into children that are
marked. -/
def firstFault? : ParseTree → Option Nat
  | node _ start _ _ isError isMissing _ children =>
    if isError || isMissing then some start else firstFaultAmong? children

/-- The place of the first fault in the marked trees of a list. -/
def firstFaultAmong? : List ParseTree → Option Nat
  | [] => none
  | child :: rest =>
    if child.hasError then (firstFault? child).or (firstFaultAmong? rest) else firstFaultAmong? rest

end

end ParseTree

end Amend
