import Amend.Tree.Attributes

/-!
# Syntax trees that keep every character

A `Node` is a token with its text or an inner node with its children.  Around its content
each node keeps the trivia (blanks, comments, markup) that stands before it and after it,
so `Node.source` gives back the text that a tree was read from; `Node.text` is the same
without the trivia.
-/

namespace Amend

/-- The syntactic category of a node. -/
structure Kind where
  name : String
deriving DecidableEq, Repr, Hashable

/-- What a node carries besides its content: its kind, the field it fills in its parent,
the trivia around it and the facts recorded on it. -/
structure Tag where
  kind : Kind
  field : Option String := none
  leading : String := ""
  trailing : String := ""
  attributes : Attributes := .empty
deriving DecidableEq

/-- A node of a syntax tree. -/
inductive Node where
  | leaf (tag : Tag) (text : String)
  | branch (tag : Tag) (children : List Node)

namespace Node

/-- A token without trivia. -/
def token (kind : Kind) (text : String) : Node := leaf { kind } text

/-- An inner node without trivia. -/
def inner (kind : Kind) (children : List Node) : Node := branch { kind } children

def tag : Node → Tag
  | leaf tag _ => tag
  | branch tag _ => tag

/-- The node with another tag. -/
def withTag : Node → Tag → Node
  | leaf _ text, tag => leaf tag text
  | branch _ children, tag => branch tag children

def kind (n : Node) : Kind := n.tag.kind

/-- The field that the node fills in its parent, if the grammar names one. -/
def field (n : Node) : Option String := n.tag.field

def leading (n : Node) : String := n.tag.leading

def trailing (n : Node) : String := n.tag.trailing

/-- The text of a token; `none` for an inner node. -/
def tokenText : Node → Option String
  | leaf _ text => some text
  | branch _ _ => none

/-- The children of an inner node; a token has none. -/
def children : Node → List Node
  | leaf _ _ => []
  | branch _ children => children

/-- The inner node with other children; a token stays as it is. -/
def withChildren : Node → List Node → Node
  | leaf tag text, _ => leaf tag text
  | branch tag _, children => branch tag children

def withField (n : Node) (field : String) : Node := n.withTag { n.tag with field := some field }

def withLeading (n : Node) (leading : String) : Node := n.withTag { n.tag with leading }

def withTrailing (n : Node) (trailing : String) : Node := n.withTag { n.tag with trailing }

/-- The node with a value recorded under a key. -/
def withAttribute (n : Node) (key value : String) : Node :=
  n.withTag { n.tag with attributes := n.tag.attributes.insert key value }

/-- The value recorded on the node under a key. -/
def recorded (n : Node) (key : String) : Option String := n.tag.attributes.get? key

/-- The first child that fills a field. -/
def childByField (n : Node) (field : String) : Option Node :=
  n.children.find? (·.field == some field)

/-- The first child of a kind. -/
def childOfKind (n : Node) (kind : Kind) : Option Node := n.children.find? (·.kind == kind)

mutual

/-- The texts of the tokens under a node, in order and without trivia. -/
def text : Node → String
  | leaf _ text => text
  | branch _ children => textAll children

/-- The texts of the tokens under the nodes of a list. -/
def textAll : List Node → String
  | [] => ""
  | n :: ns => n.text ++ textAll ns

end

mutual

/-- The node as it stands in a file, with its trivia. -/
def source : Node → String
  | leaf tag text => tag.leading ++ text ++ tag.trailing
  | branch tag children => tag.leading ++ sourceAll children ++ tag.trailing

/-- The nodes of a list as they stand in a file, one after the other. -/
def sourceAll : List Node → String
  | [] => ""
  | n :: ns => n.source ++ sourceAll ns

end

mutual

/-- The number of nodes of a tree. -/
def size : Node → Nat
  | leaf _ _ => 1
  | branch _ children => 1 + sizeAll children

/-- The number of nodes of the trees of a list. -/
def sizeAll : List Node → Nat
  | [] => 0
  | n :: ns => n.size + sizeAll ns

end

mutual

/-- The number of nodes on the longest way down from a node, itself included. -/
def height : Node → Nat
  | leaf _ _ => 1
  | branch _ children => 1 + heightAll children

/-- The greatest height in a list of trees. -/
def heightAll : List Node → Nat
  | [] => 0
  | n :: ns => max n.height (heightAll ns)

end

mutual

/-- Whether two trees agree in every part. -/
def same : Node → Node → Bool
  | leaf t s, leaf t' s' => decide (t = t') && s == s'
  | branch t c, branch t' c' => decide (t = t') && sameAll c c'
  | _, _ => false

/-- Whether two lists of trees agree tree by tree. -/
def sameAll : List Node → List Node → Bool
  | [], [] => true
  | n :: ns, m :: ms => n.same m && sameAll ns ms
  | _, _ => false

end

mutual

/-- The comparison of two nodes decides whether they are equal. -/
theorem same_iff : ∀ {n m : Node}, n.same m = true ↔ n = m
  | leaf t s, leaf t' s' => by simp [same]
  | branch t c, branch t' c' => by simp [same, sameAll_iff]
  | leaf _ _, branch _ _ => by simp [same]
  | branch _ _, leaf _ _ => by simp [same]

/-- The same holds of lists of nodes. -/
theorem sameAll_iff : ∀ {ns ms : List Node}, sameAll ns ms = true ↔ ns = ms
  | [], [] => by simp [sameAll]
  | n :: ns, m :: ms => by simp [sameAll, @same_iff n, @sameAll_iff ns]
  | [], _ :: _ => by simp [sameAll]
  | _ :: _, [] => by simp [sameAll]

end

instance : DecidableEq Node := fun _ _ => decidable_of_iff _ same_iff

/-- The key under which a declaration's full name is recorded when it differs from the
text of its `name` field. -/
def qualifiedNameKey : String := "qualified_name"

/-- The name that a node declares: its recorded full name, else the text of its `name`
field; an empty name is no name. -/
def declaredName (n : Node) : Option String :=
  ((n.recorded qualifiedNameKey).or ((n.childByField "name").map text)).filter (· ≠ "")

/-- The node in the place of `old`: it takes over the field of `old`, and the trivia of
`old` on each side where it brings none itself. -/
def inheritPosition (n old : Node) : Node :=
  n.withTag { n.tag with
    field := old.field
    leading := if n.leading = "" then old.leading else n.leading
    trailing := if n.trailing = "" then old.trailing else n.trailing }

/-- The node without content and without trivia; its kind, field and attributes stay. -/
def clear (n : Node) : Node := branch { n.tag with leading := "", trailing := "" } []

@[simp]
theorem tag_withTag (n : Node) (t : Tag) :
  (n.withTag t).tag = t
  := by
  cases n <;> rfl

@[simp]
theorem children_withTag (n : Node) (t : Tag) :
  (n.withTag t).children = n.children
  := by
  cases n <;> rfl

@[simp]
theorem text_withTag (n : Node) (t : Tag) :
  (n.withTag t).text = n.text
  := by
  cases n <;> simp [withTag, text]

@[simp]
theorem sizeAll_append (ns ms : List Node) :
  sizeAll (ns ++ ms) = sizeAll ns + sizeAll ms
  := by
  induction ns with
  | nil => simp [sizeAll]
  | cons n ns ih => simp [sizeAll, ih, Nat.add_assoc]

/-- The size of a node is that of its children and one more. -/
theorem size_eq (n : Node) :
  n.size = 1 + sizeAll n.children
  := by
  cases n <;> simp [size, children, sizeAll]

end Node

end Amend
