import Amend.Index.Lookup
import Amend.Tree.Node

/-!
# Rules

A rule names the kinds of nodes it wants to be asked about and answers, for a node of one
of those kinds in its context, with a `Verdict`.  It never touches the tree itself: what
becomes of a verdict is decided by the pass that asks.
-/

namespace Amend

/-- What a rule wants done with a node. -/
inductive Verdict where
  | keep
  | replace (node : Node)
  | remove
deriving DecidableEq

/-- Whether a verdict asks for a change. -/
def Verdict.isChange : Verdict → Bool
  | keep => false
  | replace _ => true
  | remove => true

/-- A piece of code before and after a rule was applied. -/
structure Sample where
  before : String
  after : String
deriving DecidableEq, Repr

/-- What is told about a rule to its users. -/
structure Definition where
  description : String
  samples : List Sample
deriving DecidableEq, Repr

/-- What is kept of a node that encloses the one a rule is asked about: its kind, and the
name it declares, as the node stood when it was entered. -/
structure Ancestor where
  kind : Kind
  name : Option String
deriving DecidableEq, Repr

def Ancestor.of (n : Node) : Ancestor := ⟨n.kind, n.declaredName⟩

/-- What a rule sees besides the node: the enclosing nodes, nearest first, and the index. -/
structure Context where
  ancestors : List Ancestor
  queries : Queries

namespace Context

/-- The enclosing node next to the node itself. -/
def parent (c : Context) : Option Ancestor := c.ancestors.head?

/-- The nearest enclosing node of one of the kinds. -/
def enclosing (c : Context) (kinds : List Kind) : Option Ancestor :=
  c.ancestors.find? (·.kind ∈ kinds)

/-- The name of the nearest enclosing node of one of the kinds.  When that one has no name
there is none; a node further out never lends its name. -/
def enclosingName (c : Context) (kinds : List Kind) : Option String :=
  (c.enclosing kinds).bind (·.name)

end Context

/-- A rule. -/
structure Rule where
  /-- The name under which the rule is enabled and told of in reports. -/
  name : String
  definition : Definition
  /-- The kinds of nodes that the rule wants to be asked about. -/
  kinds : List Kind
  evaluate : Node → Context → Logged Verdict

end Amend
