import Amend.Monitor
import Amend.Pass.Registry

/-!
# One pass over a tree

A pass shows every node to the rules interested in its kind, parents before children and
children from left to right, and carries out the first change that one of them asks for.  A
replacement is not shown again, but its children are.

The walk keeps a `Journal`: the nodes it has entered, what it has changed, whom it has asked
and what it is doing.  Replacements may be larger than what they replace, so a pass need not
come to an end; `levels` bounds how far the walk goes down, and a walk that would go further
has no result.
-/

namespace Amend

/-- A change that was carried out: by which rule, on a node of which kind, and whether the
node was removed. -/
structure Application where
  rule : String
  kind : Kind
  removed : Bool
deriving DecidableEq, Repr

/-- A question put to a rule: the node, the nodes around it, nearest first, and what was in
hand at that time. -/
structure Inquiry where
  rule : String
  node : Node
  ancestors : List Ancestor
  activity : Activity
deriving DecidableEq

/-- What a walk keeps on its way. -/
structure Journal where
  /-- The nodes that enclose the next node to be shown, nearest first. -/
  ancestors : List Ancestor := []
  applications : List Application := []
  inquiries : List Inquiry := []
  log : List LogRecord := []
  activity : Activity := .idle

namespace Journal

/-- Go down into a node. -/
def enter (j : Journal) (n : Node) : Journal := { j with ancestors := Ancestor.of n :: j.ancestors }

/-- Come back up from a node. -/
def leave (j : Journal) : Journal := { j with ancestors := j.ancestors.tail }

/-- Note a change. -/
def applied (j : Journal) (rule : String) (n : Node) (removed : Bool) : Journal :=
  { j with applications := j.applications ++ [⟨rule, n.kind, removed⟩] }

/-- Ask a rule about a node; the rule is in hand while it answers. -/
def ask (j : Journal) (queries : Queries) (rule : Rule) (n : Node) : Verdict × Journal :=
  let (guard, activity) := j.activity.enterRule rule.name
  let answer := rule.evaluate n ⟨j.ancestors, queries⟩
  (answer.value,
    { j with
      inquiries := j.inquiries ++ [⟨rule.name, n, j.ancestors, activity⟩]
      log := j.log ++ answer.log
      activity := activity.release guard })

/-- Ask rules about a node, one after the other, up to the first that wants a change. -/
def askAll (j : Journal) (queries : Queries) (n : Node) : List Rule → Option (String × Verdict) × Journal
  | [] => (none, j)
  | rule :: rules =>
    match j.ask queries rule n with
    | (.keep, j) => j.askAll queries n rules
    | (verdict, j) => (some (rule.name, verdict), j)

/-- The first change that a rule interested in the node wants. -/
def consult (j : Journal) (registry : Registry) (queries : Queries) (n : Node) :
    Option (String × Verdict) × Journal :=
  j.askAll queries n (registry.rulesFor n.kind)

end Journal

namespace Pass

/-- Go through siblings by their positions, from position `i` on; `below` walks what stands
below a node.  A removal brings the next sibling to the same position, which is then shown. -/
def walkSiblings (registry : Registry) (queries : Queries)
    (below : Node → Journal → Option (Node × Journal)) (i : Nat) (siblings : List Node)
    (j : Journal) : Option (List Node × Journal) :=
  if _h : i < siblings.length then
    match j.consult registry queries siblings[i] with
    | (some (rule, .replace new), j) => do
      let (new, j) ← below (new.inheritPosition siblings[i]) (j.applied rule siblings[i] false)
      walkSiblings registry queries below (i + 1) (siblings.set i new) j
    | (some (rule, .remove), j) =>
      walkSiblings registry queries below i (siblings.eraseIdx i) (j.applied rule siblings[i] true)
    | (_, j) => do
      let (n, j) ← below siblings[i] j
      walkSiblings registry queries below (i + 1) (siblings.set i n) j
  else some (siblings, j)
termination_by siblings.length - i
decreasing_by all_goals
  simp only [List.length_set, List.length_eraseIdx_of_lt _h]
  omega

/-- Walk what stands below a node, at most so many levels down. -/
def walkBelow (registry : Registry) (queries : Queries) :
    Nat → Node → Journal → Option (Node × Journal)
  | 0, _, _ => none
  | levels + 1, n, j => do
    let (children, j) ← walkSiblings registry queries (walkBelow registry queries levels) 0
      n.children (j.enter n)
    return (n.withChildren children, j.leave)

/-- One pass over a tree.  A root that is to be removed stays, without content. -/
def run (registry : Registry) (queries : Queries) (levels : Nat) (root : Node) (j : Journal) :
    Option (Node × Journal) :=
  match j.consult registry queries root with
  | (some (rule, .replace new), j) =>
    walkBelow registry queries levels (new.inheritPosition root) (j.applied rule root false)
  | (some (rule, .remove), j) => some (root.clear, j.applied rule root true)
  | (_, j) => walkBelow registry queries levels root j

end Pass

end Amend
