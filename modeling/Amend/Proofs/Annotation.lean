import Amend.Php.Resolution
import Amend.Proofs.Trees
import Mathlib.Data.List.Basic

/-!
# Recording names changes attributes only

`Node.bare` forgets the facts recorded on the nodes of a tree.  A tree and the tree with its
names resolved are the same once these facts are forgotten, so they print the same text and
have the same nodes.
-/

namespace Amend

/-- The tag without the facts recorded in it. -/
def Tag.bare (t : Tag) : Tag := { t with attributes := .empty }

namespace Node

mutual

/-- The tree without the facts recorded on its nodes. -/
def bare : Node → Node
  | leaf tag text => leaf tag.bare text
  | branch tag children => branch tag.bare (bareAll children)

/-- The trees of a list without the facts recorded on their nodes. -/
def bareAll : List Node → List Node
  | [] => []
  | n :: ns => n.bare :: bareAll ns

end

theorem bareAll_eq_map (ns : List Node) :
  bareAll ns = ns.map bare
  := by
  induction ns with
  | nil => rfl
  | cons n ns ih => rw [bareAll, ih, List.map_cons]

/-- What is recorded stands in the tag, so the tag of a bare node is the bare tag. -/
theorem tag_bare (n : Node) :
  n.bare.tag = n.tag.bare
  := by
  cases n <;> rfl

/-- The children of a bare node are bare. -/
theorem children_bare (n : Node) :
  n.bare.children = n.children.map bare
  := by
  cases n with
  | leaf tag text => rfl
  | branch tag children => apply bareAll_eq_map

/-- What is recorded on a node itself is forgotten with its tag. -/
theorem bare_withTag (n : Node) (t : Tag) :
  (n.withTag t).bare = n.bare.withTag t.bare
  := by
  cases n <;> rfl

/-- Tags that differ in what is recorded only make no difference to the bare node. -/
theorem bare_withTag_of_bare_eq {n : Node} {t : Tag} (h : t.bare = n.tag.bare) :
  (n.withTag t).bare = n.bare
  := by
  rw [bare_withTag, h]
  cases n <;> rfl

/-- Recorded facts are not printed. -/
theorem source_bare (n : Node) :
  n.bare.source = n.source
  := by
  induction n with
  | leaf tag text => rfl
  | branch tag children ih =>
    rw [bare, source, source, bareAll_eq_map, sourceAll_map_congr ih]
    rfl

/-- The nodes below a bare node are those below the node, each of them bare. -/
theorem descendants_bare (n : Node) :
  n.bare.descendants = n.descendants.map bare
  := by
  induction n with
  | leaf tag text =>
    rw [descendants_eq, descendants_eq]
    rfl
  | branch tag children ih =>
    rw [descendants_eq, descendants_eq, children_bare, List.map_cons, List.map_flatMap,
      List.flatMap_map]
    congr 1
    apply List.flatMap_congr ih

end Node

namespace Php

/-- Recording something changes nothing else of a tag. -/
theorem bare_tag_withAttribute (n : Node) (key value : String) :
  (n.withAttribute key value).tag.bare = n.tag.bare
  := by
  rw [Node.withAttribute, Node.tag_withTag]
  rfl

/-- The annotation of a node changes nothing but what is recorded. -/
theorem bare_tag_annotate (scope : Scope) (n : Node) :
  (annotate scope n).tag.bare = n.tag.bare
  := by
  unfold annotate
  split
  · rfl
  · dsimp only
    split <;> split <;> simp only [bare_tag_withAttribute]

/-- A node is of the same kind with and without its annotation. -/
theorem kind_annotate (scope : Scope) (n : Node) :
  (annotate scope n).tag.kind = n.tag.kind
  := by
  have h := congrArg Tag.kind (bare_tag_annotate scope n)
  exact h

/-! ### One node after the other -/

/-- The name of the namespace that a definition opens. -/
def spaceOf (definition : Node) : String :=
  ((definition.childByField "name").map Node.text).getD ""

/-- The node with the full names recorded on it and below it, when it is met in `scope`; and the
scope after it. -/
def resolveNode (scope : Scope) (n : Node) : Node × Scope :=
  if n.kind = namespaceDefinition then
    if (n.childByField "body").isSome then ((resolveBelow (.entering (spaceOf n)) n).1, scope)
    else (n, .entering (spaceOf n))
  else if n.kind = useStatement then (n, importStatement scope n)
  else if isClassLike n.kind then
    ((resolveBelow scope n).1.withTag (annotate scope n).tag, (resolveBelow scope n).2)
  else resolveBelow scope n

/-- Inside the node no names are resolved: it is a `use` statement, or a namespace definition
without body. -/
def IsPassedOver (n : Node) : Prop :=
  n.kind = useStatement ∨ n.kind = namespaceDefinition ∧ n.childByField "body" = none

/-- What is done below a node leaves its own tag alone. -/
theorem tag_resolveBelow (scope : Scope) (n : Node) :
  (resolveBelow scope n).1.tag = n.tag
  := by
  cases n <;> rfl

/-- So the node has the tag that it had. -/
theorem withTag_resolveBelow (scope : Scope) (n : Node) :
  (resolveBelow scope n).1.withTag n.tag = (resolveBelow scope n).1
  := by
  cases n <;> rfl

/-- The first of some siblings is resolved in the scope at hand, the others in the scope that it
leaves. -/
theorem resolveSiblings_cons (scope : Scope) (n : Node) (rest : List Node) :
  resolveSiblings scope (n :: rest)
    = ((resolveNode scope n).1 :: (resolveSiblings (resolveNode scope n).2 rest).1,
      (resolveSiblings (resolveNode scope n).2 rest).2)
  := by
  rw [resolveSiblings, resolveNode]
  split
  · split <;> rfl
  · split
    · rfl
    · split
      · rfl
      · simp only [withTag_resolveBelow]

/-- Siblings are resolved in the scope that those before them leave. -/
theorem resolveSiblings_append (scope : Scope) (before after : List Node) :
  resolveSiblings scope (before ++ after)
    = ((resolveSiblings scope before).1
        ++ (resolveSiblings (resolveSiblings scope before).2 after).1,
      (resolveSiblings (resolveSiblings scope before).2 after).2)
  := by
  induction before generalizing scope with
  | nil => rfl
  | cons n before ih =>
    rw [List.cons_append, resolveSiblings_cons, ih, resolveSiblings_cons]
    rfl

/-- If resolving below a node leaves everything but what is recorded, resolving the node does. -/
theorem bare_resolveNode_of {n : Node} (h : ∀ scope, (resolveBelow scope n).1.bare = n.bare)
    (scope : Scope) :
  (resolveNode scope n).1.bare = n.bare
  := by
  rw [resolveNode]
  split
  · split
    · apply h
    · rfl
  · split
    · rfl
    · split
      · rw [Node.bare_withTag_of_bare_eq, h]
        rw [bare_tag_annotate, tag_resolveBelow]
      · apply h

/-- The same holds of siblings, whatever scope each of them is resolved in. -/
theorem bareAll_resolveSiblings_of {ns : List Node}
    (h : ∀ n ∈ ns, ∀ scope, (resolveBelow scope n).1.bare = n.bare) (scope : Scope) :
  Node.bareAll (resolveSiblings scope ns).1 = Node.bareAll ns
  := by
  induction ns generalizing scope with
  | nil => rfl
  | cons n ns ih =>
    obtain ⟨hn, hns⟩ := List.forall_mem_cons.1 h
    rw [resolveSiblings_cons, Node.bareAll, Node.bareAll, bare_resolveNode_of hn, ih hns]

/-- Resolving below a node changes nothing but what is recorded. -/
theorem bare_resolveBelow (scope : Scope) (n : Node) :
  (resolveBelow scope n).1.bare = n.bare
  := by
  induction n generalizing scope with
  | leaf tag text => rfl
  | branch tag children ih =>
    rw [resolveBelow, Node.bare, Node.bare, bareAll_resolveSiblings_of ih]

/-- Resolving a node changes nothing but what is recorded. -/
theorem bare_resolveNode (scope : Scope) (n : Node) :
  (resolveNode scope n).1.bare = n.bare
  := bare_resolveNode_of (fun scope => bare_resolveBelow scope n) scope

/-- Resolving siblings changes nothing but what is recorded. -/
theorem bareAll_resolveSiblings (scope : Scope) (ns : List Node) :
  Node.bareAll (resolveSiblings scope ns).1 = Node.bareAll ns
  := bareAll_resolveSiblings_of (fun n _ scope => bare_resolveBelow scope n) scope

/-- Resolving names changes nothing but what is recorded on the nodes. -/
theorem bare_resolveNames (root : Node) :
  (resolveNames root).bare = root.bare
  := bare_resolveBelow {} root

/-- A tree is printed in the same way before and after its names are resolved. -/
theorem source_resolveNames (root : Node) :
  (resolveNames root).source = root.source
  := by
  rw [← Node.source_bare, bare_resolveNames, Node.source_bare]

end Php

end Amend
