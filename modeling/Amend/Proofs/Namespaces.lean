import Amend.Php.Declarations
import Amend.Proofs.Annotation

/-!
# Namespaces do not leak into each other

A `Gap` is a place for siblings somewhere in a tree.  Put a namespace definition into it: without
body, it alone decides what the names among the siblings after it mean, and with one, it might as
well not be there for the names outside (`Php.namespaces_kept_apart`).  The proof goes down to the
gap, with the tree that has the definition and the one that has it not side by side.
-/

namespace Amend

/-- A tree with a gap among the children of one of its nodes. -/
inductive Gap where
  /-- The gap is among the children of the root. -/
  | here (tag : Tag) (before after : List Node)
  /-- The gap is inside one of them. -/
  | inside (tag : Tag) (before : List Node) (inner : Gap) (after : List Node)

namespace Gap

/-- The tree with nodes put into the gap. -/
def fill : Gap → List Node → Node
  | here tag before after, ns => .branch tag (before ++ (ns ++ after))
  | inside tag before inner after, ns => .branch tag (before ++ inner.fill ns :: after)

/-- The tag of the root. -/
def tag : Gap → Tag
  | here tag _ _ => tag
  | inside tag _ _ _ => tag

def withTag : Gap → Tag → Gap
  | here _ before after, tag => here tag before after
  | inside _ before inner after, tag => inside tag before inner after

/-- The siblings after the gap. -/
def after : Gap → List Node
  | here _ _ after => after
  | inside _ _ inner _ => inner.after

/-- The tree without the facts recorded on its nodes. -/
def bare : Gap → Gap
  | here tag before after => here tag.bare (Node.bareAll before) (Node.bareAll after)
  | inside tag before inner after =>
    inside tag.bare (Node.bareAll before) inner.bare (Node.bareAll after)

variable {gap : Gap} {n : Node} {ns : List Node} {p : Node → Bool}

/-- What is put in a gap makes no difference to the tag around it. -/
theorem tag_fill :
  (gap.fill ns).tag = gap.tag
  := by
  cases gap <;> rfl

/-- What is put into the gap does not change the kind of the root. -/
theorem kind_fill_nil (gap : Gap) :
  (gap.fill []).kind = (gap.fill ns).kind
  := by
  cases gap <;> rfl

/-- The tag may be changed before or after the gap is filled. -/
theorem fill_withTag (t : Tag) :
  (gap.withTag t).fill ns = (gap.fill ns).withTag t
  := by
  cases gap <;> rfl

theorem after_withTag (t : Tag) :
  (gap.withTag t).after = gap.after
  := by
  cases gap <;> rfl

theorem bare_withTag (t : Tag) :
  (gap.withTag t).bare = gap.bare.withTag t.bare
  := by
  cases gap <;> rfl

theorem withTag_bare_tag :
  gap.bare.withTag gap.tag.bare = gap.bare
  := by
  cases gap <;> rfl

/-- What is put in a gap stands in one of the children. -/
theorem exists_child_fill (gap : Gap) (h : n ∈ ns) :
  ∃ c ∈ (gap.fill ns).children, n ∈ c.descendants
  := by
  induction gap with
  | here tag before after =>
    use n, List.mem_append_right _ (List.mem_append_left _ h)
    apply Node.self_mem_descendants
  | inside tag before inner after ih =>
    obtain ⟨c, hc, hn⟩ := ih
    use inner.fill ns, List.mem_append_right _ List.mem_cons_self
    apply Node.mem_descendants_of_mem_children hn hc

/-- What is put in a gap stands in the tree. -/
theorem mem_descendants_fill (gap : Gap) (h : n ∈ ns) :
  n ∈ (gap.fill ns).descendants
  := by
  obtain ⟨c, hc, hn⟩ := exists_child_fill gap h
  apply Node.mem_descendants_of_mem_children hn hc

/-! ### Children of the tree with and without a node in the gap -/

/-- The first child of a sort stays the first one, unless it holds the node. -/
theorem find?_fill (gap : Gap) (n : Node) (hp : ∀ a b : Node, a.tag = b.tag → p a = p b) :
  (gap.fill []).children.find? p = (gap.fill [n]).children.find? p
  ∨ (gap.fill [n]).children.find? p = some n
  ∨ ∃ inner : Gap, (gap.fill [n]).children.find? p = some (inner.fill [n])
    ∧ (gap.fill []).children.find? p = some (inner.fill [])
  := by
  cases gap with
  | here tag before after =>
    simp only [fill, Node.children, List.find?_append, List.nil_append, List.find?_singleton]
    cases before.find? p with
    | some c => exact .inl rfl
    | none =>
      split
      · exact .inr (.inl rfl)
      · exact .inl rfl
  | inside tag before inner after =>
    have htag : p (inner.fill []) = p (inner.fill [n]) := by
      apply hp
      rw [tag_fill, tag_fill]
    simp only [fill, Node.children, List.find?_append, List.find?_cons, htag]
    cases before.find? p with
    | some c => exact .inl rfl
    | none =>
      cases p (inner.fill [n]) with
      | true => exact .inr (.inr ⟨inner, rfl, rfl⟩)
      | false => exact .inl rfl

/-- A child that is looked for by its tag is found alike with and without a node that it does not
hold. -/
theorem find?_fill_of_notMem (hp : ∀ a b : Node, a.tag = b.tag → p a = p b)
    (h : ∀ c ∈ (gap.fill [n]).children.find? p, n ∉ c.descendants) :
  (gap.fill []).children.find? p = (gap.fill [n]).children.find? p
  := by
  rcases find?_fill gap n hp with hsame | hfound | ⟨inner, hfound, -⟩
  · exact hsame
  · cases h n hfound n.self_mem_descendants
  · cases h _ hfound (mem_descendants_fill _ List.mem_cons_self)

/-- Children of a sort that do not hold the node stay. -/
theorem filter_fill (hp : ∀ a b : Node, a.tag = b.tag → p a = p b)
    (h : ∀ c ∈ (gap.fill [n]).children, n ∈ c.descendants → p c = false) :
  (gap.fill []).children.filter p = (gap.fill [n]).children.filter p
  := by
  cases gap with
  | here tag before after =>
    have hn : p n = false := by
      apply h n _ n.self_mem_descendants
      simp [fill, Node.children]
    simp [fill, Node.children, List.filter_append, hn]
  | inside tag before inner after =>
    have hfull : p (inner.fill [n]) = false := by
      apply h _ _ (mem_descendants_fill _ List.mem_cons_self)
      simp [fill, Node.children]
    have hempty : p (inner.fill []) = false := by
      rw [← hfull]
      apply hp
      rw [tag_fill, tag_fill]
    simp [fill, Node.children, List.filter_append, hfull, hempty]

end Gap

namespace Php

/-- No namespace definition stands in the tree. -/
def NamespaceFree (n : Node) : Prop := ∀ m ∈ n.descendants, m.kind ≠ namespaceDefinition

/-- The namespace definitions of a tree stand where PHP has them, among statements.  None stands
where names are written: in what a `use` statement or a namespace definition without body says, in
what a declaration extends, in the traits that it uses, or in its name or that of a namespace; and
the body of a declaration or of a namespace is a list of other things. -/
structure NamespacesPlaced (root : Node) : Prop where
  clauses : ∀ n ∈ root.descendants, IsPassedOver n ∨ n.kind = baseClause ∨ n.kind = traitUse →
    ∀ c ∈ n.children, NamespaceFree c
  names : ∀ n ∈ root.descendants, isClassLike n.kind ∨ n.kind = namespaceDefinition →
    ∀ c ∈ n.childByField "name", NamespaceFree c
  bodies : ∀ n ∈ root.descendants, isClassLike n.kind ∨ n.kind = namespaceDefinition →
    ∀ c ∈ n.childByField "body", c.kind ≠ namespaceDefinition

variable {scope : Scope} {gap : Gap} {n : Node}

/-- Namespaces are placed in a child as they are in the tree. -/
theorem NamespacesPlaced.of_mem_children {c root : Node} (h : NamespacesPlaced root)
    (hc : c ∈ root.children) :
  NamespacesPlaced c
  := by
  have hbelow {m : Node} (hm : m ∈ c.descendants) : m ∈ root.descendants :=
    Node.mem_descendants_of_mem_children hm hc
  constructor
  · intro m hm
    apply h.clauses m (hbelow hm)
  · intro m hm
    apply h.names m (hbelow hm)
  · intro m hm
    apply h.bodies m (hbelow hm)

/-- No namespace definition stands in what a declaration extends or in the traits that it uses. -/
theorem NamespacesPlaced.notMem_clause {m clause root : Node} (h : NamespacesPlaced root)
    (hclause : clause ∈ root.descendants)
    (hkind : clause.kind = baseClause ∨ clause.kind = traitUse)
    (hspace : m.kind = namespaceDefinition) :
  m ∉ clause.descendants
  := by
  intro hm
  rcases Node.mem_descendants.1 hm with rfl | ⟨c, hc, hm⟩
  · rw [hspace] at hkind
    revert hkind
    decide
  · apply h.clauses clause hclause (.inr hkind) c hc m hm hspace

/-! ### What names are read from -/

/-- The annotation depends on the tag, the name, the parent and the traits. -/
theorem tag_annotate_congr {a b : Node} (htag : a.tag = b.tag)
    (hname : a.childByField "name" = b.childByField "name")
    (hparent : parentReference a = parentReference b)
    (htraits : traitReferences a = traitReferences b) :
  (annotate scope a).tag = (annotate scope b).tag
  := by
  rw [annotate, annotate, hname, hparent, htraits]
  cases b.childByField "name" <;> cases parentReference b <;> cases traitReferences b <;>
    simp only [List.map_nil, List.map_cons, Node.withAttribute, Node.tag_withTag, htag]

section Reading

variable (hspace : n.kind = namespaceDefinition) (hplaced : NamespacesPlaced (gap.fill [n]))

include hspace hplaced

/-- The name of a declaration or namespace does not depend on what stands in the gap. -/
theorem childByField_name_fill
    (howner : isClassLike (gap.fill [n]).kind ∨ (gap.fill [n]).kind = namespaceDefinition) :
  (gap.fill []).childByField "name" = (gap.fill [n]).childByField "name"
  := by
  apply Gap.find?_fill_of_notMem
  · intro a b htag
    rw [Node.field, htag, Node.field]
  · intro c hc hn
    apply hplaced.names _ (Node.self_mem_descendants _) howner c hc n hn hspace

/-- The body of a declaration or namespace stays, or is itself the tree with and without the
node. -/
theorem childByField_body_fill
    (howner : isClassLike (gap.fill [n]).kind ∨ (gap.fill [n]).kind = namespaceDefinition) :
  (gap.fill []).childByField "body" = (gap.fill [n]).childByField "body"
  ∨ ∃ inner : Gap, (gap.fill [n]).childByField "body" = some (inner.fill [n])
    ∧ (gap.fill []).childByField "body" = some (inner.fill [])
  := by
  have htags (a b : Node) (htag : a.tag = b.tag) :
      (a.field == some "body") = (b.field == some "body") := by
    rw [Node.field, htag, Node.field]
  rcases Gap.find?_fill gap n htags with hsame | hfound | hinner
  · exact .inl hsame
  · cases hplaced.bodies _ (Node.self_mem_descendants _) howner n hfound hspace
  · exact .inr hinner

/-- Whether it has a body does not depend on what stands in the gap. -/
theorem isSome_body_fill
    (howner : isClassLike (gap.fill [n]).kind ∨ (gap.fill [n]).kind = namespaceDefinition) :
  ((gap.fill []).childByField "body").isSome = ((gap.fill [n]).childByField "body").isSome
  := by
  rcases childByField_body_fill hspace hplaced howner with hsame | ⟨inner, hfull, hempty⟩
  · rw [hsame]
  · rw [hfull, hempty]
    rfl

/-- The parent that is named does not depend on what stands in the gap. -/
theorem parentReference_fill :
  parentReference (gap.fill []) = parentReference (gap.fill [n])
  := by
  have hclause : (gap.fill []).childOfKind baseClause = (gap.fill [n]).childOfKind baseClause := by
    apply Gap.find?_fill_of_notMem
    · intro a b htag
      rw [Node.kind, htag, Node.kind]
    · intro c hc hn
      have hfound := List.find?_some hc
      have hmem := Node.mem_descendants_of_child (List.mem_of_find?_eq_some hc)
      apply hplaced.notMem_clause hmem (.inl (beq_iff_eq.1 hfound)) hspace hn
  rw [parentReference, parentReference, hclause]

/-- The traits that are named do not depend on what stands in the gap. -/
theorem traitReferences_fill (howner : isClassLike (gap.fill [n]).kind) :
  traitReferences (gap.fill []) = traitReferences (gap.fill [n])
  := by
  rcases childByField_body_fill hspace hplaced (.inl howner) with hsame | ⟨inner, hfull, hempty⟩
  · rw [traitReferences, traitReferences, hsame]
  · have hinner : NamespacesPlaced (inner.fill [n]) :=
      hplaced.of_mem_children (List.mem_of_find?_eq_some hfull)
    rw [traitReferences, traitReferences, hfull, hempty]
    dsimp only
    rw [Gap.filter_fill]
    · intro a b htag
      rw [Node.kind, htag, Node.kind]
    · intro c hc hn
      rw [beq_eq_false_iff_ne]
      intro hkind
      apply hinner.notMem_clause (Node.mem_descendants_of_child hc) (.inr hkind) hspace hn

/-- On a declaration the same is recorded with and without the node. -/
theorem tag_annotate_fill (howner : isClassLike (gap.fill [n]).kind) :
  (annotate scope (gap.fill [])).tag = (annotate scope (gap.fill [n])).tag
  := by
  apply tag_annotate_congr
  · rw [Gap.tag_fill, Gap.tag_fill]
  · apply childByField_name_fill hspace hplaced (.inl howner)
  · apply parentReference_fill hspace hplaced
  · apply traitReferences_fill hspace hplaced howner

end Reading

/-! ### What is recorded around a namespace -/

/-- What a run over a tree with a namespace definition records.  After a definition without body it
depends on the name of the namespace and on what follows only, and inside one with a body on that
one only; and without that one the run records the same and comes to the same scope. -/
structure KeepsApart (run : Node → Node × Scope) (gap gap' : Gap) (n n' : Node) : Prop where
  run_eq : (run (gap.fill [n])).1 = gap'.fill [n']
  bare_gap : gap'.bare = gap.bare
  bare_node : n'.bare = n.bare
  after_eq : n.childByField "body" = none →
    gap'.after = (resolveSiblings (.entering (spaceOf n)) gap.after).1
  node_eq : (n.childByField "body").isSome → n' = (resolveBelow (.entering (spaceOf n)) n).1
  without_eq : (n.childByField "body").isSome →
    run (gap.fill []) = (gap'.fill [], (run (gap.fill [n])).2)

/-- A namespace with a body has its own scope, and the siblings after it are in the scope around it.
-/
theorem resolveNode_of_body (hspace : n.kind = namespaceDefinition)
    (hbody : (n.childByField "body").isSome) :
  resolveNode scope n = ((resolveBelow (.entering (spaceOf n)) n).1, scope)
  := by
  rw [resolveNode, if_pos hspace, if_pos hbody]

/-- A namespace without a body opens the scope of the siblings after it. -/
theorem resolveNode_of_no_body (hspace : n.kind = namespaceDefinition)
    (hbody : n.childByField "body" = none) :
  resolveNode scope n = (n, .entering (spaceOf n))
  := by
  rw [resolveNode, if_pos hspace, if_neg]
  rw [hbody]
  exact Bool.false_ne_true

/-- A namespace definition among the children of the root. -/
theorem keepsApart_here (hspace : n.kind = namespaceDefinition) (scope : Scope) (tag : Tag)
    (before after : List Node) :
  ∃ gap' n', KeepsApart (resolveBelow scope) (.here tag before after) gap' n n'
  := by
  let front := resolveSiblings scope before
  let here := resolveNode front.2 n
  let back := resolveSiblings here.2 after
  have hfull : resolveBelow scope ((Gap.here tag before after).fill [n])
      = ((Gap.here tag front.1 back.1).fill [here.1], back.2) := by
    rw [Gap.fill, resolveBelow, List.singleton_append, resolveSiblings_append, resolveSiblings_cons]
    rfl
  use .here tag front.1 back.1, here.1
  constructor
  · rw [hfull]
  · rw [Gap.bare, bareAll_resolveSiblings, bareAll_resolveSiblings, Gap.bare]
  · apply bare_resolveNode
  · intro hbody
    have hhere : here = (n, .entering (spaceOf n)) := resolveNode_of_no_body hspace hbody
    change (resolveSiblings here.2 after).1 = _
    rw [hhere]
    rfl
  · intro hbody
    have hhere : here = (_, front.2) := resolveNode_of_body hspace hbody
    rw [hhere]
  · intro hbody
    have hhere : here = (_, front.2) := resolveNode_of_body hspace hbody
    have hscope : front.2 = here.2 := by
      rw [hhere]
    rw [hfull, Gap.fill, resolveBelow, List.nil_append, resolveSiblings_append, hscope]
    rfl

/-- A namespace definition inside one of the children of the root. -/
theorem KeepsApart.inside {tag : Tag} {before after : List Node} {gap' : Gap} {n' : Node}
    (h : KeepsApart (resolveNode (resolveSiblings scope before).2) gap gap' n n') :
  ∃ gap', KeepsApart (resolveBelow scope) (.inside tag before gap after) gap' n n'
  := by
  let front := resolveSiblings scope before
  let within := resolveNode front.2 (gap.fill [n])
  let back := resolveSiblings within.2 after
  have hsiblings (m : Node) : resolveBelow scope (.branch tag (before ++ m :: after))
      = (.branch tag (front.1
          ++ (resolveNode front.2 m).1 :: (resolveSiblings (resolveNode front.2 m).2 after).1),
        (resolveSiblings (resolveNode front.2 m).2 after).2) := by
    rw [resolveBelow, resolveSiblings_append, resolveSiblings_cons]
  use .inside tag front.1 gap' back.1
  constructor
  · rw [Gap.fill, hsiblings, h.run_eq, Gap.fill]
  · rw [Gap.bare, bareAll_resolveSiblings, bareAll_resolveSiblings, h.bare_gap, Gap.bare]
  · apply h.bare_node
  · apply h.after_eq
  · apply h.node_eq
  · intro hbody
    rw [Gap.fill, Gap.fill, Gap.fill, hsiblings, hsiblings, h.without_eq hbody]

/-- A class-like node is of another kind than one that is not. -/
theorem ne_of_isClassLike {k k' : Kind} (hk : isClassLike k) (hk' : ¬ isClassLike k') :
  k ≠ k'
  := by
  rintro rfl
  exact hk' hk

/-- On the way to a namespace definition no node is passed over. -/
theorem not_isPassedOver_fill (hspace : n.kind = namespaceDefinition)
    (hplaced : NamespacesPlaced (gap.fill [n])) :
  ¬ IsPassedOver (gap.fill [n])
  := by
  intro hpassed
  obtain ⟨c, hc, hn⟩ := gap.exists_child_fill (List.mem_singleton_self n)
  apply hplaced.clauses _ (Node.self_mem_descendants _) (.inl hpassed) c hc n hn hspace

section Nodes

variable {gap' : Gap} {n' : Node}

/-- Inside another namespace, the run starts afresh with the name of that one. -/
theorem KeepsApart.resolveNode_of_namespace (hspace : n.kind = namespaceDefinition)
    (hplaced : NamespacesPlaced (gap.fill [n]))
    (hkind : (gap.fill [n]).kind = namespaceDefinition)
    (h : KeepsApart (resolveBelow (.entering (spaceOf (gap.fill [n])))) gap gap' n n') :
  KeepsApart (resolveNode scope) gap gap' n n'
  := by
  have hbody : ((gap.fill [n]).childByField "body").isSome := by
    rw [Option.isSome_iff_ne_none]
    intro hnone
    apply not_isPassedOver_fill hspace hplaced (.inr ⟨hkind, hnone⟩)
  have hname : spaceOf (gap.fill []) = spaceOf (gap.fill [n]) := by
    rw [spaceOf, childByField_name_fill hspace hplaced (.inr hkind), ← spaceOf]
  have hkind' : (gap.fill []).kind = namespaceDefinition := gap.kind_fill_nil.trans hkind
  have hbody' := (isSome_body_fill hspace hplaced (.inr hkind)).trans hbody
  refine { h with run_eq := ?_, without_eq := ?_ }
  · rw [resolveNode_of_body hkind hbody, h.run_eq]
  · intro hnode
    rw [resolveNode_of_body hkind hbody, resolveNode_of_body hkind' hbody', hname,
      h.without_eq hnode]

/-- Inside a declaration, what is recorded on it does not depend on the definition either. -/
theorem KeepsApart.resolveNode_of_classLike (hspace : n.kind = namespaceDefinition)
    (hplaced : NamespacesPlaced (gap.fill [n])) (hkind : isClassLike (gap.fill [n]).kind)
    (h : KeepsApart (resolveBelow scope) gap gap' n n') :
  KeepsApart (resolveNode scope) gap (gap'.withTag (annotate scope (gap.fill [n])).tag) n n'
  := by
  have hnode {m : Node} (hm : isClassLike m.kind) : resolveNode scope m
      = ((resolveBelow scope m).1.withTag (annotate scope m).tag, (resolveBelow scope m).2) := by
    have hspaces : m.kind ≠ namespaceDefinition := ne_of_isClassLike hm (by decide)
    have huse : m.kind ≠ useStatement := ne_of_isClassLike hm (by decide)
    rw [resolveNode, if_neg hspaces, if_neg huse, if_pos hm]
  have hkind' : isClassLike (gap.fill []).kind := by
    rwa [gap.kind_fill_nil]
  refine { h with run_eq := ?_, bare_gap := ?_, after_eq := ?_, without_eq := ?_ }
  · rw [hnode hkind, h.run_eq, Gap.fill_withTag]
  · rw [Gap.bare_withTag, h.bare_gap, bare_tag_annotate, Gap.tag_fill, Gap.withTag_bare_tag]
  · rw [Gap.after_withTag]
    apply h.after_eq
  · intro hbody
    rw [hnode hkind, hnode hkind', h.without_eq hbody, tag_annotate_fill hspace hplaced hkind,
      Gap.fill_withTag]

/-- Inside other nodes, the run goes on. -/
theorem KeepsApart.resolveNode_of_other (hspace : n.kind = namespaceDefinition)
    (hplaced : NamespacesPlaced (gap.fill [n])) (hkind : (gap.fill [n]).kind ≠ namespaceDefinition)
    (hclass : ¬ isClassLike (gap.fill [n]).kind)
    (h : KeepsApart (resolveBelow scope) gap gap' n n') :
  KeepsApart (resolveNode scope) gap gap' n n'
  := by
  have huse : (gap.fill [n]).kind ≠ useStatement := by
    intro huse
    apply not_isPassedOver_fill hspace hplaced (.inl huse)
  have hnode {m : Node} (hm : m.kind = (gap.fill [n]).kind) :
      resolveNode scope m = resolveBelow scope m := by
    rw [resolveNode, hm, if_neg hkind, if_neg huse, if_neg hclass]
  refine { h with run_eq := ?_, without_eq := ?_ }
  · rw [hnode rfl, h.run_eq]
  · intro hbody
    rw [hnode rfl, hnode gap.kind_fill_nil, h.without_eq hbody]

end Nodes

/-- A node on the way to a namespace definition. -/
theorem exists_keepsApart_resolveNode (hspace : n.kind = namespaceDefinition)
    (hplaced : NamespacesPlaced (gap.fill [n]))
    (h : ∀ scope, ∃ gap' n', KeepsApart (resolveBelow scope) gap gap' n n') (scope : Scope) :
  ∃ gap' n', KeepsApart (resolveNode scope) gap gap' n n'
  := by
  by_cases hkind : (gap.fill [n]).kind = namespaceDefinition
  · obtain ⟨gap', n', hbelow⟩ := h (.entering (spaceOf (gap.fill [n])))
    exact ⟨gap', n', hbelow.resolveNode_of_namespace hspace hplaced hkind⟩
  · obtain ⟨gap', n', hbelow⟩ := h scope
    by_cases hclass : isClassLike (gap.fill [n]).kind
    · exact ⟨_, n', hbelow.resolveNode_of_classLike hspace hplaced hclass⟩
    · exact ⟨gap', n', hbelow.resolveNode_of_other hspace hplaced hkind hclass⟩

/-- Below any node that is met in a scope, namespaces are kept apart. -/
theorem exists_keepsApart (hspace : n.kind = namespaceDefinition)
    (hplaced : NamespacesPlaced (gap.fill [n])) (scope : Scope) :
  ∃ gap' n', KeepsApart (resolveBelow scope) gap gap' n n'
  := by
  induction gap generalizing scope with
  | here tag before after => apply keepsApart_here hspace
  | inside tag before inner after ih =>
    have hmem : inner.fill [n] ∈ ((Gap.inside tag before inner after).fill [n]).children :=
      List.mem_append_right _ List.mem_cons_self
    have hinner := hplaced.of_mem_children hmem
    obtain ⟨gap', n', h⟩ := exists_keepsApart_resolveNode hspace hinner (ih hinner)
      (resolveSiblings scope before).2
    obtain ⟨gap', h⟩ := h.inside
    exact ⟨gap', n', h⟩

/-- Let a namespace definition stand anywhere in a tree, among siblings.  When it has no body, the
names recorded on the siblings that follow depend on nothing but its name and these siblings.  When
it has one, the names recorded inside depend on nothing but the definition, and everywhere else the
same names are recorded when the definition is taken away. -/
theorem namespaces_kept_apart (gap : Gap) (n : Node) (hspace : n.kind = namespaceDefinition)
    (hplaced : NamespacesPlaced (gap.fill [n])) :
  ∃ (gap' : Gap) (n' : Node), resolveNames (gap.fill [n]) = gap'.fill [n']
    ∧ gap'.bare = gap.bare ∧ n'.bare = n.bare
    ∧ (n.childByField "body" = none →
      gap'.after = (resolveSiblings (.entering (spaceOf n)) gap.after).1)
    ∧ ((n.childByField "body").isSome →
      n' = (resolveBelow (.entering (spaceOf n)) n).1 ∧ resolveNames (gap.fill []) = gap'.fill [])
  := by
  obtain ⟨gap', n', h⟩ := exists_keepsApart hspace hplaced {}
  refine ⟨gap', n', h.run_eq, h.bare_gap, h.bare_node, h.after_eq, ?_⟩
  intro hbody
  refine ⟨h.node_eq hbody, ?_⟩
  rw [resolveNames, h.without_eq hbody]

/-- The definition `namespace Town {use Pets\Animal; class Cat extends Animal {}}`. -/
def townNamespace : Node :=
  .inner namespaceDefinition
    [(Node.token namespaceName "Town").withField "name",
      (Node.inner ⟨"compound_statement"⟩
        [.inner useStatement [.inner useClause [.token qualifiedName "Pets\\Animal"]],
          .inner classDeclaration
            [(Node.token name "Cat").withField "name",
              .inner baseClause [.token name "Animal"],
              (Node.inner declarationList []).withField "body"]]).withField "body"]

/-- A file with a gap between `use Zoo\Animal;` and `class Wolf extends Animal {}`. -/
def aroundTown : Gap :=
  .here { kind := program }
    [.inner useStatement [.inner useClause [.token qualifiedName "Zoo\\Animal"]]]
    [.inner classDeclaration
      [(Node.token name "Wolf").withField "name",
        .inner baseClause [.token name "Animal"],
        (Node.inner declarationList []).withField "body"]]

/-- A namespace with a body between two classes of another one. -/
theorem namespaces_kept_apart_aroundTown :
  townNamespace.kind = namespaceDefinition
  ∧ NamespacesPlaced (aroundTown.fill [townNamespace])
  ∧ (declarationsOf (resolveNames (aroundTown.fill [townNamespace]))).map
      (fun d => (d.name, d.parent))
    = [("Town\\Cat", some "Pets\\Animal"), ("Wolf", some "Zoo\\Animal")]
  ∧ ∃ (gap' : Gap) (n' : Node), resolveNames (aroundTown.fill [townNamespace]) = gap'.fill [n']
    ∧ gap'.bare = aroundTown.bare ∧ n'.bare = townNamespace.bare
    ∧ (townNamespace.childByField "body" = none →
      gap'.after = (resolveSiblings (.entering (spaceOf townNamespace)) aroundTown.after).1)
    ∧ ((townNamespace.childByField "body").isSome →
      n' = (resolveBelow (.entering (spaceOf townNamespace)) townNamespace).1
      ∧ resolveNames (aroundTown.fill []) = gap'.fill [])
  := by
  have hspace : townNamespace.kind = namespaceDefinition := rfl
  have hplaced : NamespacesPlaced (aroundTown.fill [townNamespace]) := by
    constructor
    · simp only [NamespaceFree, IsPassedOver, Node.descendants_eq_preorder]
      decide
    · simp only [NamespaceFree, Node.descendants_eq_preorder]
      decide
    · simp only [Node.descendants_eq_preorder]
      decide
  refine ⟨hspace, hplaced, ?_, namespaces_kept_apart _ _ hspace hplaced⟩
  simp only [declarationsOf, Node.descendants_eq_preorder]
  decide +kernel

end Php

end Amend
