import Amend.Php.ParseTree
import Amend.Proofs.Annotation
import Amend.Proofs.Slices

/-!
# A parsed text is printed as it was read

`ParseTree.Placed` says of a parse tree of a text that its nodes lie between characters of
the text, inside each other and side by side in order.  The tree that is filled in from such
a parse tree prints the text, also after its names have been resolved, and has the nodes of
the parse tree in the same order.
-/

namespace Amend

/-- What a node is apart from its text: its kind, the field it fills and the number of its
children. -/
structure Mark where
  kind : Kind
  field : Option String
  arity : Nat
deriving DecidableEq, Repr

def Node.mark (n : Node) : Mark := ⟨n.kind, n.field, n.children.length⟩

namespace ParseTree

def mark (t : ParseTree) : Mark := ⟨t.kind, t.field, t.children.length⟩

/-- The tree on its own: its root fills no field. -/
def alone : ParseTree → ParseTree
  | node kind start stop _ isError isMissing hasError children =>
    node kind start stop none isError isMissing hasError children

mutual

/-- The nodes of a parse tree, each before its children. -/
def preorder : ParseTree → List ParseTree
  | node kind start stop field isError isMissing hasError children =>
    node kind start stop field isError isMissing hasError children :: preorderAll children

/-- The nodes of the parse trees of a list, one tree after the other. -/
def preorderAll : List ParseTree → List ParseTree
  | [] => []
  | t :: ts => t.preorder ++ preorderAll ts

end

/-- The ranges that a parser gives in a text: they lie between characters, children inside
their parents, siblings in order and apart.  A range may be empty. -/
inductive Placed (text : String) : ParseTree → Prop
  | node {kind : Kind} {start stop : Nat} {field : Option String}
      {isError isMissing hasError : Bool} {children : List ParseTree}
      (start_isBoundary : Text.IsBoundary text start)
      (stop_isBoundary : Text.IsBoundary text stop)
      (start_le_stop : start ≤ stop)
      (inside : ∀ c ∈ children, start ≤ c.start ∧ c.stop ≤ stop)
      (inOrder : children.Pairwise fun c d => c.stop ≤ d.start)
      (below : ∀ c ∈ children, Placed text c) :
      Placed text (.node kind start stop field isError isMissing hasError children)

namespace Placed

variable {text : String} {t : ParseTree}

/-- A node begins between two characters. -/
theorem isBoundary_start (h : t.Placed text) :
  Text.IsBoundary text t.start
  := by
  cases h
  assumption

/-- A node ends between two characters. -/
theorem isBoundary_stop (h : t.Placed text) :
  Text.IsBoundary text t.stop
  := by
  cases h
  assumption

/-- A node ends where it begins or later. -/
theorem start_le (h : t.Placed text) :
  t.start ≤ t.stop
  := by
  cases h
  assumption

end Placed

/-- The places of a node are right when it begins and ends between characters, has its children in
it one after the other, and theirs are right. -/
theorem placed_node_iff {text : String} {kind : Kind} {start stop : Nat} {field : Option String}
    {isError isMissing hasError : Bool} {children : List ParseTree} :
  Placed text (.node kind start stop field isError isMissing hasError children)
    ↔ (Text.IsBoundary text start ∧ Text.IsBoundary text stop ∧ start ≤ stop)
      ∧ (∀ c ∈ children, start ≤ c.start ∧ c.stop ≤ stop)
      ∧ (children.Pairwise fun c d => c.stop ≤ d.start) ∧ ∀ c ∈ children, c.Placed text
  := by
  constructor
  · rintro ⟨hstart, hstop, hle, hinside, horder, hbelow⟩
    exact ⟨⟨hstart, hstop, hle⟩, hinside, horder, hbelow⟩
  · rintro ⟨⟨hstart, hstop, hle⟩, hinside, horder, hbelow⟩
    exact .node hstart hstop hle hinside horder hbelow

mutual

/-- Whether the ranges of a parse tree are placed in a text can be checked. -/
def decidablePlaced (text : String) : (t : ParseTree) → Decidable (t.Placed text)
  | .node _ _ _ _ _ _ _ children =>
    have := decidablePlacedAll text children
    decidable_of_iff _ placed_node_iff.symm

/-- Whether the ranges of several parse trees are placed in a text can be checked. -/
def decidablePlacedAll (text : String) :
    (ts : List ParseTree) → Decidable (∀ t ∈ ts, t.Placed text)
  | [] => isTrue (by simp)
  | t :: ts =>
    have := decidablePlaced text t
    have := decidablePlacedAll text ts
    decidable_of_iff _ List.forall_mem_cons.symm

end

instance (text : String) (t : ParseTree) : Decidable (t.Placed text) := decidablePlaced text t

/-- Induction over parse trees, with the statement for all children of a node. -/
@[elab_as_elim, induction_eliminator]
theorem ind {motive : ParseTree → Prop}
    (node : ∀ kind start stop field isError isMissing hasError children,
      (∀ c ∈ children, motive c) →
        motive (.node kind start stop field isError isMissing hasError children)) :
    ∀ t, motive t
  | .node kind start stop field isError isMissing hasError children =>
    node kind start stop field isError isMissing hasError children fun c _ => ind node c

/-! ### The printed text -/

/-- The text before a node belongs to what is around it. -/
theorem leading_toInner (text : String) (t : ParseTree) :
  (t.toInner text).leading = ""
  := by
  obtain ⟨kind, start, stop, field, isError, isMissing, hasError, _ | ⟨c, cs⟩⟩ := t <;> rfl

/-- Siblings print the text from where they begin up to the end of the last one. -/
theorem sourceAll_toSiblings {text : String} {cs : List ParseTree} {offset stop : Nat}
    (hsource : ∀ c ∈ cs, (c.toInner text).source = Text.slice text c.start c.stop)
    (hplaced : ∀ c ∈ cs, c.Placed text)
    (hinside : ∀ c ∈ cs, offset ≤ c.start ∧ c.stop ≤ stop)
    (horder : cs.Pairwise fun c d => c.stop ≤ d.start)
    (hoffset : Text.IsBoundary text offset) (hle : offset ≤ stop) :
  Node.sourceAll (toSiblings text offset cs).1
      = Text.slice text offset (toSiblings text offset cs).2
    ∧ Text.IsBoundary text (toSiblings text offset cs).2
    ∧ offset ≤ (toSiblings text offset cs).2 ∧ (toSiblings text offset cs).2 ≤ stop
  := by
  induction cs generalizing offset with
  | nil =>
    refine ⟨?_, hoffset, Nat.le_refl offset, hle⟩
    rw [toSiblings, Text.slice_self, Node.sourceAll]
  | cons c cs ih =>
    rw [List.forall_mem_cons] at hsource hplaced hinside
    rw [List.pairwise_cons] at horder
    obtain ⟨hstart, hstop⟩ := hinside.1
    have hc := hplaced.1.start_le
    have hmax : max offset c.stop = c.stop := by omega
    obtain ⟨hrest, hreached, hlow, hhigh⟩ := ih hsource.2 hplaced.2
      (fun d hd => ⟨horder.1 d hd, (hinside.2 d hd).2⟩) horder.2 hplaced.1.isBoundary_stop hstop
    rw [toSiblings, hmax]
    refine ⟨?_, hreached, Nat.le_trans (Nat.le_trans hstart hc) hlow, hhigh⟩
    have hplace := Node.source_withTag_of_trailing (leading_toInner text c)
      (t := { (c.toInner text).tag with
        leading := Text.slice text offset c.start, field := c.field })
      String.append_empty.symm
    rw [Node.sourceAll, hplace, hrest, hsource.1, String.append_empty,
      Text.slice_append hoffset hplaced.1.isBoundary_start hplaced.1.isBoundary_stop hstart hc,
      Text.slice_append hoffset hplaced.1.isBoundary_stop hreached (by omega) hlow]

/-- A node prints the stretch of text that it covers. -/
theorem source_toInner {text : String} {t : ParseTree} (h : t.Placed text) :
  (t.toInner text).source = Text.slice text t.start t.stop
  := by
  induction t with
  | node kind start stop field isError isMissing hasError children ih =>
    obtain ⟨hstart, hstop, hle, hinside, horder, hbelow⟩ := h
    cases children with
    | nil => simp [toInner, Node.source, ParseTree.start, ParseTree.stop]
    | cons c cs =>
      obtain ⟨hall, hreached, hlow, hhigh⟩ := sourceAll_toSiblings
        (fun d hd => ih d hd (hbelow d hd)) hbelow hinside horder hstart hle
      rw [toInner, Node.source]
      dsimp only
      rw [hall, String.empty_append, Text.slice_append hstart hreached hstop hlow hhigh]
      rfl

/-- The tree of a text prints the text, what stands before the root and after it included. -/
theorem source_toNode {text : String} {root : ParseTree} (h : root.Placed text) :
  (root.toNode text).source = text
  := by
  have hend := h.isBoundary_stop.le_end
  rw [toNode, Node.source_withTag_of_trailing (leading_toInner text root) rfl, source_toInner h,
    Text.slice_append (Text.isBoundary_zero text) h.isBoundary_start h.isBoundary_stop
      (Nat.zero_le _) h.start_le,
    Text.slice_append (Text.isBoundary_zero text) h.isBoundary_stop (Text.isBoundary_end text)
      (Nat.zero_le _) hend,
    Text.slice_all]

/-! ### The nodes -/

/-- A tree is listed with its root first. -/
theorem preorder_eq (t : ParseTree) :
  t.preorder = t :: preorderAll t.children
  := by
  cases t
  rfl

/-- Every child is converted. -/
theorem length_toSiblings (text : String) (offset : Nat) (cs : List ParseTree) :
  (toSiblings text offset cs).1.length = cs.length
  := by
  induction cs generalizing offset with
  | nil => rfl
  | cons c cs ih =>
    rw [toSiblings]
    simp only [List.length_cons, ih]

/-- The conversion keeps the mark of a node. -/
theorem mark_toInner (text : String) (t : ParseTree) :
  (t.toInner text).mark = t.alone.mark
  := by
  obtain ⟨kind, start, stop, field, isError, isMissing, hasError, _ | ⟨c, cs⟩⟩ := t
  · rfl
  · rw [toInner, Node.mark, Node.children, length_toSiblings]
    rfl

/-- A node that is put into a field has the marks of a parse tree in that field. -/
theorem map_mark_withField {n : Node} {t : ParseTree} (leading : String)
    (h : n.descendants.map Node.mark = t.alone.preorder.map mark) :
  (n.withTag { n.tag with leading, field := t.field }).descendants.map Node.mark
    = t.preorder.map mark
  := by
  rw [Node.descendants_eq, preorder_eq, List.map_cons, List.map_cons, List.cons.injEq] at h ⊢
  obtain ⟨hroot, hbelow⟩ := h
  obtain ⟨kind, start, stop, field, isError, isMissing, hasError, children⟩ := t
  rw [Node.children_withTag]
  constructor
  · simp only [Node.mark, mark, Mark.mk.injEq] at hroot ⊢
    refine ⟨?_, ?_, ?_⟩
    · rw [Node.kind, Node.tag_withTag]
      apply hroot.1
    · rw [Node.field, Node.tag_withTag]
    · rw [Node.children_withTag]
      apply hroot.2.2
  · apply hbelow

/-- If the conversion keeps the marks in each child, it keeps them in all. -/
theorem map_mark_toSiblings {text : String} {cs : List ParseTree} (offset : Nat)
    (h : ∀ c ∈ cs, (c.toInner text).descendants.map Node.mark = c.alone.preorder.map mark) :
  ((toSiblings text offset cs).1.flatMap Node.descendants).map Node.mark = (preorderAll cs).map mark
  := by
  induction cs generalizing offset with
  | nil => rfl
  | cons c cs ih =>
    rw [List.forall_mem_cons] at h
    rw [toSiblings, preorderAll]
    simp only [List.flatMap_cons, List.map_append]
    rw [map_mark_withField _ h.1, ih _ h.2]

/-- The conversion keeps the marks of all nodes, in order. -/
theorem map_mark_toInner (text : String) (t : ParseTree) :
  (t.toInner text).descendants.map Node.mark = t.alone.preorder.map mark
  := by
  induction t with
  | node kind start stop field isError isMissing hasError children ih =>
    rw [Node.descendants_eq, preorder_eq, List.map_cons, List.map_cons, mark_toInner]
    congr 1
    cases children with
    | nil => rfl
    | cons c cs =>
      rw [toInner]
      apply map_mark_toSiblings start ih

/-- The tree of a text has the nodes of the parse tree, in the same order. -/
theorem map_mark_toNode (text : String) (root : ParseTree) :
  (root.toNode text).descendants.map Node.mark = root.alone.preorder.map mark
  := by
  rw [← map_mark_toInner text root, toNode, Node.descendants_eq,
    Node.descendants_eq (root.toInner text), Node.children_withTag, List.map_cons, List.map_cons,
    Node.mark, Node.children_withTag, Node.kind, Node.field, Node.tag_withTag]
  rfl

end ParseTree

/-- What is recorded on a node is no part of its mark. -/
theorem Node.map_mark_bare (n : Node) :
  n.bare.descendants.map Node.mark = n.descendants.map Node.mark
  := by
  have h (m : Node) : m.bare.mark = m.mark := by
    rw [Node.mark, Node.children_bare, List.length_map, Node.kind, Node.field, Node.tag_bare]
    rfl
  rw [Node.descendants_bare, List.map_map]
  apply List.map_congr_left fun m _ => h m

/-- A text that is read, its names resolved, and printed comes out unchanged, and the tree
has the nodes of the parse tree in the same order, both before and after its names are
resolved. -/
theorem ParseTree.lossless (text : String) (root : ParseTree) (h : root.Placed text) :
  (Php.resolveNames (root.toNode text)).source = text
    ∧ (root.toNode text).descendants.map Node.mark = root.alone.preorder.map ParseTree.mark
    ∧ (Php.resolveNames (root.toNode text)).descendants.map Node.mark
      = root.alone.preorder.map ParseTree.mark
  := by
  refine ⟨?_, map_mark_toNode text root, ?_⟩
  · rw [Php.source_resolveNames, source_toNode h]
  · rw [← Node.map_mark_bare, Php.bare_resolveNames, Node.map_mark_bare, map_mark_toNode]

/-- The parse tree of `" class ö\n"`, with a node of no width before the declaration. -/
def ParseTree.sampleClass : ParseTree :=
  .node Php.program 1 9 none false false false
    [.node ⟨"text"⟩ 1 1 none false false false [],
      .node Php.classDeclaration 1 9 none false false false
        [.node ⟨"class"⟩ 1 6 none false false false [],
          .node Php.name 7 9 (some "name") false false false []]]

/-- A class with a letter of two bytes in its name. -/
theorem ParseTree.lossless_sampleClass :
  sampleClass.Placed " class ö\n"
    ∧ (Php.resolveNames (sampleClass.toNode " class ö\n")).source = " class ö\n"
    ∧ (sampleClass.toNode " class ö\n").descendants.map Node.mark
      = sampleClass.alone.preorder.map ParseTree.mark
    ∧ (Php.resolveNames (sampleClass.toNode " class ö\n")).descendants.map Node.mark
      = sampleClass.alone.preorder.map ParseTree.mark
  := by
  have h : sampleClass.Placed " class ö\n" := by decide
  exact ⟨h, lossless _ _ h⟩

end Amend
