import Amend.Tree.Preorder

/-!
# Induction over trees

A statement holds of all trees when it holds of tokens, and of an inner node as soon as it
holds of its children.  `Node.preorder` lists the nodes of a tree by recursion;
`Node.descendants` gives the same list.  `Node.content` is what a node prints between its own
trivia.
-/

namespace Amend.Node

/-! ### Induction -/

/-- Induction over trees, with the statement for all children of an inner node. -/
@[elab_as_elim, induction_eliminator]
theorem ind {motive : Node → Prop} (leaf : ∀ tag text, motive (.leaf tag text))
    (branch : ∀ tag children, (∀ c ∈ children, motive c) → motive (.branch tag children)) :
    ∀ n, motive n
  | .leaf tag text => leaf tag text
  | .branch tag children => branch tag children fun c _ => ind leaf branch c

/-- Induction over trees, a token being a node without children. -/
@[elab_as_elim]
theorem below_induction {motive : Node → Prop}
    (below : ∀ n, (∀ c ∈ n.children, motive c) → motive n) (n : Node) :
  motive n
  := by
  induction n with
  | leaf tag text => exact below _ fun c hc => nomatch hc
  | branch tag children ih => exact below _ ih

/-- A node with its own children in place of its children is the same. -/
@[simp]
theorem withChildren_children (n : Node) :
  n.withChildren n.children = n
  := by
  cases n <;> rfl

@[simp]
theorem tag_withChildren (n : Node) (children : List Node) :
  (n.withChildren children).tag = n.tag
  := by
  cases n <;> rfl

@[simp]
theorem children_withChildren_map (n : Node) (f : Node → Node) :
  (n.withChildren (n.children.map f)).children = n.children.map f
  := by
  cases n <;> rfl

/-! ### Size and height -/

/-- One of some trees is no larger than all of them. -/
theorem size_le_sizeAll_of_mem {n : Node} {ns : List Node} (h : n ∈ ns) :
  n.size ≤ sizeAll ns
  := by
  obtain ⟨before, after, rfl⟩ := List.append_of_mem h
  rw [sizeAll_append, sizeAll]
  omega

/-- A child is smaller than its parent. -/
theorem size_lt_of_mem_children {c n : Node} (h : c ∈ n.children) :
  c.size < n.size
  := by
  have := size_le_sizeAll_of_mem h
  rw [size_eq n]
  omega

/-- One of some trees is no higher than the highest. -/
theorem height_le_heightAll_of_mem {n : Node} {ns : List Node} (h : n ∈ ns) :
  n.height ≤ heightAll ns
  := by
  induction ns with
  | nil => cases h
  | cons m ns ih =>
    rw [heightAll]
    rcases List.mem_cons.1 h with rfl | h
    · apply Nat.le_max_left
    · apply Nat.le_trans (ih h) (Nat.le_max_right _ _)

/-- A child is less high than its parent. -/
theorem height_lt_of_mem_children {c n : Node} (h : c ∈ n.children) :
  c.height < n.height
  := by
  cases n with
  | leaf tag text => cases h
  | branch tag children =>
    have hle : c.height ≤ heightAll children := height_le_heightAll_of_mem h
    rw [height]
    omega

/-- Every tree has a level. -/
theorem one_le_height (n : Node) :
  1 ≤ n.height
  := by
  cases n <;> simp [height]

/-! ### The nodes of a tree -/

mutual

/-- A node and everything below it, each node before its children. -/
def preorder : Node → List Node
  | leaf tag text => [leaf tag text]
  | branch tag children => branch tag children :: preorderAll children

/-- The nodes of the trees of a list, one tree after the other. -/
def preorderAll : List Node → List Node
  | [] => []
  | n :: ns => n.preorder ++ preorderAll ns

end

theorem preorderAll_eq_flatMap (ns : List Node) :
  preorderAll ns = ns.flatMap preorder
  := by
  induction ns with
  | nil => rfl
  | cons n ns ih => rw [preorderAll, ih, List.flatMap_cons]

/-- A node comes before what is in its children, from left to right. -/
theorem preorder_eq (n : Node) :
  n.preorder = n :: n.children.flatMap preorder
  := by
  cases n with
  | leaf tag text => rfl
  | branch tag children => rw [preorder, preorderAll_eq_flatMap, Node.children]

/-- Visiting nodes from a list of pending ones gives each tree in turn. -/
theorem visit_eq (ns : List Node) :
  visit ns = ns.flatMap preorder
  := by
  fun_induction visit ns with
  | case1 => rfl
  | case2 n pending ih =>
    rw [ih, List.flatMap_append, List.flatMap_cons, preorder_eq, List.cons_append]

/-- The loop over pending nodes gives them as the recursion does. -/
theorem descendants_eq_preorder (n : Node) :
  n.descendants = n.preorder
  := by
  rw [descendants, visit_eq, List.flatMap_singleton]

/-- The nodes below a node are itself and those below its children, from left to right. -/
theorem descendants_eq (n : Node) :
  n.descendants = n :: n.children.flatMap descendants
  := by
  have h : descendants = preorder := funext descendants_eq_preorder
  rw [h]
  apply preorder_eq

/-- A node below another one is this one or below one of its children. -/
theorem mem_descendants {m n : Node} :
  m ∈ n.descendants ↔ m = n ∨ ∃ c ∈ n.children, m ∈ c.descendants
  := by
  rw [descendants_eq, List.mem_cons, List.mem_flatMap]

theorem self_mem_descendants (n : Node) :
  n ∈ n.descendants
  := mem_descendants.2 (.inl rfl)

/-- What is below a child is below the parent. -/
theorem mem_descendants_of_mem_children {m c n : Node} (hm : m ∈ c.descendants)
    (hc : c ∈ n.children) :
  m ∈ n.descendants
  := mem_descendants.2 (.inr ⟨c, hc, hm⟩)

/-- A child is below its parent. -/
theorem mem_descendants_of_child {c n : Node} (hc : c ∈ n.children) :
  c ∈ n.descendants
  := mem_descendants_of_mem_children c.self_mem_descendants hc

/-! ### Text and source -/

/-- The text of one of some trees is no longer than that of all. -/
theorem length_text_le_of_mem {n : Node} {ns : List Node} (h : n ∈ ns) :
  n.text.length ≤ (textAll ns).length
  := by
  induction ns with
  | nil => cases h
  | cons m ns ih =>
    rw [textAll, String.length_append]
    rcases List.mem_cons.1 h with rfl | h
    · apply Nat.le_add_right
    · apply Nat.le_trans (ih h) (Nat.le_add_left _ _)


/-- What a node prints without the trivia before it and after it. -/
def content : Node → String
  | leaf _ text => text
  | branch _ children => sourceAll children

/-- A node with children prints what they print. -/
theorem content_of_children_ne_nil {n : Node} (h : n.children ≠ []) :
  n.content = sourceAll n.children
  := by
  cases n with
  | leaf tag text => cases h rfl
  | branch tag children => rfl

/-- A node without children prints its text. -/
theorem content_of_children_eq_nil {n : Node} (h : n.children = []) :
  n.content = n.text
  := by
  cases n with
  | leaf tag text => rfl
  | branch tag children =>
    change children = [] at h
    rw [h]
    rfl

/-- A node is printed with the trivia around it. -/
theorem source_eq (n : Node) :
  n.source = n.leading ++ n.content ++ n.trailing
  := by
  cases n <;> rfl

/-- The tag of a node has no part in what is printed between its trivia. -/
@[simp]
theorem content_withTag (n : Node) (t : Tag) :
  (n.withTag t).content = n.content
  := by
  cases n <;> rfl

/-- A node with another tag is printed with the trivia of that tag. -/
theorem source_withTag (n : Node) (t : Tag) :
  (n.withTag t).source = t.leading ++ n.content ++ t.trailing
  := by
  rw [source_eq, content_withTag, leading, trailing, tag_withTag]

/-- A node without leading trivia that gets some, and gets more trailing trivia, is printed
between the two. -/
theorem source_withTag_of_trailing {n : Node} {t : Tag} {more : String} (hl : n.leading = "")
    (ht : t.trailing = n.trailing ++ more) :
  (n.withTag t).source = t.leading ++ n.source ++ more
  := by
  rw [source_withTag, source_eq, hl, ht, String.empty_append]
  simp only [String.append_assoc]

@[simp]
theorem sourceAll_append (ns ms : List Node) :
  sourceAll (ns ++ ms) = sourceAll ns ++ sourceAll ms
  := by
  induction ns with
  | nil => simp [sourceAll]
  | cons n ns ih => rw [List.cons_append, sourceAll, sourceAll, ih, String.append_assoc]

/-- Trees that print the same one by one print the same one after the other. -/
theorem sourceAll_map_congr {f : Node → Node} {ns : List Node}
    (h : ∀ n ∈ ns, (f n).source = n.source) :
  sourceAll (ns.map f) = sourceAll ns
  := by
  induction ns with
  | nil => rfl
  | cons n ns ih =>
    rw [List.forall_mem_cons] at h
    rw [List.map_cons, sourceAll, sourceAll, h.1, ih h.2]

end Amend.Node
