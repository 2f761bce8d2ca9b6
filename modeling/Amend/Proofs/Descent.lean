import Amend.Proofs.Trees
import Mathlib.Data.List.Basic

/-!
# Walking through a tree node by node

A `Descent` keeps the nodes still to be visited on a stack.  Each step takes the last one of
them and puts its children in its place, the first child last.  The steps give the nodes of a
tree as the recursion gives them, each parent before its children and the children from left to
right, and come to an end after as many steps as there are nodes.  Every node of the tree is met
at one step, and the positions of the nodes increase from step to step
(`Node.descendants_in_order`).  The tokens come in the order in which they are printed.
-/

namespace Amend

/-- A walk through trees: the nodes still to be visited, the next one last. -/
structure Descent where
  stack : List Node
deriving DecidableEq

namespace Descent

/-- The walk through the tree of a node. -/
def start (n : Node) : Descent := ⟨[n]⟩

/-- Take the next node from the stack, and put its children there. -/
def next? (d : Descent) : Option (Node × Descent) :=
  d.stack.getLast?.map fun n => (n, ⟨d.stack.dropLast ++ n.children.reverse⟩)

/-- At most so many steps: the nodes that they give, and the walk that is left. -/
def take : Nat → Descent → List Node × Descent
  | 0, d => ([], d)
  | steps + 1, d =>
    match d.next? with
    | none => ([], d)
    | some (n, d) => (n :: (take steps d).1, (take steps d).2)

/-- The nodes that are still to come, all at once. -/
def rest (d : Descent) : List Node := Node.visit d.stack.reverse

variable {d d' : Descent} {n : Node}

/-- There is no next node when no nodes are to come. -/
theorem next?_eq_none_iff :
  d.next? = none ↔ d.rest = []
  := by
  obtain ⟨stack⟩ := d
  rw [next?, Option.map_eq_none_iff, List.getLast?_eq_none_iff, rest]
  constructor
  · rintro rfl
    rw [List.reverse_nil, Node.visit]
  · intro hrest
    rw [← List.reverse_eq_nil_iff]
    cases hstack : stack.reverse with
    | nil => rfl
    | cons n pending =>
      rw [hstack, Node.visit] at hrest
      cases hrest

/-- A step gives the first of the nodes to come, and leaves the others. -/
theorem rest_of_next? (h : d.next? = some (n, d')) :
  d.rest = n :: d'.rest
  := by
  obtain ⟨stack⟩ := d
  obtain ⟨m, hlast, hpair⟩ := Option.map_eq_some_iff.1 h
  cases hpair
  obtain ⟨pending, rfl⟩ := List.getLast?_eq_some_iff.1 hlast
  rw [rest, rest, List.reverse_append, List.reverse_singleton, List.singleton_append, Node.visit,
    List.dropLast_concat, List.reverse_append, List.reverse_reverse]

/-- So many steps give so many of the nodes to come, and leave the others. -/
theorem take_eq (steps : Nat) (d : Descent) :
  (take steps d).1 = d.rest.take steps ∧ (take steps d).2.rest = d.rest.drop steps
  := by
  induction steps generalizing d with
  | zero => exact ⟨rfl, rfl⟩
  | succ steps ih =>
    rw [take]
    cases hnext : d.next? with
    | none =>
      dsimp only
      rw [next?_eq_none_iff.1 hnext]
      exact ⟨rfl, rfl⟩
    | some r =>
      obtain ⟨hnodes, hleft⟩ := ih r.2
      rw [rest_of_next? hnext, List.take_succ_cons, List.drop_succ_cons]
      exact ⟨congrArg (r.1 :: ·) hnodes, hleft⟩

theorem rest_start (n : Node) :
  (start n).rest = n.descendants
  := rfl

end Descent

namespace Node

/-- As many nodes are visited as there are in the trees. -/
theorem length_visit (ns : List Node) :
  (visit ns).length = sizeAll ns
  := by
  fun_induction visit ns with
  | case1 => rfl
  | case2 n pending ih =>
    rw [List.length_cons, ih, sizeAll_append, sizeAll, size_eq n]
    omega

/-- There are as many nodes below a node, itself included, as its size tells. -/
theorem length_descendants (n : Node) :
  n.descendants.length = n.size
  := by
  rw [descendants, length_visit, sizeAll, sizeAll, Nat.add_zero]

/-! ### Positions -/

/-- The node at a position, which tells, step by step from the top, which child to go to. -/
def at? : Node → List Nat → Option Node
  | n, [] => some n
  | n, i :: p => n.children[i]?.bind fun c => c.at? p

mutual

/-- The positions of the nodes of a tree. -/
def positions : Node → List (List Nat)
  | leaf _ _ => [[]]
  | branch _ children => [] :: positionsFrom 0 children

/-- The positions in the trees of a list, the first of which stands at position `i`. -/
def positionsFrom (i : Nat) : List Node → List (List Nat)
  | [] => []
  | n :: ns => n.positions.map (i :: ·) ++ positionsFrom (i + 1) ns

end

/-- The positions in the trees of a list begin with the index of the tree. -/
theorem positionsFrom_eq_flatMap (i : Nat) (ns : List Node) :
  positionsFrom i ns = (ns.zipIdx i).flatMap fun c => c.1.positions.map (c.2 :: ·)
  := by
  induction ns generalizing i with
  | nil => rfl
  | cons n ns ih => rw [positionsFrom, ih, List.zipIdx_cons, List.flatMap_cons]

/-- A node stands at the top, and the others below the index of the child that holds them. -/
theorem positions_eq (n : Node) :
  n.positions = [] :: n.children.zipIdx.flatMap fun c => c.1.positions.map (c.2 :: ·)
  := by
  cases n with
  | leaf tag text => rfl
  | branch tag children => rw [positions, positionsFrom_eq_flatMap, Node.children]

theorem mem_of_mem_zipIdx {ns : List Node} {c : Node × Nat} (h : c ∈ ns.zipIdx) :
  c.1 ∈ ns
  := List.mem_of_getElem? (List.mem_zipIdx_iff_getElem?.1 h)

/-- Indices increase along a list. -/
theorem pairwise_zipIdx (ns : List Node) :
  ns.zipIdx.Pairwise (·.2 < ·.2)
  := by
  have hindices : (List.range' 0 ns.length).Pairwise (· < ·) := List.pairwise_lt_range'
  rw [← List.zipIdx_map_snd 0 ns, List.pairwise_map] at hindices
  exact hindices

/-- The first step leads to the child, and the others from there. -/
theorem at?_cons_of_mem_zipIdx {n : Node} {c : Node × Nat} (h : c ∈ n.children.zipIdx)
    (p : List Nat) :
  n.at? (c.2 :: p) = c.1.at? p
  := by
  rw [at?, List.mem_zipIdx_iff_getElem?.1 h, Option.bind_some]

/-- The positions are those at which there is a node. -/
theorem mem_positions_iff {n : Node} {p : List Nat} :
  p ∈ n.positions ↔ (n.at? p).isSome = true
  := by
  induction n using below_induction generalizing p with
  | below n ih =>
    rw [positions_eq, List.mem_cons, List.mem_flatMap]
    cases p with
    | nil => simp [at?]
    | cons i p =>
      constructor
      · rintro (hnil | ⟨c, hc, hp⟩)
        · cases hnil
        · obtain ⟨q, hq, hpair⟩ := List.mem_map.1 hp
          cases hpair
          rw [at?_cons_of_mem_zipIdx hc]
          apply (ih c.1 (mem_of_mem_zipIdx hc)).1 hq
      · intro hsome
        obtain ⟨m, hm⟩ := Option.isSome_iff_exists.1 hsome
        obtain ⟨c, hc, hcm⟩ := Option.bind_eq_some_iff.1 hm
        refine .inr ⟨(c, i), List.mem_zipIdx_iff_getElem?.2 hc, List.mem_map_of_mem ?_⟩
        apply (ih c (List.mem_of_getElem? hc)).2
        rw [hcm]
        rfl

/-- Each position comes before the positions below it, and these before the next sibling. -/
theorem pairwise_positions (n : Node) :
  n.positions.Pairwise (· < ·)
  := by
  induction n using below_induction with
  | below n ih =>
    rw [positions_eq, List.pairwise_cons, List.pairwise_flatMap]
    refine ⟨?_, ?_, ?_⟩
    · intro p hp
      obtain ⟨c, -, hp⟩ := List.mem_flatMap.1 hp
      obtain ⟨q, -, rfl⟩ := List.mem_map.1 hp
      apply List.nil_lt_cons
    · intro c hc
      rw [List.pairwise_map]
      apply (ih c.1 (mem_of_mem_zipIdx hc)).imp
      intro p q hpq
      rw [List.cons_lt_cons_iff]
      exact .inr ⟨rfl, hpq⟩
    · apply (pairwise_zipIdx n.children).imp
      intro c d hcd p hp q hq
      obtain ⟨p, -, rfl⟩ := List.mem_map.1 hp
      obtain ⟨q, -, rfl⟩ := List.mem_map.1 hq
      rw [List.cons_lt_cons_iff]
      exact .inl hcd

/-- The nodes come in the order of their positions. -/
theorem map_at?_positions (n : Node) :
  n.positions.map n.at? = n.descendants.map some
  := by
  induction n using below_induction with
  | below n ih =>
    rw [positions_eq, descendants_eq, List.map_cons, List.map_cons, at?, List.map_flatMap,
      List.map_flatMap]
    congr 1
    calc n.children.zipIdx.flatMap (fun c => (c.1.positions.map (c.2 :: ·)).map n.at?)
      _ = n.children.zipIdx.flatMap (fun c => c.1.descendants.map some) := by
        apply List.flatMap_congr
        intro c hc
        rw [List.map_map, ← ih c.1 (mem_of_mem_zipIdx hc)]
        apply List.map_congr_left
        intro p _
        apply at?_cons_of_mem_zipIdx hc
      _ = (n.children.zipIdx.map Prod.fst).flatMap (fun c => c.descendants.map some) := by
        rw [List.flatMap_map]
      _ = n.children.flatMap (fun c => c.descendants.map some) := by
        rw [List.zipIdx_map_fst]

end Node

/-! ### Printed pieces -/

/-- A piece of a printed text: trivia around a node, or a token. -/
inductive Piece where
  | trivia (text : String)
  | token (n : Node)
deriving DecidableEq

namespace Piece

def text : Piece → String
  | .trivia text => text
  | .token n => n.text

def token? : Piece → Option Node
  | .trivia _ => none
  | .token n => some n

/-- Pieces printed one after the other. -/
def print : List Piece → String
  | [] => ""
  | piece :: pieces => piece.text ++ print pieces

theorem print_append (pieces pieces' : List Piece) :
  print (pieces ++ pieces') = print pieces ++ print pieces'
  := by
  induction pieces with
  | nil => rw [print, List.nil_append, String.empty_append]
  | cons piece pieces ih => rw [List.cons_append, print, print, ih, String.append_assoc]

end Piece

namespace Node

/-- Whether the node is a token. -/
def isToken (n : Node) : Bool := n.tokenText.isSome

mutual

/-- What is printed of a node, piece by piece. -/
def pieces : Node → List Piece
  | leaf tag text => [.trivia tag.leading, .token (leaf tag text), .trivia tag.trailing]
  | branch tag children =>
    .trivia tag.leading :: (piecesAll children ++ [.trivia tag.trailing])

/-- What is printed of the nodes of a list, one after the other. -/
def piecesAll : List Node → List Piece
  | [] => []
  | n :: ns => n.pieces ++ piecesAll ns

end

/-- If the pieces of each node make it up, so do those of a list of nodes. -/
theorem print_piecesAll {ns : List Node} (h : ∀ n ∈ ns, Piece.print n.pieces = n.source) :
  Piece.print (piecesAll ns) = sourceAll ns
  := by
  induction ns with
  | nil => rfl
  | cons n ns ih =>
    rw [List.forall_mem_cons] at h
    rw [piecesAll, Piece.print_append, h.1, ih h.2, sourceAll]

/-- The pieces make up the printed node. -/
theorem print_pieces (n : Node) :
  Piece.print n.pieces = n.source
  := by
  induction n with
  | leaf tag text =>
    simp only [pieces, Piece.print, Piece.text, Node.text, source, String.append_empty,
      String.append_assoc]
  | branch tag children ih =>
    rw [pieces, Piece.print, Piece.print_append, print_piecesAll ih, Piece.print, Piece.print,
      String.append_empty, source, ← String.append_assoc]
    rfl

/-- If each node has its tokens printed in order, so has a list of nodes. -/
theorem filterMap_token?_piecesAll {ns : List Node}
    (h : ∀ n ∈ ns, n.pieces.filterMap Piece.token? = n.descendants.filter isToken) :
  (piecesAll ns).filterMap Piece.token? = (ns.flatMap descendants).filter isToken
  := by
  induction ns with
  | nil => rfl
  | cons n ns ih =>
    rw [List.forall_mem_cons] at h
    rw [piecesAll, List.filterMap_append, h.1, ih h.2, List.flatMap_cons, List.filter_append]

/-- The tokens are printed in the order in which the walk meets them. -/
theorem filterMap_token?_pieces (n : Node) :
  n.pieces.filterMap Piece.token? = n.descendants.filter isToken
  := by
  induction n with
  | leaf tag text =>
    rw [descendants_eq]
    rfl
  | branch tag children ih =>
    have hbranch : ¬ (branch tag children).isToken = true := Bool.false_ne_true
    have htrivia (text : String) : Piece.token? (.trivia text) = none := rfl
    rw [descendants_eq, List.filter_cons_of_neg hbranch, Node.children,
      ← filterMap_token?_piecesAll ih, pieces, List.filterMap_cons_none (htrivia _),
      List.filterMap_append, List.filterMap_cons_none (htrivia _), List.filterMap_nil,
      List.append_nil]

theorem textAll_append (ns ms : List Node) :
  textAll (ns ++ ms) = textAll ns ++ textAll ms
  := by
  induction ns with
  | nil => rw [textAll, List.nil_append, String.empty_append]
  | cons n ns ih => rw [List.cons_append, textAll, textAll, ih, String.append_assoc]

/-- If the tokens of each node make up its text, so do those of a list of nodes. -/
theorem textAll_filter_isToken {ns : List Node}
    (h : ∀ n ∈ ns, textAll (n.descendants.filter isToken) = n.text) :
  textAll ((ns.flatMap descendants).filter isToken) = textAll ns
  := by
  induction ns with
  | nil => rfl
  | cons n ns ih =>
    rw [List.forall_mem_cons] at h
    rw [List.flatMap_cons, List.filter_append, textAll_append, h.1, ih h.2, textAll]

/-- The text without trivia is that of the tokens that the walk meets. -/
theorem textAll_tokens (n : Node) :
  textAll (n.descendants.filter isToken) = n.text
  := by
  induction n with
  | leaf tag text =>
    rw [descendants_eq, List.filter_cons_of_pos rfl]
    simp only [children, List.flatMap_nil, List.filter_nil, textAll, String.append_empty]
  | branch tag children ih =>
    have hbranch : ¬ (branch tag children).isToken = true := Bool.false_ne_true
    rw [descendants_eq, List.filter_cons_of_neg hbranch, Node.children, textAll_filter_isToken ih,
      Node.text]

/-- The nodes below a node are those of the recursion.  Steps of a walk give them one by one, and
after as many steps as there are nodes there is no next one.  They are the nodes at all positions
of the tree, each position once and in increasing order.  The tokens among them are those that are
printed, trivia standing between them, and those that make up the text, in the same order. -/
theorem descendants_in_order (n : Node) :
  n.descendants = n.preorder ∧ n.descendants.length = n.size
  ∧ (∀ steps, ((Descent.start n).take steps).1 = n.preorder.take steps
      ∧ (((Descent.start n).take steps).2.next? = none ↔ n.size ≤ steps))
  ∧ (∃ positions : List (List Nat), positions.Pairwise (· < ·)
      ∧ (∀ p, p ∈ positions ↔ (n.at? p).isSome = true)
      ∧ positions.map n.at? = n.descendants.map some)
  ∧ (n.source = Piece.print n.pieces
      ∧ n.pieces.filterMap Piece.token? = n.descendants.filter isToken)
  ∧ n.text = textAll (n.descendants.filter isToken)
  := by
  refine ⟨n.descendants_eq_preorder, n.length_descendants, fun steps => ?_, ?_, ?_, ?_⟩
  · obtain ⟨hnodes, hrest⟩ := Descent.take_eq steps (.start n)
    rw [Descent.rest_start] at hnodes hrest
    constructor
    · rw [hnodes, descendants_eq_preorder]
    · rw [Descent.next?_eq_none_iff, hrest, List.drop_eq_nil_iff, length_descendants]
  · exact ⟨n.positions, n.pairwise_positions, fun p => mem_positions_iff, n.map_at?_positions⟩
  · exact ⟨n.print_pieces.symm, n.filterMap_token?_pieces⟩
  · rw [textAll_tokens]

end Node

end Amend
