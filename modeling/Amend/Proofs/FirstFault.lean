import Amend.Php.Reading
import Amend.Proofs.RoundTrip

/-!
# The first fault of a text

A parser marks the nodes that are faults and those that hold one.  `ParseTree.firstFault?`
looks into marked nodes only.  When the marks are right it misses nothing: it finds the fault
that comes first in the whole tree (`ParseTree.firstFault?_eq`), and a tree without a mark at its
root has no fault at all (`ParseTree.hasError_iff`).  So a text is read exactly when there is no
fault in its parse tree, and the message about any other text tells the place of its first fault
(`Php.read_first_fault`).
-/

namespace Amend

namespace ParseTree

/-- The marks of a parse tree are right: every node is marked exactly when it is a fault or has a
child that is marked. -/
def WellMarked (t : ParseTree) : Prop :=
  ∀ m ∈ t.preorder, m.hasError = true ↔ m.isFault = true ∨ ∃ c ∈ m.children, c.hasError = true

instance (t : ParseTree) : Decidable t.WellMarked :=
  inferInstanceAs (Decidable (∀ m ∈ t.preorder, _))

/-! ### The nodes of a parse tree -/

theorem preorderAll_eq_flatMap (ts : List ParseTree) :
  preorderAll ts = ts.flatMap preorder
  := by
  induction ts with
  | nil => rfl
  | cons t ts ih => rw [preorderAll, ih, List.flatMap_cons]

/-- A node of a tree is its root or a node of one of the children. -/
theorem mem_preorder {m t : ParseTree} :
  m ∈ t.preorder ↔ m = t ∨ ∃ c ∈ t.children, m ∈ c.preorder
  := by
  rw [preorder_eq, List.mem_cons, preorderAll_eq_flatMap, List.mem_flatMap]

theorem self_mem_preorder (t : ParseTree) :
  t ∈ t.preorder
  := mem_preorder.2 (.inl rfl)

/-! ### Marks -/

variable {t : ParseTree}

/-- The mark of the root is right. -/
theorem WellMarked.hasError_self (h : t.WellMarked) :
  t.hasError = true ↔ t.isFault = true ∨ ∃ c ∈ t.children, c.hasError = true
  := h t t.self_mem_preorder

/-- The marks of a child are right. -/
theorem WellMarked.child (h : t.WellMarked) {c : ParseTree} (hc : c ∈ t.children) :
  c.WellMarked
  := by
  intro m hm
  apply h m (mem_preorder.2 (.inr ⟨c, hc, hm⟩))

/-- A tree is marked at its root exactly when there is a fault in it. -/
theorem hasError_iff (h : t.WellMarked) :
  t.hasError = true ↔ ∃ m ∈ t.preorder, m.isFault = true
  := by
  induction t with
  | node kind start stop field isError isMissing hasError children ih =>
    rw [h.hasError_self]
    constructor
    · rintro (hfault | ⟨c, hc, hmarked⟩)
      · exact ⟨_, self_mem_preorder _, hfault⟩
      · obtain ⟨m, hm, hfault⟩ := (ih c hc (h.child hc)).1 hmarked
        exact ⟨m, mem_preorder.2 (.inr ⟨c, hc, hm⟩), hfault⟩
    · rintro ⟨m, hm, hfault⟩
      obtain rfl | ⟨c, hc, hm⟩ := mem_preorder.1 hm
      · exact .inl hfault
      · exact .inr ⟨c, hc, (ih c hc (h.child hc)).2 ⟨m, hm, hfault⟩⟩

/-- No fault is found in a tree that is not marked. -/
theorem find?_isFault_eq_none (h : t.WellMarked) (hunmarked : t.hasError = false) :
  t.preorder.find? isFault = none
  := by
  rw [List.find?_eq_none]
  intro m hm hfault
  cases hunmarked.symm.trans ((hasError_iff h).2 ⟨m, hm, hfault⟩)

/-! ### The search -/

/-- A fault is the first one of its tree, and else the first fault is one among the children. -/
theorem firstFault?_eq_ite (t : ParseTree) :
  t.firstFault? = if t.isFault then some t.start else firstFaultAmong? t.children
  := by
  cases t
  rfl

/-- Passing over the trees that are not marked passes over no fault. -/
theorem firstFaultAmong?_eq {ts : List ParseTree} (hmarked : ∀ t ∈ ts, t.WellMarked)
    (hfirst : ∀ t ∈ ts, t.firstFault? = (t.preorder.find? isFault).map start) :
  firstFaultAmong? ts = ((preorderAll ts).find? isFault).map start
  := by
  induction ts with
  | nil => rfl
  | cons t ts ih =>
    rw [List.forall_mem_cons] at hmarked hfirst
    have hrest := ih hmarked.2 hfirst.2
    rw [firstFaultAmong?, preorderAll, List.find?_append]
    cases hroot : t.hasError with
    | false => rw [if_neg Bool.false_ne_true, hrest, find?_isFault_eq_none hmarked.1 hroot,
        Option.none_or]
    | true => rw [if_pos rfl, hrest, hfirst.1, Option.map_or]

/-- The search finds the first of all faults of the tree. -/
theorem firstFault?_eq (h : t.WellMarked) :
  t.firstFault? = (t.preorder.find? isFault).map start
  := by
  induction t with
  | node kind start stop field isError isMissing hasError children ih =>
    rw [firstFault?_eq_ite, preorder_eq, List.find?_cons]
    split
    · rename_i hfault
      rw [hfault]
      rfl
    · rename_i hfault
      rw [Bool.eq_false_iff.2 hfault]
      apply firstFaultAmong?_eq (fun c hc => h.child hc) fun c hc => ih c hc (h.child hc)

end ParseTree

namespace Php

/-- The message that tells a place is never the one that tells none. -/
theorem syntaxErrorMessage_some_ne_none (place : Text.Place) :
  syntaxErrorMessage (some place) ≠ syntaxErrorMessage none
  := by
  intro h
  have htexts : "syntax error at line " ++ toString (place.row + 1) ++ ", column "
      ++ toString (place.column + 1) = "syntax error" := h
  have hlengths := congrArg String.length htexts
  rw [String.length_append, String.length_append, String.length_append] at hlengths
  have hlong : "syntax error at line ".length = 21 := by decide
  have hshort : "syntax error".length = 12 := by decide
  omega

variable {grammar : Grammar} {text : String} {root : ParseTree}

/-- A text the tree of which is marked is refused. -/
theorem read_of_hasError (path : String) (hroot : grammar text = some root)
    (herror : root.hasError = true) :
  read grammar path text
    = .error (.parse path (syntaxErrorMessage (root.firstFault?.map (Text.placeOf text))))
  := by
  rw [read, hroot]
  exact if_pos herror

/-- A text the tree of which is not marked is read. -/
theorem read_of_not_hasError (path : String) (hroot : grammar text = some root)
    (herror : root.hasError = false) :
  read grammar path text = .ok (resolveNames (root.toNode text))
  := by
  rw [read, hroot]
  apply if_neg
  rw [herror]
  apply Bool.false_ne_true

/-- A text whose parse tree is marked rightly is read exactly when there is no fault in the tree.
Else the search finds the first fault of the whole tree, and the text is refused with a message
that tells the place of this fault, never with the one that tells no place. -/
theorem read_first_fault (grammar : Grammar) (path text : String) (root : ParseTree)
    (hroot : grammar text = some root) (h : root.WellMarked) :
  root.firstFault? = (root.preorder.find? ParseTree.isFault).map ParseTree.start
  ∧ (root.hasError = true → ∃ fault, root.preorder.find? ParseTree.isFault = some fault
      ∧ root.firstFault? = some fault.start
      ∧ read grammar path text
        = .error (.parse path (syntaxErrorMessage (some (Text.placeOf text fault.start)))))
  ∧ ((∃ tree, read grammar path text = .ok tree) ↔ ∀ m ∈ root.preorder, m.isFault = false)
  ∧ read grammar path text ≠ .error (.parse path (syntaxErrorMessage none))
  := by
  have hfirst := ParseTree.firstFault?_eq h
  refine ⟨hfirst, ?_⟩
  cases herror : root.hasError with
  | true =>
    obtain ⟨m, hm, hfault⟩ := (ParseTree.hasError_iff h).1 herror
    have hfound : (root.preorder.find? ParseTree.isFault).isSome = true :=
      List.find?_isSome.2 ⟨m, hm, hfault⟩
    obtain ⟨fault, hfind⟩ := Option.isSome_iff_exists.1 hfound
    rw [hfind, Option.map_some] at hfirst
    have hread := read_of_hasError path hroot herror
    rw [hfirst, Option.map_some] at hread
    refine ⟨fun _ => ⟨fault, hfind, hfirst, hread⟩, ⟨?_, ?_⟩, ?_⟩
    · rintro ⟨tree, htree⟩
      cases htree.symm.trans hread
    · intro hnone
      cases (hnone m hm).symm.trans hfault
    · intro hread'
      obtain ⟨-, hmessage⟩ := Failure.parse.inj (Except.error.inj (hread.symm.trans hread'))
      apply syntaxErrorMessage_some_ne_none _ hmessage
  | false =>
    have hread := read_of_not_hasError path hroot herror
    refine ⟨fun hmarked => ?_, ⟨fun _ m hm => ?_, fun _ => ⟨_, hread⟩⟩, fun hread' => ?_⟩
    · cases hmarked
    · rw [Bool.eq_false_iff]
      intro hfault
      cases herror.symm.trans ((ParseTree.hasError_iff h).2 ⟨m, hm, hfault⟩)
    · cases hread.symm.trans hread'

/-- The parse tree of `"<?php\n$a = ;\n\x7d\n"`, where a value is missing and a bracket is left
over. -/
def brokenFile : ParseTree :=
  .node program 0 15 none false false true
    [.node ⟨"php_tag"⟩ 0 5 none false false false [],
      .node ⟨"expression_statement"⟩ 6 12 none false false true
        [.node ⟨"assignment_expression"⟩ 6 10 none false false true
            [.node variableName 6 8 (some "left") false false false [],
              .node ⟨"="⟩ 9 10 none false false false [],
              .node name 10 10 (some "right") false true true []],
          .node ⟨";"⟩ 11 12 none false false false []],
      .node ⟨"ERROR"⟩ 13 14 none true false true []]

/-- It is the missing value, deep in the tree, of which the message tells. -/
theorem read_first_fault_brokenFile :
  brokenFile.WellMarked
    ∧ read (fun _ => some brokenFile) "Broken.php" "<?php\n$a = ;\n\x7d\n"
      = .error (.parse "Broken.php" "syntax error at line 2, column 5")
  := by
  have h : brokenFile.WellMarked := by decide
  refine ⟨h, ?_⟩
  obtain ⟨-, hrefused, -⟩ := read_first_fault (fun _ => some brokenFile) "Broken.php"
    "<?php\n$a = ;\n\x7d\n" brokenFile rfl h
  obtain ⟨fault, hfind, -, hread⟩ := hrefused rfl
  cases hfind
  exact hread

end Php

end Amend
