import Amend.Proofs.Journal
import Mathlib.Data.List.InsertIdx

/-!
# The walk through siblings as a recursion

`Pass.walkSiblings` changes the list of siblings that it goes through and keeps its place in
it by a position.  `Pass.showAll` shows the siblings of a list one after the other and puts
together what each of them leaves; the loop comes to the same (`Pass.walkSiblings_eq`).
-/

namespace Amend.Pass

variable (registry : Registry) (queries : Queries)
  (below : Node → Journal → Option (Node × Journal))

/-- Show one node: what it leaves in its place, and the journal after it and everything below
it have been shown. -/
def showNode (n : Node) (j : Journal) : Option (List Node × Journal) :=
  match j.consult registry queries n with
  | (some (rule, .replace new), j) =>
    (below (new.inheritPosition n) (j.applied rule n false)).map fun r => ([r.1], r.2)
  | (some (rule, .remove), j) => some ([], j.applied rule n true)
  | (_, j) => (below n j).map fun r => ([r.1], r.2)

/-- Show the nodes of a list from left to right. -/
def showAll : List Node → Journal → Option (List Node × Journal)
  | [], j => some ([], j)
  | n :: ns, j =>
    (showNode registry queries below n j).bind fun r =>
      (showAll ns r.2).map fun s => (r.1 ++ s.1, s.2)

section ShowNode

variable {registry queries below} {n : Node} {j : Journal} {rule : String}

/-- A node that is replaced: the walk goes on below the new one, and the change is noted. -/
theorem showNode_of_replace {new : Node}
    (h : registry.wanted ⟨j.ancestors, queries⟩ n = some (rule, .replace new)) :
  showNode registry queries below n j
    = (below (new.inheritPosition n)
        (j.extend
          (registry.asking j.activity ⟨j.ancestors, queries⟩ n ++ .change rule n false))).map
            fun r => ([r.1], r.2)
  := by
  rw [showNode, Journal.consult_eq, h]
  simp only [Journal.applied_eq, Journal.extend_extend]

/-- A node that is removed: nothing is left, and the change is noted. -/
theorem showNode_of_remove
    (h : registry.wanted ⟨j.ancestors, queries⟩ n = some (rule, .remove)) :
  showNode registry queries below n j
    = some ([],
        j.extend (registry.asking j.activity ⟨j.ancestors, queries⟩ n ++ .change rule n true))
  := by
  rw [showNode, Journal.consult_eq, h]
  simp only [Journal.applied_eq, Journal.extend_extend]

/-- A node that no rule changes: the walk goes on below it. -/
theorem showNode_of_none (h : registry.wanted ⟨j.ancestors, queries⟩ n = none) :
  showNode registry queries below n j
    = (below n (j.extend (registry.asking j.activity ⟨j.ancestors, queries⟩ n))).map
        fun r => ([r.1], r.2)
  := by
  rw [showNode, Journal.consult_eq, h]

end ShowNode

/-! ### The loop -/

/-- The siblings up to a position at which one was replaced. -/
theorem take_succ_set {i : Nat} {siblings : List Node} (hi : i < siblings.length) (n : Node) :
  (siblings.set i n).take (i + 1) = siblings.take i ++ [n]
  := by
  have hi' : i < (siblings.set i n).length := by rwa [List.length_set]
  rw [List.take_succ_eq_append_getElem hi', List.getElem_set_self,
    List.take_set_of_le (Nat.le_refl i)]

/-- The siblings from a position on at which one was removed. -/
theorem drop_eraseIdx (i : Nat) (siblings : List Node) :
  (siblings.eraseIdx i).drop i = siblings.drop (i + 1)
  := by
  induction siblings generalizing i with
  | nil => simp
  | cons n siblings ih =>
    cases i with
    | zero => rfl
    | succ i => apply ih

/-- The loop leaves the siblings before its position alone and shows all others once. -/
theorem walkSiblings_eq (i : Nat) (siblings : List Node) (j : Journal) :
  walkSiblings registry queries below i siblings j
    = (showAll registry queries below (siblings.drop i) j).map fun r =>
        (siblings.take i ++ r.1, r.2)
  := by
  fun_induction walkSiblings registry queries below i siblings j with
  | case1 i siblings j hi rule new j' hconsult ih =>
    rw [List.drop_eq_getElem_cons hi, showAll, showNode, hconsult]
    cases hbelow : below (new.inheritPosition siblings[i]) (j'.applied rule siblings[i] false) with
    | none => simp [hbelow]
    | some r => simp [hbelow, ih, take_succ_set hi, List.drop_set_of_lt, Function.comp_def]
  | case2 i siblings j hi rule j' hconsult ih =>
    rw [List.drop_eq_getElem_cons hi, showAll, showNode, hconsult, ih, drop_eraseIdx,
      List.take_eraseIdx_eq_take_of_le siblings i i (Nat.le_refl i)]
    simp
  | case3 i siblings j hi wanted j' hreplace hremove hconsult ih =>
    have hshow : showNode registry queries below siblings[i] j
        = (below siblings[i] j').map fun r => ([r.1], r.2) := by
      rw [showNode, hconsult]
      split
      · rename_i heq
        cases heq
        cases hreplace _ _ rfl
      · rename_i heq
        cases heq
        cases hremove _ rfl
      · rename_i heq
        cases heq
        rfl
    rw [List.drop_eq_getElem_cons hi, showAll, hshow]
    cases hbelow : below siblings[i] j' with
    | none => simp
    | some r => simp [ih, take_succ_set hi, List.drop_set_of_lt, Function.comp_def]
  | case4 i siblings j hi =>
    rw [List.drop_eq_nil_of_le (by omega), List.take_of_length_le (by omega), showAll]
    simp

/-- Walking below a node is showing its children, the node being entered. -/
theorem walkBelow_succ (levels : Nat) (n : Node) (j : Journal) :
  walkBelow registry queries (levels + 1) n j
    = (showAll registry queries (walkBelow registry queries levels) n.children (j.enter n)).map
        fun r => (n.withChildren r.1, r.2.leave)
  := by
  rw [walkBelow, walkSiblings_eq, List.drop_zero]
  cases showAll registry queries (walkBelow registry queries levels) n.children (j.enter n) with
  | none => rfl
  | some r => simp

/-- A pass shows the root; a root that leaves nothing stays without content. -/
theorem run_eq (levels : Nat) (root : Node) (j : Journal) :
  run registry queries levels root j
    = (showNode registry queries (walkBelow registry queries levels) root j).map
        fun r => (r.1.headD root.clear, r.2)
  := by
  rw [run, showNode]
  obtain ⟨_ | ⟨rule, _ | new | _⟩, j'⟩ := j.consult registry queries root <;>
    simp [Option.map_map, Function.comp_def]

end Amend.Pass
