import Amend.Index.Project

/-!
# Questions to the index

`ProjectIndex.findMember?` looks a method up in a declaration, in its traits and in its
parents, in that order; `ProjectIndex.isSubtype` follows the parents.  Both may meet a
declaration twice, since a project may declare classes that inherit from themselves:
each key is entered once, so the number of keys not entered yet falls with every step.

`Queries` is what a rule gets to see of an index.
-/

namespace Amend

/-- The questions that a rule may ask about the declarations of the project. -/
structure Queries where
  /-- Whether a method, looked up from a declaration, is static. -/
  isStaticMember : (member declaration : String) → Bool
  /-- Whether a declaration is another one or extends it, directly or not. -/
  isSubtype : (declaration ancestor : String) → Logged Bool

namespace ProjectIndex

/-- The keys of the index that are not among the given ones. -/
def unvisited (index : ProjectIndex) (visited : List String) : List String :=
  (index.entries.map Prod.fst).filter (· ∉ visited)

/-- No more keys are left when one more has been visited. -/
theorem length_unvisited_cons_le (index : ProjectIndex) (k : String) (visited : List String) :
  (index.unvisited (k :: visited)).length ≤ (index.unvisited visited).length
  := by
  rw [unvisited, unvisited, ← List.countP_eq_length_filter, ← List.countP_eq_length_filter]
  refine List.countP_mono_left fun a _ ha => ?_
  simp_all

/-- Fewer keys are left when a new one with a declaration has been visited. -/
theorem length_unvisited_cons_lt {index : ProjectIndex} {k : String} {visited : List String}
    (hk : k ∈ index.entries.map Prod.fst) (hv : k ∉ visited) :
  (index.unvisited (k :: visited)).length < (index.unvisited visited).length
  := by
  obtain ⟨before, after, heq⟩ := List.append_of_mem hk
  have hle (keys : List String) :
      keys.countP (decide <| · ∉ k :: visited) ≤ keys.countP (decide <| · ∉ visited) :=
    List.countP_mono_left fun a _ ha => by simp_all
  have hb := hle before
  have ha := hle after
  rw [unvisited, unvisited, ← List.countP_eq_length_filter, ← List.countP_eq_length_filter, heq]
  simp only [List.countP_append, List.countP_cons, List.mem_cons, true_or, not_true, hv,
    not_false_eq_true] at ha hb ⊢
  simp at ha hb ⊢
  omega

/-- The keys to look at after a declaration: its traits in order, then its parent. -/
def successors (d : Declaration) : List String :=
  d.traits.map key ++ (d.parent.map key).toList

/-- Look a method up in the pending keys, the first one first; what a declaration leads to
comes before the keys that were pending already. -/
def search (index : ProjectIndex) (member : String) (visited : List String) :
    List String → Option Member
  | [] => none
  | k :: pending =>
    if _hv : k ∈ visited then index.search member visited pending
    else
      match _h : index.atKey? k with
      | none => index.search member (k :: visited) pending
      | some d =>
        match d.member? member with
        | some found => some found
        | none => index.search member (k :: visited) (successors d ++ pending)
termination_by pending => ((index.unvisited visited).length, pending.length)
decreasing_by
  · simp only [List.length_cons]
    exact Prod.Lex.right _ (Nat.lt_succ_self _)
  · have := index.length_unvisited_cons_le k visited
    simp only [List.length_cons]
    rcases Nat.lt_or_eq_of_le this with hlt | heq
    · exact Prod.Lex.left _ _ hlt
    · rw [heq]
      exact Prod.Lex.right _ (Nat.lt_succ_self _)
  · exact Prod.Lex.left _ _ (length_unvisited_cons_lt (mem_keys_of_atKey? _h) _hv)

/-- The first declaration of a method that is found from a declaration: in itself, then in
its traits and what they lead to, then likewise in its parent. -/
def findMember? (index : ProjectIndex) (member declaration : String) : Option Member :=
  index.search member [] [key declaration]

/-- Whether a method, looked up from a declaration, is static. -/
def isStaticMember (index : ProjectIndex) (member declaration : String) : Bool :=
  (index.findMember? member declaration).any (·.isStatic)

/-- Follow the parents from key `k` to the key `target`.  Coming back to a key entered
before ends the search with a warning. -/
def climb (index : ProjectIndex) (target : String) (visited : List String) (k : String) :
    Logged Bool :=
  if k = target then pure true
  else if _hv : k ∈ visited then do
    Logged.write .warn .index s!"Inheritance cycle detected at {k}"
    return false
  else
    match _h : index.atKey? k with
    | none => pure false
    | some d =>
      match d.parent with
      | none => pure false
      | some parent => index.climb target (k :: visited) (key parent)
termination_by (index.unvisited visited).length
decreasing_by exact length_unvisited_cons_lt (mem_keys_of_atKey? _h) _hv

/-- Whether a declaration is `ancestor` or extends it, directly or not. -/
def isSubtype (index : ProjectIndex) (declaration ancestor : String) : Logged Bool :=
  index.climb (key ancestor) [] (key declaration)

/-- The index as rules see it. -/
def queries (index : ProjectIndex) : Queries where
  isStaticMember := index.isStaticMember
  isSubtype := index.isSubtype

end ProjectIndex

end Amend
