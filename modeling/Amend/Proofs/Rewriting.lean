import Amend.Proofs.Walk

/-!
# A pass as a rewriting of trees

`Shown` says, without positions and without a journal, what comes of showing a node to the
rules: which nodes stand in its place afterwards and what is added to the journal.  The nodes
that enclose it are part of the relation; going down into a node puts the node, as it stands
then, in front of them.  `Pass.run_eq_some_iff` states that a pass that ends comes to what
`Shown` says, and that every pass of which `Shown` says something ends.
-/

namespace Amend

variable (registry : Registry) (queries : Queries) (activity : Activity)

mutual

/-- `Shown outer n left t`: showing the node `n` inside the nodes `outer`, nearest first, leaves
the nodes `left` in its place and adds `t` to the journal. -/
inductive Shown : (outer : List Ancestor) → Node → List Node → Trace → Prop
  /-- The replacement takes over the position.  It is not shown itself, its children are. -/
  | replaced {outer : List Ancestor} {n new : Node} {rule : String} {children : List Node}
      {t : Trace}
      (wanted : registry.wanted ⟨outer, queries⟩ n = some (rule, .replace new))
      (below : ShownAll (.of (new.inheritPosition n) :: outer) (new.inheritPosition n).children
        children t) :
      Shown outer n [(new.inheritPosition n).withChildren children]
        (registry.asking activity ⟨outer, queries⟩ n ++ .change rule n false ++ t)
  /-- Nothing is left, and nothing below the node is shown. -/
  | removed {outer : List Ancestor} {n : Node} {rule : String}
      (wanted : registry.wanted ⟨outer, queries⟩ n = some (rule, .remove)) :
      Shown outer n [] (registry.asking activity ⟨outer, queries⟩ n ++ .change rule n true)
  /-- The node keeps everything but its children. -/
  | kept {outer : List Ancestor} {n : Node} {children : List Node} {t : Trace}
      (wanted : registry.wanted ⟨outer, queries⟩ n = none)
      (below : ShownAll (.of n :: outer) n.children children t) :
      Shown outer n [n.withChildren children] (registry.asking activity ⟨outer, queries⟩ n ++ t)

/-- `ShownAll outer ns left t`: showing the nodes `ns` from left to right leaves `left`. -/
inductive ShownAll : (outer : List Ancestor) → List Node → List Node → Trace → Prop
  | nil {outer : List Ancestor} : ShownAll outer [] [] {}
  | cons {outer : List Ancestor} {n : Node} {ns left rest : List Node} {s t : Trace}
      (first : Shown outer n left s) (others : ShownAll outer ns rest t) :
      ShownAll outer (n :: ns) (left ++ rest) (s ++ t)

end

namespace Pass

variable {registry queries activity}

/-! ### What a pass does is shown -/

/-- Walking below nodes comes to what showing their children leaves. -/
def IsWalk (registry : Registry) (queries : Queries)
    (below : Node → Journal → Option (Node × Journal)) : Prop :=
  ∀ n j r, below n j = some r →
    ∃ children t, ShownAll registry queries j.activity (.of n :: j.ancestors) n.children children t
      ∧ r = (n.withChildren children, j.extend t)

variable {below : Node → Journal → Option (Node × Journal)}

/-- What the walk makes of a node is shown. -/
theorem shown_of_showNode (hbelow : IsWalk registry queries below) {n : Node} {j : Journal}
    {r : List Node × Journal} (h : showNode registry queries below n j = some r) :
  ∃ t, Shown registry queries j.activity j.ancestors n r.1 t ∧ r.2 = j.extend t
  := by
  rcases hwanted : registry.wanted ⟨j.ancestors, queries⟩ n with _ | ⟨rule, _ | new | _⟩
  · rw [showNode_of_none hwanted] at h
    obtain ⟨r', hr', rfl⟩ := Option.map_eq_some_iff.1 h
    obtain ⟨children, t, hall, rfl⟩ := hbelow _ _ _ hr'
    exact ⟨_, .kept hwanted hall, Journal.extend_extend _ _ _⟩
  · cases Registry.ne_keep_of_wanted hwanted rfl
  · rw [showNode_of_replace hwanted] at h
    obtain ⟨r', hr', rfl⟩ := Option.map_eq_some_iff.1 h
    obtain ⟨children, t, hall, rfl⟩ := hbelow _ _ _ hr'
    exact ⟨_, .replaced hwanted hall, Journal.extend_extend _ _ _⟩
  · rw [showNode_of_remove hwanted] at h
    cases h
    exact ⟨_, .removed hwanted, rfl⟩

/-- What the walk makes of siblings is shown. -/
theorem shownAll_of_showAll (hbelow : IsWalk registry queries below) {ns : List Node} {j : Journal}
    {r : List Node × Journal} (h : showAll registry queries below ns j = some r) :
  ∃ t, ShownAll registry queries j.activity j.ancestors ns r.1 t ∧ r.2 = j.extend t
  := by
  induction ns generalizing j r with
  | nil =>
    cases h
    exact ⟨{}, .nil, (Journal.extend_empty j).symm⟩
  | cons n ns ih =>
    obtain ⟨⟨left, j'⟩, hfirst, hrest⟩ := Option.bind_eq_some_iff.1 h
    obtain ⟨⟨rest, j''⟩, hothers, rfl⟩ := Option.map_eq_some_iff.1 hrest
    obtain ⟨s, hs, rfl⟩ := shown_of_showNode hbelow hfirst
    obtain ⟨t, ht, rfl⟩ := ih hothers
    exact ⟨s ++ t, .cons hs ht, Journal.extend_extend _ _ _⟩

/-- The walk never goes further than its levels, whatever it comes to is shown. -/
theorem isWalk_walkBelow (levels : Nat) :
  IsWalk registry queries (walkBelow registry queries levels)
  := by
  induction levels with
  | zero =>
    intro n j r h
    cases h
  | succ levels ih =>
    intro n j r h
    rw [walkBelow_succ] at h
    obtain ⟨⟨children, j'⟩, hall, rfl⟩ := Option.map_eq_some_iff.1 h
    obtain ⟨t, ht, rfl⟩ := shownAll_of_showAll ih hall
    exact ⟨children, t, ht, rfl⟩

/-! ### What is shown is done by a pass -/

mutual

/-- With levels enough, a node is shown by the walk. -/
theorem showNode_of_shown {outer : List Ancestor} {n : Node} {left : List Node} {t : Trace} :
    Shown registry queries activity outer n left t →
      ∃ enough, ∀ levels ≥ enough, ∀ j : Journal, j.ancestors = outer → j.activity = activity →
        showNode registry queries (walkBelow registry queries levels) n j = some (left, j.extend t)
  | .replaced hwanted hbelow => by
    obtain ⟨enough, h⟩ := showAll_of_shownAll hbelow
    use enough + 1
    rintro (_ | levels) hlevels j rfl rfl
    · cases hlevels
    · rw [showNode_of_replace hwanted, walkBelow_succ,
        h levels (Nat.le_of_succ_le_succ hlevels) ((j.extend _).enter _) rfl rfl]
      simp [Journal.leave_extend_enter]
  | .removed hwanted => by
    use 0
    rintro levels - j rfl rfl
    apply showNode_of_remove hwanted
  | .kept hwanted hbelow => by
    obtain ⟨enough, h⟩ := showAll_of_shownAll hbelow
    use enough + 1
    rintro (_ | levels) hlevels j rfl rfl
    · cases hlevels
    · rw [showNode_of_none hwanted, walkBelow_succ,
        h levels (Nat.le_of_succ_le_succ hlevels) ((j.extend _).enter _) rfl rfl]
      simp [Journal.leave_extend_enter]

/-- With levels enough, siblings are shown by the walk. -/
theorem showAll_of_shownAll {outer : List Ancestor} {ns left : List Node} {t : Trace} :
    ShownAll registry queries activity outer ns left t →
      ∃ enough, ∀ levels ≥ enough, ∀ j : Journal, j.ancestors = outer → j.activity = activity →
        showAll registry queries (walkBelow registry queries levels) ns j = some (left, j.extend t)
  | .nil => by
    use 0
    rintro levels - j rfl rfl
    rw [showAll, Journal.extend_empty]
  | .cons hfirst hothers => by
    obtain ⟨enough, hn⟩ := showNode_of_shown hfirst
    obtain ⟨enough', hns⟩ := showAll_of_shownAll hothers
    use max enough enough'
    rintro levels hlevels j rfl rfl
    rw [showAll, hn levels (Nat.le_trans (Nat.le_max_left _ _) hlevels) j rfl rfl, Option.bind_some,
      hns levels (Nat.le_trans (Nat.le_max_right _ _) hlevels) (j.extend _) rfl rfl]
    simp

end

/-- A pass ends with a tree and a journal exactly when showing its root leaves that tree, and
adds to the journal what makes it that journal.  A root that leaves nothing stays without
content. -/
theorem run_eq_some_iff {root root' : Node} {j j' : Journal} :
  (∃ levels, run registry queries levels root j = some (root', j'))
    ↔ ∃ left t, Shown registry queries j.activity j.ancestors root left t
      ∧ root' = left.headD root.clear ∧ j' = j.extend t
  := by
  constructor
  · rintro ⟨levels, h⟩
    rw [run_eq] at h
    obtain ⟨⟨left, j''⟩, hnode, hpair⟩ := Option.map_eq_some_iff.1 h
    obtain ⟨t, ht, rfl⟩ := shown_of_showNode (isWalk_walkBelow levels) hnode
    obtain ⟨rfl, rfl⟩ := Prod.mk.inj hpair
    exact ⟨left, t, ht, rfl, rfl⟩
  · rintro ⟨left, t, ht, rfl, rfl⟩
    obtain ⟨enough, h⟩ := showNode_of_shown ht
    use enough
    rw [run_eq, h enough (Nat.le_refl enough) j rfl rfl]
    rfl

/-- A node is shown in one way only. -/
theorem shown_unique {outer : List Ancestor} {n : Node} {left left' : List Node} {t t' : Trace}
    (h : Shown registry queries activity outer n left t)
    (h' : Shown registry queries activity outer n left' t') :
  left = left' ∧ t = t'
  := by
  obtain ⟨enough, hrun⟩ := showNode_of_shown h
  obtain ⟨enough', hrun'⟩ := showNode_of_shown h'
  let j : Journal := { ancestors := outer, activity }
  have heq := (hrun (max enough enough') (Nat.le_max_left _ _) j rfl rfl).symm.trans
    (hrun' (max enough enough') (Nat.le_max_right _ _) j rfl rfl)
  obtain ⟨hleft, hjournal⟩ := Prod.mk.inj (Option.some.inj heq)
  exact ⟨hleft, Journal.extend_inj hjournal⟩

/-- The passes over a tree that end are those of which `Shown` says what they come to, and it
says one thing of each: the tree, the questions in their order, the changes and the log. -/
theorem run_refines_shown (registry : Registry) (queries : Queries) (root : Node) (j : Journal) :
  (∀ root' j', (∃ levels, run registry queries levels root j = some (root', j'))
    ↔ ∃ left t, Shown registry queries j.activity j.ancestors root left t
      ∧ root' = left.headD root.clear ∧ j' = j.extend t)
  ∧ ∀ left left' t t', Shown registry queries j.activity j.ancestors root left t →
      Shown registry queries j.activity j.ancestors root left' t' → left = left' ∧ t = t'
  := by
  constructor
  · intro root' j'
    apply run_eq_some_iff
  · intro left left' t t' h h'
    apply shown_unique h h'

end Pass

end Amend
