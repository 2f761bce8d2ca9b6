import Amend.Proofs.Converge

/-!
# What is in hand makes no difference

A journal records which file is in hand while rules are asked about it.  Apart from that record,
passes come to the same whatever is in hand (`Dispatcher.tree_eq_of_applyAll?`).
-/

namespace Amend

variable {registry : Registry} {queries : Queries} {activity : Activity}

mutual

/-- With something else in hand a node is shown with the same changes. -/
theorem Shown.exists_elsewhere (activity' : Activity) {n : Node} {left : List Node} {t : Trace} :
    {outer : List Ancestor} → Shown registry queries activity outer n left t →
      ∃ t', Shown registry queries activity' outer n left t' ∧ t'.applications = t.applications
  | _, .replaced hwanted hbelow => by
    obtain ⟨t', hbelow', happlied⟩ := hbelow.exists_elsewhere activity'
    refine ⟨_, .replaced hwanted hbelow', ?_⟩
    rw [Trace.applications_append, happlied]
    rfl
  | _, .removed hwanted => ⟨_, .removed hwanted, rfl⟩
  | _, .kept hwanted hbelow => by
    obtain ⟨t', hbelow', happlied⟩ := hbelow.exists_elsewhere activity'
    refine ⟨_, .kept hwanted hbelow', ?_⟩
    rw [Trace.applications_append, happlied]
    rfl

/-- The same holds of siblings. -/
theorem ShownAll.exists_elsewhere (activity' : Activity) {ns left : List Node} {t : Trace} :
    {outer : List Ancestor} → ShownAll registry queries activity outer ns left t →
      ∃ t', ShownAll registry queries activity' outer ns left t'
        ∧ t'.applications = t.applications
  | _, .nil => ⟨_, .nil, rfl⟩
  | _, .cons hfirst hothers => by
    obtain ⟨s', hfirst', hs⟩ := hfirst.exists_elsewhere activity'
    obtain ⟨t', hothers', ht⟩ := hothers.exists_elsewhere activity'
    refine ⟨_, .cons hfirst' hothers', ?_⟩
    rw [Trace.applications_append, Trace.applications_append, hs, ht]

end

namespace Dispatcher

variable {activity' : Activity} {d : Dispatcher} {limit : Nat} {tree : Node}
  {o o' last last' : Outcome} {passes passes' : List Outcome}

/-- A single pass comes to the same tree by the same changes. -/
theorem eq_of_once (h : d.once queries activity tree = some o)
    (h' : d.once queries activity' tree = some o') :
  o'.tree = o.tree ∧ o'.applications = o.applications
  := by
  obtain ⟨hmakes, -, -⟩ := makes_of_once h
  obtain ⟨hmakes', -, -⟩ := makes_of_once h'
  obtain ⟨left, hshown, htree⟩ := hmakes.exists_shown
  obtain ⟨left', hshown', htree'⟩ := hmakes'.exists_shown
  obtain ⟨t, helsewhere, happlied⟩ := hshown.exists_elsewhere activity'
  obtain ⟨rfl, rfl⟩ := Pass.shown_unique helsewhere hshown'
  exact ⟨htree'.trans htree.symm, happlied⟩

/-- Passes stop after as many passes, with the same tree. -/
theorem tree_eq_of_iteration
    (h : Iteration (d.once queries activity) limit tree passes last)
    (h' : Iteration (d.once queries activity') limit tree passes' last') :
  last'.tree = last.tree
  := by
  induction passes generalizing limit tree passes' with
  | nil =>
    obtain _ | limit := limit
    · cases h.within
    obtain ⟨honce, hstopped⟩ := iteration_nil.1 h
    cases passes' with
    | nil =>
      obtain ⟨honce', -⟩ := iteration_nil.1 h'
      apply (eq_of_once honce honce').1
    | cons o' passes' =>
      obtain ⟨honce', hchanged, hothers⟩ := iteration_cons.1 h'
      obtain ⟨-, happlied⟩ := eq_of_once honce honce'
      obtain hnone | rfl := hstopped
      · cases hchanged (happlied.trans hnone)
      · cases hothers.within
  | cons o passes ih =>
    obtain _ | limit := limit
    · cases h.within
    obtain ⟨honce, hchanged, hothers⟩ := iteration_cons.1 h
    cases passes' with
    | nil =>
      obtain ⟨honce', hstopped⟩ := iteration_nil.1 h'
      obtain ⟨-, happlied⟩ := eq_of_once honce honce'
      obtain hnone | rfl := hstopped
      · cases hchanged (happlied.symm.trans hnone)
      · cases hothers.within
    | cons o' passes' =>
      obtain ⟨honce', -, hothers'⟩ := iteration_cons.1 h'
      obtain ⟨htree, -⟩ := eq_of_once honce honce'
      rw [htree] at hothers'
      apply ih hothers hothers'

/-- Passes that end come to the same tree, whatever is in hand. -/
theorem tree_eq_of_applyAll? (h : d.applyAll? queries tree activity = some o)
    (h' : d.applyAll? queries tree activity' = some o') :
  o'.tree = o.tree
  := by
  obtain ⟨passes, last, hiteration, rfl⟩ := applyAll?_eq_some_iff.1 h
  obtain ⟨passes', last', hiteration', rfl⟩ := applyAll?_eq_some_iff.1 h'
  apply tree_eq_of_iteration hiteration hiteration'

/-- Passes that change nothing come to the tree itself. -/
theorem eq_self_of_applyAll? (h : d.applyAll? queries tree activity = some o)
    (hnone : o.applications = []) :
  o.tree = tree
  := by
  obtain ⟨passes, last, hiteration, rfl⟩ := applyAll?_eq_some_iff.1 h
  have happlied : ∀ o ∈ passes ++ [last], o.applications = [] := List.flatMap_eq_nil_iff.1 hnone
  cases passes with
  | nil =>
    obtain ⟨honce, -⟩ := successive_cons.1 hiteration.made
    obtain ⟨hmakes, -, -⟩ := makes_of_once honce
    apply hmakes.eq_self (happlied last (List.mem_singleton_self last))
  | cons o passes =>
    cases hiteration.changed o List.mem_cons_self (happlied o List.mem_cons_self)

end Dispatcher

end Amend
