import Amend.Proofs.Passes

/-!
# Passes until nothing changes are single passes

`Iteration` says which passes are made over a tree that gets passes until nothing changes: single
passes, each over the tree that the one before it left, until one of them changes nothing or the
limit is reached.  What they come to is what the single passes come to together
(`Dispatcher.applyAll?_iterates`).  The last tree is as a single pass leaves it, unless the limit
was reached while the passes were still changing it.
-/

namespace Amend

variable {queries : Queries} {activity : Activity}

/-! ### Iterating single passes -/

section Iteration

variable (once : Node → Option Outcome)

/-- `Successive once tree passes`: the passes begin with the tree, each of the others with the
tree that the one before it left. -/
inductive Successive : Node → List Outcome → Prop
  | nil {tree : Node} : Successive tree []
  | cons {tree : Node} {o : Outcome} {passes : List Outcome} (first : once tree = some o)
      (others : Successive o.tree passes) : Successive tree (o :: passes)

/-- Passes over a tree of which each but the last changes something, and the last either changes
nothing or is the last one allowed. -/
structure Iteration (limit : Nat) (tree : Node) (passes : List Outcome) (last : Outcome) :
    Prop where
  made : Successive once tree (passes ++ [last])
  changed : ∀ o ∈ passes, o.applications ≠ []
  within : passes.length + 1 ≤ limit
  stopped : last.applications = [] ∨ passes.length + 1 = limit

/-- The tree that the last of some passes left. -/
def Outcome.lastTree (tree : Node) (passes : List Outcome) : Node :=
  (passes.getLast?.map (·.tree)).getD tree

/-- Passes over a tree of which each changes something, with one more allowed that does not
end. -/
structure Stuck (limit : Nat) (tree : Node) (passes : List Outcome) : Prop where
  made : Successive once tree passes
  changed : ∀ o ∈ passes, o.applications ≠ []
  within : passes.length < limit
  fails : once (Outcome.lastTree tree passes) = none

variable {once} {limit : Nat} {tree : Node} {passes : List Outcome} {o last : Outcome}

theorem Outcome.lastTree_cons :
  lastTree tree (o :: passes) = lastTree o.tree passes
  := by
  simp only [lastTree, List.getLast?_cons, Option.map_some, Option.getD_some]
  cases passes.getLast? <;> rfl

theorem successive_cons :
  Successive once tree (o :: passes) ↔ once tree = some o ∧ Successive once o.tree passes
  := by
  constructor
  · rintro (_ | ⟨hfirst, hothers⟩)
    exact ⟨hfirst, hothers⟩
  · rintro ⟨hfirst, hothers⟩
    exact .cons hfirst hothers

/-- Every one of successive passes is a single pass over some tree. -/
theorem Successive.exists_once (h : Successive once tree passes) (ho : o ∈ passes) :
  ∃ tree, once tree = some o
  := by
  induction h with
  | nil => cases ho
  | @cons tree first passes hfirst _ ih =>
    obtain rfl | ho := List.mem_cons.1 ho
    · exact ⟨tree, hfirst⟩
    · apply ih ho

/-- An iteration of one pass ends because this changes nothing or is the last one allowed. -/
theorem iteration_nil :
  Iteration once (limit + 1) tree [] last
    ↔ once tree = some last ∧ (last.applications = [] ∨ limit = 0)
  := by
  constructor
  · rintro ⟨hmade, -, -, hstopped⟩
    refine ⟨(successive_cons.1 hmade).1, ?_⟩
    simpa [eq_comm] using hstopped
  · rintro ⟨hfirst, hstopped⟩
    refine ⟨.cons hfirst .nil, by simp, by simp, ?_⟩
    simpa [eq_comm] using hstopped

/-- An iteration goes on after a pass that has changed something. -/
theorem iteration_cons :
  Iteration once (limit + 1) tree (o :: passes) last
    ↔ once tree = some o ∧ o.applications ≠ [] ∧ Iteration once limit o.tree passes last
  := by
  constructor
  · rintro ⟨hmade, hchanged, hwithin, hstopped⟩
    obtain ⟨hfirst, hothers⟩ := successive_cons.1 hmade
    obtain ⟨ho, hchanged⟩ := List.forall_mem_cons.1 hchanged
    exact ⟨hfirst, ho, hothers, hchanged, by simpa using hwithin, by simpa using hstopped⟩
  · rintro ⟨hfirst, ho, hothers, hchanged, hwithin, hstopped⟩
    exact ⟨.cons hfirst hothers, List.forall_mem_cons.2 ⟨ho, hchanged⟩, by simpa using hwithin,
      by simpa using hstopped⟩

/-- An iteration is stuck at once when the first pass does not end. -/
theorem stuck_nil :
  Stuck once (limit + 1) tree [] ↔ once tree = none
  := by
  constructor
  · rintro ⟨-, -, -, hfails⟩
    exact hfails
  · intro hfails
    exact ⟨.nil, by simp, by simp, hfails⟩

/-- An iteration is stuck later on when the first pass has changed something and a later one does
not end. -/
theorem stuck_cons :
  Stuck once (limit + 1) tree (o :: passes)
    ↔ once tree = some o ∧ o.applications ≠ [] ∧ Stuck once limit o.tree passes
  := by
  constructor
  · rintro ⟨hmade, hchanged, hwithin, hfails⟩
    obtain ⟨hfirst, hothers⟩ := successive_cons.1 hmade
    obtain ⟨ho, hchanged⟩ := List.forall_mem_cons.1 hchanged
    rw [Outcome.lastTree_cons] at hfails
    exact ⟨hfirst, ho, hothers, hchanged, by simpa using hwithin, hfails⟩
  · rintro ⟨hfirst, ho, hothers, hchanged, hwithin, hfails⟩
    rw [← Outcome.lastTree_cons] at hfails
    exact ⟨.cons hfirst hothers, List.forall_mem_cons.2 ⟨ho, hchanged⟩, by simpa using hwithin,
      hfails⟩

/-- Passes go on until they stop or get stuck. -/
theorem exists_iteration_or_stuck (once : Node → Option Outcome) (limit : Nat) (tree : Node) :
  (∃ passes last, Iteration once (limit + 1) tree passes last)
    ∨ ∃ passes, Stuck once (limit + 1) tree passes
  := by
  induction limit generalizing tree with
  | zero =>
    rcases honce : once tree with _ | o
    · exact .inr ⟨[], stuck_nil.2 honce⟩
    · exact .inl ⟨[], o, iteration_nil.2 ⟨honce, .inr rfl⟩⟩
  | succ limit ih =>
    rcases honce : once tree with _ | o
    · exact .inr ⟨[], stuck_nil.2 honce⟩
    by_cases hchanged : o.applications = []
    · exact .inl ⟨[], o, iteration_nil.2 ⟨honce, .inl hchanged⟩⟩
    · obtain ⟨passes, last, hiteration⟩ | ⟨passes, hstuck⟩ := ih o.tree
      · exact .inl ⟨o :: passes, last, iteration_cons.2 ⟨honce, hchanged, hiteration⟩⟩
      · exact .inr ⟨o :: passes, stuck_cons.2 ⟨honce, hchanged, hstuck⟩⟩

end Iteration

namespace Dispatcher

variable {d : Dispatcher} {limit n : Nat} {tree : Node} {passes : List Outcome} {last : Outcome}

/-- What is logged when the last pass still changed something. -/
def warnings (d : Dispatcher) (last : Outcome) : List LogRecord :=
  if last.applications ≠ [] ∧ d.mode.repeats then
    [nonConvergence d.mode.limit last.applications.length]
  else []

/-- One of the passes over a tree is a single pass. -/
theorem repeatPasses_of_once (h : d.once queries activity tree = some o) (left made : Nat)
    {j : Journal} (hancestors : j.ancestors = []) (hactivity : j.activity = activity) :
  d.repeatPasses queries (left + 1) made tree j
    = if o.applications = [] then some (made + 1, o.tree, j.extend o.trace)
      else if left = 0 ∧ d.mode.repeats then
        some (made + 1, o.tree,
          j.extend (o.trace ++ { log := [nonConvergence d.mode.limit o.applications.length] }))
      else d.repeatPasses queries left (made + 1) o.tree (j.extend o.trace)
  := by
  obtain ⟨hmakes, -, -⟩ := makes_of_once h
  apply hmakes.repeatPasses_succ left made hancestors hactivity

/-- The loop over the passes comes by the iteration, and adds to the journal what its passes add. -/
theorem repeatPasses_of_iteration
    (h : Iteration (d.once queries activity) limit tree passes last) (made : Nat) {j : Journal}
    (hancestors : j.ancestors = []) (hactivity : j.activity = activity) :
  d.repeatPasses queries limit made tree j
    = some (made + (passes.length + 1), last.tree,
        j.extend (Outcome.traceAll (passes ++ [last]) ++ { log := d.warnings last }))
  := by
  induction passes generalizing limit tree made j with
  | nil =>
    obtain _ | limit := limit
    · cases h.within
    obtain ⟨honce, hstopped⟩ := iteration_nil.1 h
    have htrace : Outcome.traceAll [last] = last.trace := last.trace.append_empty
    rw [repeatPasses_of_once honce limit made hancestors hactivity, List.nil_append, htrace]
    by_cases hnone : last.applications = []
    · rw [if_pos hnone, warnings, if_neg (fun h => h.1 hnone), Trace.append_empty]
      rfl
    · obtain rfl := hstopped.resolve_left hnone
      rw [if_neg hnone, warnings]
      by_cases hrepeats : d.mode.repeats
      · rw [if_pos ⟨rfl, hrepeats⟩, if_pos ⟨hnone, hrepeats⟩]
        rfl
      · rw [if_neg (fun h => hrepeats h.2), if_neg (fun h => hrepeats h.2), Trace.append_empty]
        rfl
  | cons o passes ih =>
    obtain _ | limit := limit
    · cases h.within
    obtain ⟨honce, hchanged, hothers⟩ := iteration_cons.1 h
    have hlimit : limit ≠ 0 := Nat.ne_zero_of_lt hothers.within
    rw [repeatPasses_of_once honce limit made hancestors hactivity, if_neg hchanged,
      if_neg (fun h => hlimit h.1),
      ih hothers (made + 1) (j := j.extend o.trace) hancestors hactivity,
      Journal.extend_extend, ← Trace.append_assoc, List.cons_append, Outcome.traceAll_cons,
      List.length_cons, Nat.add_assoc made 1, Nat.add_comm 1]

/-- The loop over the passes does not end when a pass does not. -/
theorem repeatPasses_of_stuck (h : Stuck (d.once queries activity) limit tree passes) (made : Nat)
    {j : Journal} (hancestors : j.ancestors = []) (hactivity : j.activity = activity) :
  d.repeatPasses queries limit made tree j = none
  := by
  induction passes generalizing limit tree made j with
  | nil =>
    obtain _ | limit := limit
    · cases h.within
    rw [(fails_of_once (stuck_nil.1 h)).repeatPasses_succ limit made hancestors hactivity]
  | cons o passes ih =>
    obtain _ | limit := limit
    · cases h.within
    obtain ⟨honce, hchanged, hothers⟩ := stuck_cons.1 h
    have hlimit : limit ≠ 0 := Nat.ne_zero_of_lt hothers.within
    rw [repeatPasses_of_once honce limit made hancestors hactivity, if_neg hchanged,
      if_neg (fun h => hlimit h.1),
      ih hothers (made + 1) (j := j.extend o.trace) hancestors hactivity]

/-- What passes come to that are made one after the other. -/
def together (d : Dispatcher) (passes : List Outcome) (last : Outcome) (activity : Activity) :
    Outcome where
  tree := last.tree
  passes := passes.length + 1
  applications := (passes ++ [last]).flatMap (·.applications)
  inquiries := (passes ++ [last]).flatMap (·.inquiries)
  log := (passes ++ [last]).flatMap (·.log) ++ d.warnings last
  activity

/-- An iteration tells what applying the rules comes to. -/
theorem applyAll?_of_iteration
    (h : Iteration (d.once queries activity) d.mode.limit tree passes last) :
  d.applyAll? queries tree activity = some (d.together passes last activity)
  := by
  rw [applyAll?, repeatPasses_of_iteration h 0 rfl rfl]
  simp [together, Journal.extend, Outcome.traceAll]

/-- Applying the rules comes to nothing when the iteration is stuck. -/
theorem applyAll?_of_stuck (h : Stuck (d.once queries activity) d.mode.limit tree passes) :
  d.applyAll? queries tree activity = none
  := by
  rw [applyAll?, repeatPasses_of_stuck h 0 rfl rfl]
  rfl

/-- There is an iteration, or one of its passes does not end. -/
theorem exists_iteration_or_stuck (d : Dispatcher) (queries : Queries) (activity : Activity)
    (tree : Node) :
  (∃ passes last, Iteration (d.once queries activity) d.mode.limit tree passes last)
    ∨ ∃ passes, Stuck (d.once queries activity) d.mode.limit tree passes
  := by
  have hlimit : d.mode.limit ≠ 0 := by
    cases d.mode with
    | single => apply Nat.one_ne_zero
    | converge n =>
      rw [PassMode.limit]
      omega
  obtain ⟨left, hleft⟩ := Nat.exists_eq_succ_of_ne_zero hlimit
  rw [hleft]
  apply Amend.exists_iteration_or_stuck (d.once queries activity) left tree

/-- Applying the rules comes to the outcome of an iteration. -/
theorem applyAll?_eq_some_iff {outcome : Outcome} :
  d.applyAll? queries tree activity = some outcome
    ↔ ∃ passes last, Iteration (d.once queries activity) d.mode.limit tree passes last
      ∧ outcome = d.together passes last activity
  := by
  constructor
  · intro houtcome
    obtain ⟨passes, last, h⟩ | ⟨passes, h⟩ := d.exists_iteration_or_stuck queries activity tree
    · exact ⟨passes, last, h, Option.some.inj (houtcome.symm.trans (applyAll?_of_iteration h))⟩
    · cases (applyAll?_of_stuck h).symm.trans houtcome
  · rintro ⟨passes, last, h, rfl⟩
    apply applyAll?_of_iteration h

/-- Applying the rules comes to nothing exactly when a pass does not end. -/
theorem applyAll?_eq_none_iff :
  d.applyAll? queries tree activity = none
    ↔ ∃ passes, Stuck (d.once queries activity) d.mode.limit tree passes
  := by
  constructor
  · intro houtcome
    obtain ⟨passes, last, h⟩ | hstuck := d.exists_iteration_or_stuck queries activity tree
    · cases houtcome.symm.trans (applyAll?_of_iteration h)
    · exact hstuck
  · rintro ⟨passes, h⟩
    apply applyAll?_of_stuck h

/-- When passes are repeated, the warning tells of a last pass allowed that changes something. -/
theorem warnings_eq (h : Iteration (d.once queries activity) limit tree passes last)
    (hrepeats : d.mode.repeats) :
  d.warnings last
    = if passes.length + 1 = limit ∧ last.applications ≠ [] then
        [nonConvergence d.mode.limit last.applications.length]
      else []
  := by
  rw [warnings]
  by_cases hnone : last.applications = []
  · rw [if_neg (fun h => h.1 hnone), if_neg (fun h => h.2 hnone)]
  · rw [if_pos ⟨hnone, hrepeats⟩, if_pos ⟨h.stopped.resolve_left hnone, hnone⟩]

/-- Passes that stop because nothing changes any more stop for good. -/
theorem exists_once_again (h : Iteration (d.once queries activity) limit tree passes last)
    (hstopped : passes.length + 1 < limit ∨ last.applications = []) :
  ∃ again, d.once queries activity last.tree = some again
    ∧ again.applications = [] ∧ again.tree = last.tree
  := by
  have hnone : last.applications = [] := by
    obtain hless | hnone := hstopped
    · apply h.stopped.resolve_right (Nat.ne_of_lt hless)
    · exact hnone
  have hlast : last ∈ passes ++ [last] := List.mem_append_right passes (List.mem_singleton_self _)
  obtain ⟨before, honce⟩ := h.made.exists_once hlast
  obtain ⟨hmakes, -, -⟩ := makes_of_once honce
  use last
  rw [hmakes.eq_self hnone, honce]
  exact ⟨rfl, hnone, rfl⟩

/-- A single pass logs what rules log when they are asked. -/
theorem logs_of_once (h : d.once queries activity tree = some o) :
  ∀ r ∈ o.log, d.registry.Logs queries r
  := by
  obtain ⟨hmakes, -, -⟩ := makes_of_once h
  obtain ⟨left, hshown, -⟩ := hmakes.exists_shown
  intro r hr
  apply hshown.logs hr

/-- Passes until nothing changes are single passes made one after the other: until one of them
changes nothing, or as many as are allowed.  The changes, the questions and the log are those
of the passes, in their order; a warning is logged exactly when the last pass allowed still
changed something, and a pass without an end leaves no result.  When the passes stop before, or
with a pass that changes nothing, one more leaves the tree as it is.  A single pass is one pass
and logs nothing by itself. -/
theorem applyAll?_iterates (d : Dispatcher) (queries : Queries) (tree : Node) (activity : Activity)
    (n : Nat) :
  (∀ outcome, { d with mode := .converge n }.applyAll? queries tree activity = some outcome
    ↔ ∃ passes last, Iteration (d.once queries activity) (max n 1) tree passes last
      ∧ outcome = {
          tree := last.tree
          passes := passes.length + 1
          applications := (passes ++ [last]).flatMap (·.applications)
          inquiries := (passes ++ [last]).flatMap (·.inquiries)
          log := (passes ++ [last]).flatMap (·.log)
            ++ if passes.length + 1 = max n 1 ∧ last.applications ≠ [] then
                [nonConvergence (max n 1) last.applications.length]
              else []
          activity })
  ∧ ({ d with mode := .converge n }.applyAll? queries tree activity = none
    ↔ ∃ passes, Stuck (d.once queries activity) (max n 1) tree passes)
  ∧ (∀ passes last, Iteration (d.once queries activity) (max n 1) tree passes last →
      passes.length + 1 < max n 1 ∨ last.applications = [] →
        ∃ again, d.once queries activity last.tree = some again
          ∧ again.applications = [] ∧ again.tree = last.tree)
  ∧ ∀ tree o, d.once queries activity tree = some o →
      o.passes = 1 ∧ ∀ r ∈ o.log, d.registry.Logs queries r
  := by
  let c : Dispatcher := { d with mode := .converge n }
  have htogether {passes last}
      (h : Iteration (d.once queries activity) (max n 1) tree passes last) :=
    warnings_eq (d := c) h rfl
  refine ⟨?_, applyAll?_eq_none_iff (d := c), fun _ _ => exists_once_again, ?_⟩
  · intro outcome
    rw [applyAll?_eq_some_iff]
    apply exists_congr
    intro passes
    apply exists_congr
    intro last
    apply and_congr_right
    intro h
    rw [together, htogether h]
    rfl
  · intro tree o h
    obtain ⟨-, hpasses, -⟩ := makes_of_once h
    exact ⟨hpasses, logs_of_once h⟩

end Dispatcher

end Amend
