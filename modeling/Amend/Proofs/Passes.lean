import Amend.Pass.Dispatch
import Amend.Proofs.Untouched

/-!
# A pass does not depend on what the journal holds

What a pass does and what it adds to its journal do not depend on what the journal holds
already (`Pass.uniform_run`).  So each of the passes that share a journal is a single pass
(`Dispatcher.Makes`), and a pass that changes nothing gives the tree itself
(`Dispatcher.Makes.eq_self`).
-/

namespace Amend

variable {registry : Registry} {queries : Queries} {activity : Activity} {outer : List Ancestor}

/-! ### What the journal holds already does not matter -/

namespace Pass

/-- Inside the nodes `outer` and with `activity` in hand, a computation on journals has a result
that does not depend on what the journal holds, or has none. -/
def Uniform {α : Type} (outer : List Ancestor) (activity : Activity)
    (f : Journal → Option (α × Journal)) : Prop :=
  ∃ o : Option (α × Trace), ∀ j : Journal, j.ancestors = outer → j.activity = activity →
    f j = o.map fun r => (r.1, j.extend r.2)

variable {α β : Type} {f : Journal → Option (α × Journal)}

/-- What does the same to the journals in question is uniform too. -/
theorem Uniform.congr {g : Journal → Option (α × Journal)} (h : Uniform outer activity f)
    (hg : ∀ j : Journal, j.ancestors = outer → j.activity = activity → g j = f j) :
  Uniform outer activity g
  := by
  obtain ⟨o, ho⟩ := h
  use o
  intro j houter hactivity
  rw [hg j houter hactivity, ho j houter hactivity]

/-- Changing the value afterwards makes no difference. -/
theorem Uniform.map (h : Uniform outer activity f) (g : α → β) :
  Uniform outer activity fun j => (f j).map fun r => (g r.1, r.2)
  := by
  obtain ⟨o, ho⟩ := h
  use o.map fun r => (g r.1, r.2)
  intro j houter hactivity
  dsimp only
  rw [ho j houter hactivity]
  cases o <;> rfl

/-- Some entries in the journal first. -/
theorem Uniform.after_extend (h : Uniform outer activity f) (t : Trace) :
  Uniform outer activity fun j => f (j.extend t)
  := by
  obtain ⟨o, ho⟩ := h
  use o.map fun r => (r.1, t ++ r.2)
  intro j houter hactivity
  dsimp only
  rw [ho (j.extend t) houter hactivity]
  cases o <;> simp

/-- Uniform steps one after the other are uniform. -/
theorem Uniform.bind {g : α → Journal → Option (β × Journal)} (h : Uniform outer activity f)
    (hg : ∀ a, Uniform outer activity (g a)) :
  Uniform outer activity fun j => (f j).bind fun r => g r.1 r.2
  := by
  obtain ⟨_ | ⟨a, t⟩, ho⟩ := h
  · use none
    intro j houter hactivity
    dsimp only
    rw [ho j houter hactivity]
    rfl
  · obtain ⟨o, hrest⟩ := (hg a).after_extend t
    use o
    intro j houter hactivity
    rw [← hrest j houter hactivity]
    dsimp only
    rw [ho j houter hactivity]
    rfl

/-- Going down into a node and coming back up. -/
theorem Uniform.inside {n : Node} (h : Uniform (.of n :: outer) activity f) :
  Uniform outer activity fun j => (f (j.enter n)).map fun r => (r.1, r.2.leave)
  := by
  obtain ⟨o, ho⟩ := h
  use o
  rintro j rfl rfl
  dsimp only
  rw [ho (j.enter n) rfl rfl]
  cases o <;> rfl

/-- Walking below nodes does not depend on what the journal holds. -/
def UniformBelow (below : Node → Journal → Option (Node × Journal)) : Prop :=
  ∀ outer activity n, Uniform outer activity (below n)

variable {below : Node → Journal → Option (Node × Journal)}

/-- Showing a node adds the same trace to any journal. -/
theorem uniform_showNode (hbelow : UniformBelow below) (n : Node) :
  Uniform outer activity (showNode registry queries below n)
  := by
  let asked : Trace := registry.asking activity ⟨outer, queries⟩ n
  rcases hwanted : registry.wanted ⟨outer, queries⟩ n with _ | ⟨rule, _ | new | _⟩
  · apply (((hbelow outer activity n).after_extend asked).map fun l => [l]).congr
    rintro j rfl rfl
    apply showNode_of_none hwanted
  · cases Registry.ne_keep_of_wanted hwanted rfl
  · apply (((hbelow outer activity (new.inheritPosition n)).after_extend
      (asked ++ .change rule n false)).map fun l => [l]).congr
    rintro j rfl rfl
    apply showNode_of_replace hwanted
  · use some ([], asked ++ .change rule n true)
    rintro j rfl rfl
    apply showNode_of_remove hwanted

/-- Showing siblings adds the same trace to any journal. -/
theorem uniform_showAll (hbelow : UniformBelow below) (ns : List Node) :
  Uniform outer activity (showAll registry queries below ns)
  := by
  induction ns with
  | nil =>
    use some ([], {})
    intro j _ _
    simp [showAll]
  | cons n ns ih =>
    have hrest (left : List Node) : Uniform outer activity fun j =>
        (showAll registry queries below ns j).map fun r => (left ++ r.1, r.2) :=
      ih.map fun rest => left ++ rest
    apply (uniform_showNode hbelow n).bind hrest

/-- Walking below a node adds the same trace to any journal. -/
theorem uniformBelow_walkBelow (levels : Nat) :
  UniformBelow (walkBelow registry queries levels)
  := by
  induction levels with
  | zero =>
    intro outer activity n
    use none
    intro j _ _
    rfl
  | succ levels ih =>
    intro outer activity n
    have hchildren : Uniform (.of n :: outer) activity
        (showAll registry queries (walkBelow registry queries levels) n.children) :=
      uniform_showAll ih n.children
    apply (hchildren.inside.map n.withChildren).congr
    intro j _ _
    rw [walkBelow_succ]
    simp only [Option.map_map, Function.comp_def]

/-- What a pass gives and what it adds to the journal does not depend on what the journal holds
already. -/
theorem uniform_run (levels : Nat) (root : Node) :
  Uniform outer activity (run registry queries levels root)
  := by
  apply ((uniform_showNode (uniformBelow_walkBelow levels) root).map fun left =>
    left.headD root.clear).congr
  intro j _ _
  apply run_eq

end Pass

/-! ### What a pass adds to the journal -/

/-- A property that asking the rules about a node has and every change has, and that is kept when
traces are added one after the other. -/
structure Registry.Kept (registry : Registry) (queries : Queries) (activity : Activity)
    (property : Trace → Prop) : Prop where
  empty : property {}
  append : ∀ {s t : Trace}, property s → property t → property (s ++ t)
  change : ∀ rule n removed, property (.change rule n removed)
  asking : ∀ outer n, property (registry.asking activity ⟨outer, queries⟩ n)

mutual

/-- Such a property has all that is added when a node is shown. -/
theorem Registry.Kept.of_shown {property : Trace → Prop}
    (h : registry.Kept queries activity property) {n : Node} {left : List Node} {t : Trace} :
    {outer : List Ancestor} → Shown registry queries activity outer n left t → property t
  | _, .replaced _ hbelow =>
    h.append (h.append (h.asking _ _) (h.change _ _ _)) (h.of_shownAll hbelow)
  | _, .removed _ => h.append (h.asking _ _) (h.change _ _ _)
  | _, .kept _ hbelow => h.append (h.asking _ _) (h.of_shownAll hbelow)

/-- Such a property has all that is added when siblings are shown. -/
theorem Registry.Kept.of_shownAll {property : Trace → Prop}
    (h : registry.Kept queries activity property) {ns left : List Node} {t : Trace} :
    {outer : List Ancestor} → ShownAll registry queries activity outer ns left t → property t
  | _, .nil => h.empty
  | _, .cons hfirst hothers => h.append (h.of_shown hfirst) (h.of_shownAll hothers)

end

/-- The record is left by a registered rule when it is asked about some node. -/
def Registry.Logs (registry : Registry) (queries : Queries) (r : LogRecord) : Prop :=
  ∃ rule ∈ registry.rules, ∃ n outer, r ∈ (rule.evaluate n ⟨outer, queries⟩).log

/-- Asking the rules logs what one of them logs. -/
theorem Registry.logs_of_mem_asking {n : Node} {r : LogRecord}
    (h : r ∈ (registry.asking activity ⟨outer, queries⟩ n).log) :
  registry.Logs queries r
  := by
  obtain ⟨rule, hasked, hr⟩ := List.mem_flatMap.1 h
  obtain ⟨position, -, hposition⟩ := List.mem_filterMap.1 (Rule.mem_of_mem_asked hasked)
  exact ⟨rule, List.mem_of_getElem? hposition, n, outer, hr⟩

/-- What rules log is kept when traces are added. -/
theorem Registry.kept_logs :
  registry.Kept queries activity fun t => ∀ r ∈ t.log, registry.Logs queries r
  where
  empty := List.forall_mem_nil _
  append hs ht := List.forall_mem_append.2 ⟨hs, ht⟩
  change _ _ _ := List.forall_mem_nil _
  asking _ _ _ hr := logs_of_mem_asking hr

/-- A pass logs nothing but what rules log when they are asked. -/
theorem Shown.logs {n : Node} {left : List Node} {t : Trace} {r : LogRecord}
    (h : Shown registry queries activity outer n left t) (hr : r ∈ t.log) :
  registry.Logs queries r
  := Registry.kept_logs.of_shown h r hr

/-! ### Single passes -/

/-- What a pass added to the journal. -/
def Outcome.trace (o : Outcome) : Trace := ⟨o.applications, o.inquiries, o.log⟩

/-- What passes added to the journal, one after the other. -/
def Outcome.traceAll (passes : List Outcome) : Trace where
  applications := passes.flatMap (·.applications)
  inquiries := passes.flatMap (·.inquiries)
  log := passes.flatMap (·.log)

theorem Outcome.traceAll_cons (o : Outcome) (passes : List Outcome) :
  traceAll (o :: passes) = o.trace ++ traceAll passes
  := rfl

namespace Dispatcher

variable (d : Dispatcher) (queries activity)

/-- A single pass over a tree. -/
def once (tree : Node) : Option Outcome :=
  { d with mode := .single }.applyAll? queries tree activity

/-- A pass over `tree` gives `next` and adds `t` to the journal. -/
def Makes (tree next : Node) (t : Trace) : Prop :=
  ∀ j : Journal, j.ancestors = [] → j.activity = activity →
    Pass.run d.registry queries (tree.height + d.spareLevels) tree j = some (next, j.extend t)

/-- A pass over `tree` does not end. -/
def Fails (tree : Node) : Prop :=
  ∀ j : Journal, j.ancestors = [] → j.activity = activity →
    Pass.run d.registry queries (tree.height + d.spareLevels) tree j = none

variable {d queries activity} {tree next : Node} {t : Trace} {o : Outcome}

/-- Whether a pass over a tree ends, and what it gives and adds, does not depend on the journal. -/
theorem fails_or_makes (d : Dispatcher) (queries : Queries) (activity : Activity) (tree : Node) :
  d.Fails queries activity tree ∨ ∃ next t, d.Makes queries activity tree next t
  := by
  have huniform : Pass.Uniform [] activity
      (Pass.run d.registry queries (tree.height + d.spareLevels) tree) :=
    Pass.uniform_run _ tree
  obtain ⟨_ | ⟨next, t⟩, ho⟩ := huniform
  · exact .inl ho
  · exact .inr ⟨next, t, ho⟩

/-- One of the passes over a tree: the last one when it changes nothing. -/
theorem Makes.repeatPasses_succ (h : d.Makes queries activity tree next t) (left passes : Nat)
    {j : Journal} (hancestors : j.ancestors = []) (hactivity : j.activity = activity) :
  d.repeatPasses queries (left + 1) passes tree j
    = if t.applications = [] then some (passes + 1, next, j.extend t)
      else if left = 0 ∧ d.mode.repeats then
        some (passes + 1, next,
          j.extend (t ++ { log := [nonConvergence d.mode.limit t.applications.length] }))
      else d.repeatPasses queries left (passes + 1) next (j.extend t)
  := by
  have hchanges : (j.extend t).applications.length - j.applications.length
      = t.applications.length := by
    simp [Journal.extend]
  have hwarning (r : LogRecord) : { j.extend t with log := (j.extend t).log ++ [r] }
      = j.extend (t ++ { log := [r] }) := by
    simp [Journal.extend]
  rw [repeatPasses, h j hancestors hactivity, Option.bind_eq_bind, Option.bind_some]
  simp only [hchanges, List.length_eq_zero_iff, hwarning]
  rfl

/-- One of the passes over a tree does not end. -/
theorem Fails.repeatPasses_succ (h : d.Fails queries activity tree) (left passes : Nat)
    {j : Journal} (hancestors : j.ancestors = []) (hactivity : j.activity = activity) :
  d.repeatPasses queries (left + 1) passes tree j = none
  := by
  rw [repeatPasses, h j hancestors hactivity]
  rfl

/-- What a single pass comes to. -/
theorem Makes.once_eq (h : d.Makes queries activity tree next t) :
  d.once queries activity tree
    = some ⟨next, 1, t.applications, t.inquiries, t.log, activity⟩
  := by
  have hsingle : { d with mode := .single }.Makes queries activity tree next t := h
  have hpasses : { d with mode := .single }.repeatPasses queries 1 0 tree { activity }
      = some (1, next, ({ activity } : Journal).extend t) := by
    rw [hsingle.repeatPasses_succ 0 0 rfl rfl]
    split <;> rfl
  rw [once, applyAll?]
  change ({ d with mode := .single }.repeatPasses queries 1 0 tree { activity }).bind _ = _
  rw [hpasses]
  simp [Journal.extend]

/-- A single pass that does not end comes to nothing. -/
theorem Fails.once_eq (h : d.Fails queries activity tree) :
  d.once queries activity tree = none
  := by
  have hsingle : { d with mode := .single }.Fails queries activity tree := h
  rw [once, applyAll?]
  change ({ d with mode := .single }.repeatPasses queries 1 0 tree { activity }).bind _ = _
  rw [hsingle.repeatPasses_succ 0 0 rfl rfl]
  rfl

/-- A single pass that ends. -/
theorem makes_of_once (h : d.once queries activity tree = some o) :
  d.Makes queries activity tree o.tree o.trace ∧ o.passes = 1 ∧ o.activity = activity
  := by
  rcases d.fails_or_makes queries activity tree with hfails | ⟨next, t, hmakes⟩
  · cases h.symm.trans hfails.once_eq
  · cases h.symm.trans hmakes.once_eq
    exact ⟨hmakes, rfl, rfl⟩

/-- A single pass that comes to nothing does not end. -/
theorem fails_of_once (h : d.once queries activity tree = none) :
  d.Fails queries activity tree
  := by
  rcases d.fails_or_makes queries activity tree with hfails | ⟨next, t, hmakes⟩
  · exact hfails
  · cases h.symm.trans hmakes.once_eq

/-- What a pass adds to the journal is shown. -/
theorem Makes.exists_shown (h : d.Makes queries activity tree next t) :
  ∃ left, Shown d.registry queries activity [] tree left t ∧ next = left.headD tree.clear
  := by
  obtain ⟨left, t', hshown, rfl, hj⟩ := Pass.run_eq_some_iff.1 ⟨_, h { activity } rfl rfl⟩
  obtain rfl := Journal.extend_inj hj
  exact ⟨left, hshown, rfl⟩

/-- A pass that changes nothing gives the tree itself. -/
theorem Makes.eq_self (h : d.Makes queries activity tree next t) (hnone : t.applications = []) :
  next = tree
  := by
  obtain ⟨left, hshown, rfl⟩ := h.exists_shown
  apply Pass.eq_self_of_shown hshown hnone

end Dispatcher

end Amend
