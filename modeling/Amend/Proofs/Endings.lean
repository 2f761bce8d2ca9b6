import Amend.Command.Perform
import Amend.Proofs.Converge
import Amend.Proofs.Stages
import Amend.Proofs.StaticCall.Simultaneous

/-!
# Every command comes to an end

A run has no result when a pass goes on without end.  With the rules of the catalog no pass does:
without rules a pass leaves the tree alone (`Pass.run_empty`), and the rule for calls of static
methods rewrites the calls of the tree at once (`StaticCall.exists_adds`).  So the rules come to an
end on every file of a run (`Run.rulesEnd`), and every command shows something in the end
(`Command.exists_transcript`).
-/

namespace Amend

/-! ### Computations that have a result -/

namespace Logged

variable {α β : Type}

/-- The computation has a result. -/
def Ends (x : OptionT Logged α) : Prop := ∃ a, x.run.value = some a

theorem ends_pure (a : α) :
  Ends (pure a)
  := ⟨a, rfl⟩

/-- What is only logged on the way to a result does not keep it from coming. -/
theorem ends_lift (x : Logged α) :
  Ends (liftM x)
  := ⟨x.value, rfl⟩

/-- A computation has a result when each of its steps has one. -/
theorem Ends.bind {x : OptionT Logged α} {f : α → OptionT Logged β} (hx : Ends x)
    (hf : ∀ a, x.run.value = some a → Ends (f a)) :
  Ends (x >>= f)
  := by
  obtain ⟨a, ha⟩ := hx
  obtain ⟨b, hb⟩ := hf a ha
  use b
  rw [value_run_bind, ha, Option.bind_some, hb]

/-- The same holds of steps that may fail, since a failure is a result. -/
theorem Ends.run_bind {x : ExceptT Failure (OptionT Logged) α}
    {f : α → ExceptT Failure (OptionT Logged) β} (hx : Ends x.run) (hf : ∀ a, Ends (f a).run) :
  Ends (x >>= f).run
  := by
  rw [ExceptT.run_bind]
  apply hx.bind
  rintro (failure | a) _
  · apply ends_pure
  · apply hf

/-- A computation that cannot fail may be one of these steps. -/
theorem Ends.run_lift {x : OptionT Logged α} (h : Ends x) :
  Ends (liftM x : ExceptT Failure (OptionT Logged) α).run
  := by
  rw [ExceptT.run_liftM, map_eq_pure_bind]
  apply h.bind
  intro a _
  apply ends_pure

end Logged

/-! ### Passes -/

namespace Pass

variable {queries : Queries} {levels : Nat}

/-- Siblings that are left as they are one by one are left as they are. -/
theorem showAll_of_forall {registry : Registry} {below : Node → Journal → Option (Node × Journal)}
    {ns : List Node}
    (h : ∀ n ∈ ns, ∀ j, showNode registry queries below n j = some ([n], j)) (j : Journal) :
  showAll registry queries below ns j = some (ns, j)
  := by
  induction ns with
  | nil => rfl
  | cons n ns ih =>
    rw [List.forall_mem_cons] at h
    rw [showAll, h.1 j, Option.bind_some, ih h.2]
    rfl

/-- Without rules a node is left as it is, and nothing is added to the journal. -/
theorem showNode_empty {n : Node} (hlevels : n.height ≤ levels) (j : Journal) :
  showNode .empty queries (walkBelow .empty queries levels) n j = some ([n], j)
  := by
  induction n using Node.below_induction generalizing levels j with
  | below n ih =>
    have hheight := n.one_le_height
    obtain ⟨levels, rfl⟩ : ∃ l, levels = l + 1 := ⟨levels - 1, by omega⟩
    have hconsult : j.consult .empty queries n = (none, j) := rfl
    have hchildren : showAll .empty queries (walkBelow .empty queries levels) n.children (j.enter n)
        = some (n.children, j.enter n) := by
      apply showAll_of_forall
      intro c hc j
      have := Node.height_lt_of_mem_children hc
      apply ih c hc (by omega)
    rw [showNode, hconsult]
    dsimp only
    rw [walkBelow_succ, hchildren, Option.map_some, Option.map_some, Node.withChildren_children]
    rfl

/-- Without rules a pass leaves the tree as it is. -/
theorem run_empty {root : Node} (hlevels : root.height ≤ levels) (j : Journal) :
  run .empty queries levels root j = some (root, j)
  := by
  rw [run_eq, showNode_empty hlevels]
  rfl

end Pass

namespace Dispatcher

variable {d : Dispatcher} {queries : Queries} {activity : Activity}

/-- When every single pass ends, applying the rules does. -/
theorem exists_applyAll? (h : ∀ tree, ∃ o, d.once queries activity tree = some o) (tree : Node) :
  ∃ o, d.applyAll? queries tree activity = some o
  := by
  obtain ⟨passes, last, hiteration⟩ | ⟨passes, hstuck⟩ :=
    d.exists_iteration_or_stuck queries activity tree
  · exact ⟨_, applyAll?_of_iteration hiteration⟩
  · obtain ⟨o, ho⟩ := h (Outcome.lastTree tree passes)
    cases hstuck.fails.symm.trans ho

end Dispatcher

/-! ### The rules of the catalog -/

namespace Catalog

/-- The registry holds no rule, or the rule for calls of static methods. -/
inductive Offers : Registry → Prop
  | nothing : Offers .empty
  | staticCalls (options : StaticCall.Options) : Offers (StaticCall.alone options)

/-- The rule that is asked for is the one there is. -/
theorem eq_rule_of_find? {options : StaticCall.Options} {name : String} {rule : Rule}
    (h : find? options name = some rule) :
  rule = StaticCall.rule options
  := List.mem_singleton.1 (List.mem_of_find?_eq_some h)

/-- However often the rule is named, it is registered once. -/
theorem select_offers {options : StaticCall.Options} {registry registry' : Registry}
    {names : List String} (hregistry : registry = .empty ∨ registry = StaticCall.alone options)
    (h : (select options registry names).run.value = .ok registry') :
  Offers registry'
  := by
  induction names generalizing registry with
  | nil =>
    cases h
    obtain rfl | rfl := hregistry
    · exact .nothing
    · exact .staticCalls options
  | cons name names ih =>
    rw [select] at h
    cases hfind : find? options name with
    | none =>
      rw [hfind] at h
      cases h
    | some rule =>
      rw [hfind] at h
      obtain rfl := eq_rule_of_find? hfind
      apply ih (.inr rfl)
      obtain rfl | rfl := hregistry <;> exact h

/-- The registry of the enabled rules is one of these. -/
theorem registry_offers {settings : RuleSettings} {registry' : Registry}
    (h : (registry settings).run.value = .ok registry') :
  Offers registry'
  := by
  rw [registry, ExceptT.run_bind, Logged.value_bind] at h
  cases hselect : (select settings.options .empty settings.enabled).run.value with
  | error failure =>
    rw [hselect] at h
    cases h
  | ok selected =>
    rw [hselect] at h
    have hsame : registry' = selected := by
      dsimp only at h
      split at h <;> cases h <;> rfl
    rw [hsame]
    apply select_offers (.inl rfl) hselect

/-- With such a registry every pass ends. -/
theorem Offers.exists_once {registry : Registry} (h : Offers registry) (mode : PassMode)
    (queries : Queries) (activity : Activity) (tree : Node) :
  ∃ o, ({ registry, mode } : Dispatcher).once queries activity tree = some o
  := by
  cases h with
  | nothing =>
    have hmakes : ({ registry := .empty, mode } : Dispatcher).Makes queries activity tree tree {} := by
      intro j _ _
      rw [Journal.extend_empty]
      apply Pass.run_empty
      apply Nat.le_add_right
    exact ⟨_, hmakes.once_eq⟩
  | staticCalls options =>
    obtain ⟨t, hadds⟩ := StaticCall.exists_adds options queries activity tree
    exact ⟨_, (hadds.makes mode).once_eq⟩

end Catalog

/-! ### Runs and commands -/

namespace Run

/-- With the rules of the catalog the rules come to an end on every file. -/
theorem rulesEnd {plan : Plan} (h : Catalog.Offers plan.registry) (d : Disk)
    (paths : List String) :
  RulesEnd plan d paths
  := by
  intro u _ hparses
  obtain ⟨o, ho⟩ := Dispatcher.exists_applyAll? (h.exists_once plan.mode
    (indexFor plan.grammar d paths).queries (activityOn u.path)) u.tree
  exact ⟨o, hparses, ho⟩

/-- With the rules of the catalog a run comes to an end, whatever it is to process. -/
theorem ends_run {plan : Plan} (h : Catalog.Offers plan.registry) (d : Disk)
    (query : Discovery.Query) :
  Logged.Ends (run plan d query).run
  := by
  apply Logged.Ends.run_bind
  · apply Logged.ends_lift
  · intro paths
    apply Logged.Ends.run_bind
    · apply Logged.Ends.run_lift
      apply Logged.ends_lift
    · intro _
      apply Logged.Ends.run_lift
      apply exists_result_iff.2 (rulesEnd h d paths)

end Run

namespace Command

variable (s : Surroundings) (d : Disk)

/-- A command to process files comes to an end. -/
theorem ends_process (settings : Settings) (verbosity : Nat) (format : Format)
    (output : Option String) :
  Logged.Ends (process s d settings verbosity format output)
  := by
  apply Logged.Ends.bind
  · apply Logged.ends_lift
  · rintro (failure | registry) hregistry
    · apply Logged.ends_pure
    · have hoffers : Catalog.Offers registry :=
        Catalog.registry_offers (Option.some.inj hregistry)
      apply Logged.Ends.bind
      · apply Run.ends_run hoffers
      · rintro (failure | result) _
        · apply Logged.ends_pure
        · apply Logged.ends_pure

/-- Every command comes to an end. -/
theorem ends_perform (invocation : Invocation) :
  Logged.Ends (perform s d invocation)
  := by
  apply Logged.Ends.bind
  · apply Logged.ends_lift
  · rintro (failure | settings) _
    · apply Logged.ends_pure
    · cases invocation.task with
      | process discovery passes _ format output => apply ends_process
      | discover discovery format => apply Logged.ends_lift
      | rules format => apply Logged.ends_pure

/-- Whatever the command line says and the files hold, the program shows something in the end. -/
theorem exists_transcript (directives : Option String) (args : List String) :
  ∃ t, transcript? s d directives args = some t
  := by
  rw [transcript?]
  cases Invocation.ofArguments args with
  | error fault => exact ⟨_, rfl⟩
  | ok invocation =>
    obtain ⟨ending, hending⟩ := ends_perform s d invocation
    dsimp only
    rw [hending]
    exact ⟨_, rfl⟩

end Command

end Amend
