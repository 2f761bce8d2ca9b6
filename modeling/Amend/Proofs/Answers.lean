import Amend.Proofs.Rewriting
import Mathlib.Data.List.Basic

/-!
# A pass sees the index through the rules

A pass asks rules, and only the rules ask the index.  When the rules answer alike with two indexes
about all nodes that a pass comes by, what the pass comes to is the same with both
(`Shown.of_agree`).
-/

namespace Amend

/-! ### Asking rules that answer alike -/

section Asking

variable {queries queries' : Queries} {outer : List Ancestor} {n : Node} {rules : List Rule}

/-- Rules that answer alike about a node are asked alike: up to the same rule. -/
theorem Rule.asked_congr
    (h : ∀ rule ∈ rules, rule.evaluate n ⟨outer, queries'⟩ = rule.evaluate n ⟨outer, queries⟩) :
  Rule.asked n ⟨outer, queries'⟩ rules = Rule.asked n ⟨outer, queries⟩ rules
  := by
  induction rules with
  | nil => rfl
  | cons rule rules ih =>
    rw [List.forall_mem_cons] at h
    rw [Rule.asked, Rule.asked, h.1, ih h.2]

/-- Rules that answer alike about a node want the same of it. -/
theorem Rule.wanted_congr
    (h : ∀ rule ∈ rules, rule.evaluate n ⟨outer, queries'⟩ = rule.evaluate n ⟨outer, queries⟩) :
  Rule.wanted n ⟨outer, queries'⟩ rules = Rule.wanted n ⟨outer, queries⟩ rules
  := by
  induction rules with
  | nil => rfl
  | cons rule rules ih =>
    rw [List.forall_mem_cons] at h
    rw [Rule.wanted, Rule.wanted, List.find?_cons, List.find?_cons, h.1]
    cases (rule.evaluate n ⟨outer, queries⟩).value.isChange with
    | true => rw [Option.map_some, Option.map_some, h.1]
    | false => exact ih h.2

/-- Asking rules that answer alike leaves the same trace. -/
theorem Trace.asking_congr (activity : Activity)
    (h : ∀ rule ∈ rules, rule.evaluate n ⟨outer, queries'⟩ = rule.evaluate n ⟨outer, queries⟩) :
  Trace.asking activity n ⟨outer, queries'⟩ rules = Trace.asking activity n ⟨outer, queries⟩ rules
  := by
  ext1
  · rfl
  · rfl
  · apply List.flatMap_congr
    intro rule hrule
    rw [h rule hrule]

end Asking

/-! ### A pass with rules that answer alike -/

/-- On every node that a pass may meet inside the nodes around it, the rules answer alike with two
indexes.  What stands below a node that was met, or below what it is replaced by, is met too. -/
structure AgreeWhere (registry : Registry) (queries queries' : Queries)
    (met : List Ancestor → Node → Prop) : Prop where
  evaluate_eq : ∀ outer n, met outer n → ∀ rule ∈ registry.rulesFor n.kind,
    rule.evaluate n ⟨outer, queries'⟩ = rule.evaluate n ⟨outer, queries⟩
  kept : ∀ outer n, met outer n → ∀ c ∈ n.children, met (.of n :: outer) c
  replaced : ∀ outer n, met outer n → ∀ rule new,
    registry.wanted ⟨outer, queries⟩ n = some (rule, .replace new) →
      ∀ c ∈ (new.inheritPosition n).children, met (.of (new.inheritPosition n) :: outer) c

namespace AgreeWhere

variable {registry : Registry} {queries queries' : Queries} {met : List Ancestor → Node → Prop}
  {activity : Activity} {outer : List Ancestor} {n : Node}

/-- Where two ways of answering agree, the registry wants the same of a node. -/
theorem wanted_eq (h : AgreeWhere registry queries queries' met) (hn : met outer n) :
  registry.wanted ⟨outer, queries'⟩ n = registry.wanted ⟨outer, queries⟩ n
  := Rule.wanted_congr (h.evaluate_eq outer n hn)

/-- Where two ways of answering agree, asking leaves the same trace. -/
theorem asking_eq (h : AgreeWhere registry queries queries' met) (hn : met outer n) :
  registry.asking activity ⟨outer, queries'⟩ n = registry.asking activity ⟨outer, queries⟩ n
  := by
  have heq := h.evaluate_eq outer n hn
  rw [Registry.asking, Registry.asking, Rule.asked_congr heq]
  apply Trace.asking_congr activity
  intro rule hrule
  apply heq rule (Rule.mem_of_mem_asked hrule)

end AgreeWhere

section Transfer

variable {registry : Registry} {queries queries' : Queries} {met : List Ancestor → Node → Prop}
  {activity : Activity}

mutual

/-- What a pass comes to with one index it comes to with the other. -/
theorem Shown.of_agree (h : AgreeWhere registry queries queries' met) {outer : List Ancestor}
    {n : Node} {left : List Node} {t : Trace} :
    Shown registry queries activity outer n left t → met outer n →
      Shown registry queries' activity outer n left t
  | .replaced hwanted hbelow, hn => by
    rw [← h.asking_eq hn]
    apply Shown.replaced
    · rw [h.wanted_eq hn, hwanted]
    · apply hbelow.of_agree h (h.replaced _ _ hn _ _ hwanted)
  | .removed hwanted, hn => by
    rw [← h.asking_eq hn]
    apply Shown.removed
    rw [h.wanted_eq hn, hwanted]
  | .kept hwanted hbelow, hn => by
    rw [← h.asking_eq hn]
    apply Shown.kept
    · rw [h.wanted_eq hn, hwanted]
    · apply hbelow.of_agree h (h.kept _ _ hn)

/-- The same nodes are left when siblings are shown, and the same trace. -/
theorem ShownAll.of_agree (h : AgreeWhere registry queries queries' met) {outer : List Ancestor}
    {ns left : List Node} {t : Trace} :
    ShownAll registry queries activity outer ns left t → (∀ n ∈ ns, met outer n) →
      ShownAll registry queries' activity outer ns left t
  | .nil, _ => .nil
  | .cons hfirst hothers, hns => by
    obtain ⟨hn, hns⟩ := List.forall_mem_cons.1 hns
    exact .cons (hfirst.of_agree h hn) (hothers.of_agree h hns)

end

end Transfer

end Amend
