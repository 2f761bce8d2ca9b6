import Amend.Proofs.Walk
import Mathlib.Data.List.Basic
import Mathlib.Data.List.Induction

/-!
# Which rules are asked, and which one decides

Under each kind a registry keeps the positions of the rules that were registered for it, every
registration once and in order (`Registry.positionsFor_ofList`), so that the rules interested in a
kind are those whose kinds have it (`Registry.rulesFor_ofList`).  A pass asks them one after the
other up to the first that wants a change, and carries out what that one wants
(`Registry.first_registered_decides`).
-/

namespace Amend

namespace Registry

/-! ### Positions under a kind -/

/-- The positions under a kind in a table. -/
def positionsIn (table : List (Kind × List Nat)) (kind : Kind) : List Nat :=
  (table.lookup kind).getD []

/-- The positions that a registry keeps under a kind. -/
def positionsFor (registry : Registry) (kind : Kind) : List Nat :=
  positionsIn registry.positions kind

/-- The positions in a list of the rules that have a kind among theirs. -/
def interestedAt (rules : List Rule) (kind : Kind) : List Nat :=
  (List.range rules.length).filter fun i => rules[i]?.any fun rule => kind ∈ rule.kinds

variable {table : List (Kind × List Nat)} {kind other : Kind} {kinds : List Kind} {position : Nat}

/-- A position is noted under its kind, once, and nothing else changes. -/
theorem positionsIn_note :
  positionsIn (note kind position table) other
    = if other = kind ∧ position ∉ positionsIn table other then positionsIn table other ++ [position]
      else positionsIn table other
  := by
  induction table with
  | nil =>
    by_cases h : other = kind
    · simp [note, positionsIn, h]
    · simp [note, positionsIn, List.lookup_cons, beq_false_of_ne h, h]
  | cons entry table ih =>
    obtain ⟨k, ps⟩ := entry
    by_cases hk : k = kind
    · subst hk
      by_cases h : other = k
      · by_cases hmem : position ∈ ps <;> simp [note, positionsIn, h, hmem]
      · simp [note, positionsIn, List.lookup_cons, beq_false_of_ne h, h]
    · by_cases h : other = k
      · subst h
        simp [note, positionsIn, hk]
      · simp only [note, hk, if_false]
        simp only [positionsIn, List.lookup_cons, beq_false_of_ne h] at ih ⊢
        exact ih

/-- A position that is noted under some kinds comes last under each of them, once however often a
kind is repeated. -/
theorem positionsIn_foldl_note :
  positionsIn (kinds.foldl (fun table kind => note kind position table) table) other
    = if other ∈ kinds ∧ position ∉ positionsIn table other then
        positionsIn table other ++ [position]
      else positionsIn table other
  := by
  induction kinds generalizing table with
  | nil => simp
  | cons kind kinds ih =>
    rw [List.foldl_cons, ih, positionsIn_note]
    by_cases hmem : position ∈ positionsIn table other
    · simp [hmem]
    · by_cases hkind : other = kind
      · subst hkind
        simp [hmem]
      · simp [hmem, hkind]

/-! ### Registering one rule after the other -/

variable {rules : List Rule} {rule : Rule} {registry : Registry}

/-- The position of a rule is one in the list. -/
theorem lt_length_of_mem_interestedAt (h : position ∈ interestedAt rules kind) :
  position < rules.length
  := List.mem_range.1 (List.mem_filter.1 h).1

/-- A rule that is registered last is the last one of its kinds. -/
theorem interestedAt_concat (rules : List Rule) (rule : Rule) (kind : Kind) :
  interestedAt (rules ++ [rule]) kind
    = interestedAt rules kind ++ if kind ∈ rule.kinds then [rules.length] else []
  := by
  have hfirst : (List.range rules.length).filter
        (fun i => (rules ++ [rule])[i]?.any fun rule => kind ∈ rule.kinds)
      = interestedAt rules kind := by
    apply List.filter_congr
    intro i hi
    rw [List.getElem?_append_left (List.mem_range.1 hi)]
  rw [interestedAt, List.length_append, List.length_singleton, List.range_succ, List.filter_append,
    hfirst]
  congr 1
  by_cases hkind : kind ∈ rule.kinds <;> simp [hkind]

/-- The registry holds the rules that were registered, and under each kind the positions of those
interested in it. -/
structure Holds (registry : Registry) (rules : List Rule) : Prop where
  rules_eq : registry.rules = rules
  positionsFor_eq : ∀ kind, registry.positionsFor kind = interestedAt rules kind

/-- The registry without rules holds none. -/
theorem holds_empty :
  empty.Holds []
  := ⟨rfl, fun _ => rfl⟩

/-- Registering a rule adds it behind the others. -/
theorem Holds.register (h : registry.Holds rules) (rule : Rule) :
  (registry.register rule).Holds (rules ++ [rule])
  := by
  constructor
  · rw [Registry.register, h.rules_eq]
  · intro kind
    have hnew : rules.length ∉ interestedAt rules kind := fun hmem =>
      Nat.lt_irrefl _ (lt_length_of_mem_interestedAt hmem)
    have hold : positionsIn registry.positions kind = interestedAt rules kind :=
      h.positionsFor_eq kind
    rw [positionsFor, Registry.register, h.rules_eq]
    dsimp only
    rw [positionsIn_foldl_note, hold, interestedAt_concat]
    by_cases hkind : kind ∈ rule.kinds
    · rw [if_pos ⟨hkind, hnew⟩, if_pos hkind]
    · rw [if_neg (fun h => hkind h.1), if_neg hkind, List.append_nil]

/-- The registry of a list of rules holds them. -/
theorem holds_ofList (rules : List Rule) :
  (ofList rules).Holds rules
  := by
  induction rules using List.reverseRecOn with
  | nil => exact holds_empty
  | append_singleton rules rule ih =>
    have hlast : ofList (rules ++ [rule]) = (ofList rules).register rule := by
      rw [ofList, List.foldl_append]
      rfl
    rw [hlast]
    apply ih.register rule

/-- Under each kind there are the positions of the rules that have it. -/
theorem positionsFor_ofList (rules : List Rule) (kind : Kind) :
  (ofList rules).positionsFor kind = interestedAt rules kind
  := (holds_ofList rules).positionsFor_eq kind

/-- At these positions there are the rules that have the kind, in order. -/
theorem filterMap_interestedAt (rules : List Rule) (kind : Kind) :
  (interestedAt rules kind).filterMap (rules[·]?) = rules.filter (kind ∈ ·.kinds)
  := by
  induction rules using List.reverseRecOn with
  | nil => rfl
  | append_singleton rules rule ih =>
    have hfirst : (interestedAt rules kind).filterMap ((rules ++ [rule])[·]?)
        = (interestedAt rules kind).filterMap (rules[·]?) := by
      apply List.filterMap_congr
      intro i hi
      apply List.getElem?_append_left (lt_length_of_mem_interestedAt hi)
    rw [interestedAt_concat, List.filterMap_append, hfirst, ih, List.filter_append]
    congr 1
    by_cases hkind : kind ∈ rule.kinds <;> simp [hkind]

/-- The rules interested in a kind are those that have it among theirs, in the order of their
registration. -/
theorem rulesFor_ofList (rules : List Rule) (kind : Kind) :
  (ofList rules).rulesFor kind = rules.filter (kind ∈ ·.kinds)
  := by
  have hrulesFor : (ofList rules).rulesFor kind
      = ((ofList rules).positionsFor kind).filterMap ((ofList rules).rules[·]?) := rfl
  rw [hrulesFor, positionsFor_ofList, (holds_ofList rules).rules_eq, filterMap_interestedAt]

end Registry

/-! ### Asking the rules -/

/-- `Decision n context rules asked choice`: of the rules, those in `asked` are asked about the
node, and `choice` is the one that decides. -/
inductive Decision (n : Node) (context : Context) :
    (rules asked : List Rule) → (choice : Option Rule) → Prop
  /-- All rules are asked, and none wants a change. -/
  | kept {rules : List Rule} (keep : ∀ rule ∈ rules, (rule.evaluate n context).value = .keep) :
      Decision n context rules rules none
  /-- The rules are asked up to the first that wants a change. -/
  | changed {before after : List Rule} {rule : Rule}
      (keep : ∀ r ∈ before, (r.evaluate n context).value = .keep)
      (change : (rule.evaluate n context).value ≠ .keep) :
      Decision n context (before ++ rule :: after) (before ++ [rule]) (some rule)

/-- What a rule wants to become of a node, with the name of the rule. -/
def Rule.request (n : Node) (context : Context) (rule : Rule) : String × Verdict :=
  (rule.name, (rule.evaluate n context).value)

section Asking

variable {n : Node} {context : Context} {rules asked : List Rule} {choice : Option Rule} {rule : Rule}

/-- A rule that wants no change is asked and passed over. -/
theorem Decision.cons (h : Decision n context rules asked choice)
    (hkeep : (rule.evaluate n context).value = .keep) :
  Decision n context (rule :: rules) (rule :: asked) choice
  := by
  cases h with
  | kept keep =>
    apply Decision.kept
    rw [List.forall_mem_cons]
    exact ⟨hkeep, keep⟩
  | @changed before after first keep change =>
    have hbefore : ∀ r ∈ rule :: before, (r.evaluate n context).value = .keep := by
      rw [List.forall_mem_cons]
      exact ⟨hkeep, keep⟩
    apply Decision.changed hbefore change

/-- Nobody decides exactly when all rules keep the node. -/
theorem Decision.choice_eq_none_iff (h : Decision n context rules asked choice) :
  choice = none ↔ ∀ rule ∈ rules, (rule.evaluate n context).value = .keep
  := by
  cases h with
  | kept keep => exact iff_of_true rfl keep
  | changed keep change =>
    apply iff_of_false (Option.some_ne_none _)
    intro hall
    apply change (hall _ (List.mem_append_right _ List.mem_cons_self))

/-- There is one verdict that is no change. -/
theorem isChange_eq_false_iff {verdict : Verdict} :
  verdict.isChange = false ↔ verdict = .keep
  := by
  cases verdict <;> simp [Verdict.isChange]

/-- The rules that a pass asks and the one that it follows. -/
theorem exists_decision (n : Node) (context : Context) (rules : List Rule) :
  ∃ choice, Decision n context rules (Rule.asked n context rules) choice
    ∧ Rule.wanted n context rules = choice.map (Rule.request n context)
  := by
  induction rules with
  | nil => exact ⟨none, .kept (List.forall_mem_nil _), rfl⟩
  | cons rule rules ih =>
    rw [Rule.asked, Rule.wanted, List.find?_cons]
    cases hchange : (rule.evaluate n context).value.isChange with
    | true =>
      have hne : (rule.evaluate n context).value ≠ .keep := by
        intro hkeep
        rw [hkeep] at hchange
        cases hchange
      have hdecides : Decision n context ([] ++ rule :: rules) ([] ++ [rule]) (some rule) :=
        .changed (List.forall_mem_nil _) hne
      exact ⟨some rule, hdecides, rfl⟩
    | false =>
      obtain ⟨choice, hdecides, hwanted⟩ := ih
      exact ⟨choice, hdecides.cons (isChange_eq_false_iff.1 hchange), hwanted⟩

end Asking

/-! ### Carrying out what is wanted -/

namespace Pass

/-- What is done about a node: a removal and a replacement are noted, and what stands below the
node, or below its replacement, is walked. -/
def carryOut (below : Node → Journal → Option (Node × Journal)) (n : Node) (j : Journal) :
    Option (String × Verdict) → Option (List Node × Journal)
  | some (rule, .replace new) =>
    (below (new.inheritPosition n) (j.applied rule n false)).map fun r => ([r.1], r.2)
  | some (rule, .remove) => some ([], j.applied rule n true)
  | _ => (below n j).map fun r => ([r.1], r.2)

variable {registry : Registry} {queries : Queries} {below : Node → Journal → Option (Node × Journal)}

/-- A node is shown by asking the rules and carrying out what is wanted. -/
theorem showNode_eq_carryOut (n : Node) (j : Journal) :
  showNode registry queries below n j
    = carryOut below n (j.consult registry queries n).2 (j.consult registry queries n).1
  := by
  rw [showNode]
  split <;> simp only [carryOut, *]

/-- One turn of the loop: the node at the position gives way to what is left of it, and the loop
goes on after that. -/
theorem walkSiblings_turn (before after : List Node) (n : Node) (j : Journal) :
  walkSiblings registry queries below before.length (before ++ n :: after) j
    = (showNode registry queries below n j).bind fun r =>
        walkSiblings registry queries below (before.length + r.1.length) (before ++ r.1 ++ after) r.2
  := by
  have hafter (r : List Node × Journal) :
      walkSiblings registry queries below (before.length + r.1.length) (before ++ r.1 ++ after) r.2
        = (showAll registry queries below after r.2).map fun s => (before ++ r.1 ++ s.1, s.2) := by
    rw [walkSiblings_eq, ← List.length_append, List.drop_left, List.take_left]
  rw [walkSiblings_eq, List.drop_left, List.take_left, showAll, Option.map_bind]
  congr 1
  funext r
  rw [hafter, Function.comp_apply, Option.map_map]
  simp [Function.comp_def]

end Pass

/-- In a registry every registration stands once under each kind of its rule, in order and at a
position that there is, whatever kinds are repeated.  Of the rules interested in a node, in the
order of their registration, a pass asks those up to the first that wants a change and none after
it; what this one wants is carried out, on a root as on a child, and nothing is changed exactly
when all of them keep the node. -/
theorem Registry.first_registered_decides (rules : List Rule) (queries : Queries) :
  (∀ kind, (ofList rules).rulesFor kind = rules.filter (kind ∈ ·.kinds)
    ∧ (ofList rules).positionsFor kind = interestedAt rules kind
    ∧ ∀ position ∈ (ofList rules).positionsFor kind, position < (ofList rules).rules.length)
  ∧ ∀ (n : Node) (j : Journal), ∃ asked choice,
    Decision n ⟨j.ancestors, queries⟩ (rules.filter (n.kind ∈ ·.kinds)) asked choice
    ∧ (choice = none ↔ ∀ rule ∈ rules, n.kind ∈ rule.kinds →
        (rule.evaluate n ⟨j.ancestors, queries⟩).value = .keep)
    ∧ j.consult (ofList rules) queries n
      = (choice.map (Rule.request n ⟨j.ancestors, queries⟩),
          j.extend (.asking j.activity n ⟨j.ancestors, queries⟩ asked))
    ∧ (∀ levels, Pass.run (ofList rules) queries levels n j
      = (Pass.carryOut (Pass.walkBelow (ofList rules) queries levels) n
          (j.extend (.asking j.activity n ⟨j.ancestors, queries⟩ asked))
          (choice.map (Rule.request n ⟨j.ancestors, queries⟩))).map fun r =>
            (r.1.headD n.clear, r.2))
    ∧ ∀ below before after,
      Pass.walkSiblings (ofList rules) queries below before.length (before ++ n :: after) j
        = (Pass.carryOut below n (j.extend (.asking j.activity n ⟨j.ancestors, queries⟩ asked))
            (choice.map (Rule.request n ⟨j.ancestors, queries⟩))).bind fun r =>
              Pass.walkSiblings (ofList rules) queries below (before.length + r.1.length)
                (before ++ r.1 ++ after) r.2
  := by
  constructor
  · intro kind
    refine ⟨rulesFor_ofList rules kind, positionsFor_ofList rules kind, ?_⟩
    intro position hposition
    rw [positionsFor_ofList] at hposition
    rw [(holds_ofList rules).rules_eq]
    apply lt_length_of_mem_interestedAt hposition
  · intro n j
    let context : Context := ⟨j.ancestors, queries⟩
    obtain ⟨choice, hdecides, hwanted⟩ :=
      exists_decision n context ((ofList rules).rulesFor n.kind)
    have hconsult := j.consult_eq (ofList rules) queries n
    rw [wanted, asking, hwanted] at hconsult
    rw [rulesFor_ofList] at hdecides hconsult
    refine ⟨_, choice, hdecides, ?_, hconsult, ?_, ?_⟩
    · rw [hdecides.choice_eq_none_iff]
      simp only [List.mem_filter, decide_eq_true_eq, and_imp]
      rfl
    · intro levels
      rw [Pass.run_eq, Pass.showNode_eq_carryOut, hconsult]
    · intro below before after
      rw [Pass.walkSiblings_turn, Pass.showNode_eq_carryOut, hconsult]

end Amend
