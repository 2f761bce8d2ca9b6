import Amend.Rule.Basic

/-!
# Registries of rules

A registry holds rules in the order in which they were registered and knows, for each kind
of node, the positions of the rules that want to be asked about it.
-/

namespace Amend

/-- Rules in the order of registration, and under each kind the positions of the rules that
are interested in it. -/
structure Registry where
  rules : List Rule := []
  positions : List (Kind × List Nat) := []

namespace Registry

/-- The registry without rules. -/
def empty : Registry := {}

/-- Note a position under a kind, once. -/
def note (kind : Kind) (position : Nat) : List (Kind × List Nat) → List (Kind × List Nat)
  | [] => [(kind, [position])]
  | (k, ps) :: rest =>
    if k = kind then (k, if position ∈ ps then ps else ps ++ [position]) :: rest
    else (k, ps) :: note kind position rest

/-- Register a rule after the ones already there. -/
def register (registry : Registry) (rule : Rule) : Registry where
  rules := registry.rules ++ [rule]
  positions := rule.kinds.foldl (fun table kind => note kind registry.rules.length table)
    registry.positions

/-- The registry of a list of rules. -/
def ofList (rules : List Rule) : Registry := rules.foldl register empty

/-- The rules interested in a kind, in the order of registration. -/
def rulesFor (registry : Registry) (kind : Kind) : List Rule :=
  ((registry.positions.lookup kind).getD []).filterMap (registry.rules[·]?)

/-- The number of rules. -/
def size (registry : Registry) : Nat := registry.rules.length

/-- The rules' names with what is told about them. -/
def definitions (registry : Registry) : List (String × Definition) :=
  registry.rules.map fun r => (r.name, r.definition)

end Registry

end Amend
