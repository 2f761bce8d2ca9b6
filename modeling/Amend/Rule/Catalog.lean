import Amend.Failure
import Amend.Pass.Registry
import Amend.Rule.StaticCall
import Amend.Text.Blank

/-!
# The rules that can be enabled

Rules are enabled by name; blanks around a name and the case of its letters do not count.
The registry holds the enabled rules in the order in which they are named, each once.
-/

namespace Amend

/-- Which rules are enabled, and their options. -/
structure RuleSettings where
  enabled : List String := [StaticCall.ruleName]
  options : StaticCall.Options := {}
deriving DecidableEq, Repr

namespace Catalog

/-- Every rule there is, with the options given. -/
def rules (options : StaticCall.Options) : List Rule := [StaticCall.rule options]

/-- The names of the rules. -/
def available : List String := (rules {}).map (·.name)

/-- The rule that a name asks for. -/
def find? (options : StaticCall.Options) (name : String) : Option Rule :=
  (rules options).find? (Text.sameFolded ·.name (Text.trim name))

/-- Register the rules that are named; a name met before is passed over. -/
def select (options : StaticCall.Options) (registry : Registry) :
    List String → ExceptT Failure Logged Registry
  | [] => pure registry
  | name :: names =>
    match find? options name with
    | none => throw (.unknownRule name available)
    | some rule => do
      if rule.name ∈ registry.rules.map (·.name) then
        ExceptT.lift (Logged.write .debug .catalog s!"Rule {rule.name} enabled twice, registering once")
        select options registry names
      else
        select options (registry.register rule) names

/-- The registry of the enabled rules. -/
def registry (settings : RuleSettings) : ExceptT Failure Logged Registry := do
  let registry ← select settings.options .empty settings.enabled
  if registry.rules.isEmpty then
    ExceptT.lift (Logged.write .warn .catalog "No rules enabled; units will be parsed but left unchanged")
  return registry

/-- The registry of every rule, with the usual options. -/
def full : Registry := .ofList (rules {})

end Catalog

end Amend
