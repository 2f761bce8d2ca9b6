import Amend.Settings.File

/-!
# Settings from the command line

What is given on the command line takes the place of what a settings file says.
-/

namespace Amend

/-- Where to look for files, as given on the command line. -/
structure DiscoveryOverrides where
  paths : List String := []
  suffixes : List String := []
  excludes : List String := []
deriving DecidableEq, Repr

/-- How to apply which rules, as given on the command line. -/
structure PassOverrides where
  dryRun : Bool := false
  converge : Bool := false
  maxPasses : Option Nat := none
  rules : Option (List String) := none
deriving DecidableEq, Repr

namespace Settings

/-- Take over where to look for files.  With no path at all the current directory is meant. -/
def overrideDiscovery (s : Settings) (o : DiscoveryOverrides) : Settings :=
  let paths := if o.paths = [] then s.paths else o.paths
  { s with
    paths := if paths = [] then ["."] else paths
    suffixes := if o.suffixes = [] then s.suffixes else o.suffixes.map (Text.trimStart '.')
    excludes := if o.excludes = [] then s.excludes else o.excludes }

/-- Take over how to apply which rules. -/
def overridePasses (s : Settings) (o : PassOverrides) : Settings :=
  { s with
    passes :=
      { mode := if o.converge then .converge else s.passes.mode
        maxPasses := (o.maxPasses.map (max · 1)).getD s.passes.maxPasses
        dryRun := s.passes.dryRun || o.dryRun }
    rules := { s.rules with enabled := o.rules.getD s.rules.enabled } }

end Settings

end Amend
