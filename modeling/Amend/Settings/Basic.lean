import Amend.Discovery.Signature
import Amend.Pass.Dispatch
import Amend.Rule.Catalog

/-!
# Settings

What a run is told: where to look for files, which rules to apply and how often.  `Settings`
is what a settings file and the command line say; `RunSettings` is what a run needs of it.
-/

namespace Amend

/-- Whether a file gets one pass or passes until nothing changes. -/
inductive Repetition where
  | single
  | converge
deriving DecidableEq, Repr

def Repetition.label : Repetition → String
  | single => "single"
  | converge => "converge"

/-- The greatest number of passes when none is given. -/
def defaultMaxPasses : Nat := 10

/-- How rules are applied. -/
structure PassSettings where
  mode : Repetition := .single
  maxPasses : Nat := defaultMaxPasses
  /-- Whether files are left as they are. -/
  dryRun : Bool := false
deriving DecidableEq, Repr

/-- The passes that the settings ask for; there is always one. -/
def PassSettings.passMode (s : PassSettings) : PassMode :=
  match s.mode with
  | .single => .single
  | .converge => .converge (max s.maxPasses 1)

/-- All settings. -/
structure Settings where
  paths : List String := []
  suffixes : List String := ["php"]
  excludes : List String := []
  passes : PassSettings := {}
  rules : RuleSettings := {}
deriving DecidableEq, Repr

/-- What a run needs of the settings. -/
structure RunSettings where
  query : Discovery.Query
  mode : PassMode
  dryRun : Bool
deriving DecidableEq, Repr

/-- The part of the settings that concerns a run. -/
def Settings.forRun (s : Settings) : RunSettings where
  query := ⟨s.paths, s.suffixes, s.excludes⟩
  mode := s.passes.passMode
  dryRun := s.passes.dryRun

end Amend
