import Amend.Settings.Basic
import Amend.Toml.Document
import Amend.Word

/-!
# Settings files

A settings file is a TOML document.  Keys that are missing take their usual values, unknown
keys are passed over, and a key with a value of the wrong type makes the file unusable.
-/

namespace Amend.Settings

open Toml

/-- Whether a value under an unknown key can be passed over: its numbers must be numbers that
some type holds. -/
def passable : Value → Bool
  | .integer n => -(2 ^ 127) ≤ n && n < 2 ^ 128
  | .float overflows => !overflows
  | .array items => passableAll items
  | .tables items => passableAll items
  | .table _ entries => passableEntries entries
  | _ => true
where
  passableAll : List Value → Bool
    | [] => true
    | v :: vs => passable v && passableAll vs
  passableEntries : List (String × Value) → Bool
    | [] => true
    | (_, v) :: rest => passable v && passableEntries rest

def readString : Value → Option String
  | .string s => some s
  | _ => none

def readStrings : Value → Option (List String)
  | .array items => items.mapM readString
  | .tables items => items.mapM readString
  | _ => none

def readBoolean : Value → Option Bool
  | .boolean b => some b
  | _ => none

/-- A number that a machine word holds. -/
def readWord : Value → Option Nat
  | .integer (.ofNat n) => if n < wordLimit then some n else none
  | _ => none

/-- Whether a value is empty, as the value under the name of a choice has to be. -/
def isEmpty : Value → Bool
  | .array [] => true
  | .table _ [] => true
  | _ => false

def repetitionOf : String → Option Repetition
  | "single" => some .single
  | "converge" => some .converge
  | _ => none

/-- A choice, as its name or as a table with an empty value under its name. -/
def readRepetition : Value → Option Repetition
  | .string s => repetitionOf s
  | .table _ [(name, v)] => if isEmpty v then repetitionOf name else none
  | _ => none

/-- The value under a key, or the usual one when the key is missing. -/
def field {α : Type} (entries : Entries) (key : String) (read : Value → Option α) (usual : α) : Option α :=
  match entries.lookup key with
  | none => some usual
  | some v => read v

/-- Whether all entries under other than the known keys can be passed over. -/
def othersPassable (known : List String) (entries : Entries) : Bool :=
  entries.all fun (key, v) => known.contains key || passable v

/-- A record, written as a table or as the list of its first fields in order. -/
def recordEntries? (known : List String) : Value → Option Entries
  | .table _ entries => if othersPassable known entries then some entries else none
  | .array items => some (known.zip items)
  | .tables items => some (known.zip items)
  | _ => none

def readPasses (v : Value) : Option PassSettings := do
  let entries ← recordEntries? ["mode", "max_passes", "dry_run"] v
  let usual : PassSettings := {}
  let mode ← field entries "mode" readRepetition usual.mode
  let maxPasses ← field entries "max_passes" readWord usual.maxPasses
  let dryRun ← field entries "dry_run" readBoolean usual.dryRun
  return { mode, maxPasses, dryRun }

def readRules (v : Value) : Option RuleSettings := do
  let entries ← recordEntries? ["enabled", "test_case_classes", "assertion_pattern"] v
  let usual : RuleSettings := {}
  let enabled ← field entries "enabled" readStrings usual.enabled
  let testCaseClasses ← field entries "test_case_classes" readStrings usual.options.testCaseClasses
  let assertionPattern ← field entries "assertion_pattern" readString usual.options.assertionPattern
  return { enabled, options := { testCaseClasses, assertionPattern } }

/-- The settings that the entries of a document make. -/
def ofEntries? (entries : Entries) : Option Settings := do
  let usual : Settings := {}
  let paths ← field entries "paths" readStrings usual.paths
  let suffixes ← field entries "suffixes" readStrings usual.suffixes
  let excludes ← field entries "exclude_paths" readStrings usual.excludes
  let passes ← field entries "rewrite" readPasses usual.passes
  let rules ← field entries "rules" readRules usual.rules
  if othersPassable ["paths", "suffixes", "exclude_paths", "rewrite", "rules"] entries then
    return { paths, suffixes, excludes, passes, rules }
  else none

/-- The name of settings files. -/
def fileName : String := ".refit.toml"

/-- What is said of a file that makes no settings.  The program goes on with the place and the
reason that the reader of the format gives; they are left out here, so that every such file has the
same text. -/
def parseFailure : String := s!"Failed to parse {fileName}: TOML parse error"

/-- Suffixes without leading dots; those that consist of dots are left out. -/
def plainSuffixes (suffixes : List String) : List String :=
  (suffixes.map (Text.trimStart '.')).filter (· ≠ "")

/-- Settings with a number of passes that is not zero and suffixes without leading dots. -/
def normalize (s : Settings) : Logged Settings := do
  if s.passes.maxPasses = 0 then
    Logged.write .warn .settings s!"rewrite.max_passes must be at least 1. Using {defaultMaxPasses}."
  let maxPasses := if s.passes.maxPasses = 0 then defaultMaxPasses else s.passes.maxPasses
  return { s with
    passes := { s.passes with maxPasses }
    suffixes := plainSuffixes s.suffixes }

/-- The settings that the text of a file makes. -/
def parse? (text : String) : Logged (Option Settings) :=
  match (Toml.parse? text).bind ofEntries? with
  | none => pure none
  | some s => some <$> normalize s

end Amend.Settings
