import Amend.Discovery.Finder
import Amend.Php.Reading
import Amend.Report.Basic
import Amend.Settings.Basic

/-!
# Runs

A run goes through its files in four stages, each over all files in order.

* Every file is read into a tree.  One that cannot be read is skipped.
* The declarations of all trees are collected in one index.
* The rules are applied to every tree; the index stays as it is.
* Texts that have changed are written, unless nothing is to be written.

No file depends on another one but through the index.  A file is written only when its tree
prints a text other than the one that was read.  When the rules go on without end on a file, so
does the run: it comes to no report on any file.
-/

namespace Amend.Run

/-- A file that has been read. -/
structure ParsedUnit where
  path : String
  source : String
  tree : Node

/-- A file to which the rules have been applied. -/
structure AmendedUnit where
  path : String
  /-- The new text, if it is another one. -/
  output : Option String
  applied : List String
  passes : Nat

/-- What a run does with its files. -/
structure Plan where
  grammar : Php.Grammar
  registry : Registry
  mode : PassMode
  dryRun : Bool

/-- What a run leaves behind. -/
structure Result where
  disk : Disk
  units : List UnitReport
  progress : Progress

/-- Read one file. -/
def readUnit (grammar : Php.Grammar) (d : Disk) (path : String) : Logged (Except UnitReport ParsedUnit) :=
  match d.read path with
  | .error e => do
    Logged.write .warn .run s!"Skipping {path}: {e.message}"
    return .error (.skip path s!"read failed: {e.message}")
  | .ok source =>
    match Php.read grammar path source with
    | .error e => do
      Logged.write .warn .run s!"Skipping {e.message}"
      return .error (.skip path e.message)
    | .ok tree => return .ok ⟨path, source, tree⟩

/-- The files of a list that have been read. -/
def parsedUnits (units : List (Except UnitReport ParsedUnit)) : List ParsedUnit :=
  units.filterMap (·.toOption)

/-- Collect the declarations of files in order. -/
def collectAll (index : ProjectIndex) : List ParsedUnit → Logged ProjectIndex
  | [] => pure index
  | u :: rest => do collectAll (← Php.collect index u.tree) rest

/-- What is in hand while the rules are applied to a file. -/
def activityOn (path : String) : Activity := ((Activity.idle.enterPhase .amending).2.enterFile path).2

/-- What the outcome of the rules on a file comes to. -/
def ParsedUnit.amended (u : ParsedUnit) (outcome : Outcome) : AmendedUnit :=
  let printed := outcome.tree.source
  { path := u.path
    output := if outcome.applied > 0 ∧ printed ≠ u.source then some printed else none
    applied := outcome.applications.map (·.rule)
    passes := outcome.passes }

/-- What the rules make of a file.  There is no result when they go on without end. -/
def amendUnit (dispatcher : Dispatcher) (queries : Queries) (u : ParsedUnit) :
    OptionT Logged AmendedUnit :=
  match dispatcher.applyAll? queries u.tree (activityOn u.path) with
  | none => failure
  | some outcome => OptionT.lift ⟨u.amended outcome, outcome.log⟩

/-- Apply the rules to a file, if it has been read. -/
def amendRead (dispatcher : Dispatcher) (queries : Queries) :
    Except UnitReport ParsedUnit → OptionT Logged (Except UnitReport AmendedUnit)
  | .error report => pure (.error report)
  | .ok u => .ok <$> amendUnit dispatcher queries u

/-- Write a file that has changed, and report on it. -/
def writeBack (dryRun : Bool) (d : Disk) (u : AmendedUnit) : Logged (Disk × UnitReport) :=
  match u.output with
  | none => return (d, ⟨u.path, .unchanged, u.applied, u.passes, none⟩)
  | some output =>
    let report : UnitReport := ⟨u.path, .changed, u.applied, u.passes, none⟩
    if dryRun then return (d, report)
    else
      match d.write u.path output with
      | .error e => do
        Logged.write .warn .run s!"Failed to write {u.path}: {e.message}"
        return (d, .skip u.path s!"write failed: {e.message}")
      | .ok d => do
        Logged.write .info .run s!"Rewrote {u.path}"
        return (d, report)

/-- Write the files that have changed, and report on all. -/
def writeAll (dryRun : Bool) (d : Disk) :
    List (Except UnitReport AmendedUnit) → Logged (Disk × List UnitReport)
  | [] => return (d, [])
  | .error report :: rest => do
    let (d, reports) ← writeAll dryRun d rest
    return (d, report :: reports)
  | .ok u :: rest => do
    let (d, report) ← writeBack dryRun d u
    let (d, reports) ← writeAll dryRun d rest
    return (d, report :: reports)

/-- Process files that are given by their paths.  There is no result when the rules go on without
end on one of them. -/
def processUnits (plan : Plan) (d : Disk) (paths : List String) : OptionT Logged Result := do
  let parsed ← (paths.mapM (readUnit plan.grammar d) : Logged _)
  let index ← collectAll .empty (parsedUnits parsed)
  Logged.write .debug .run s!"Indexed {index.size} declarations"
  let dispatcher : Dispatcher := { registry := plan.registry, mode := plan.mode }
  let amended ← parsed.mapM (amendRead dispatcher index.queries)
  let (disk, units) ← writeAll plan.dryRun d amended
  return { disk, units, progress := ⟨(parsedUnits parsed).length, paths.length⟩ }

/-- Find the files that are asked for and process them. -/
def run (plan : Plan) (d : Disk) (query : Discovery.Query) :
    ExceptT Failure (OptionT Logged) Result := do
  let paths ← ExceptT.mk (OptionT.lift (Prod.fst <$> Discovery.Finder.empty.resolve d query))
  (Logged.write .info .run s!"Processing {paths.length} source units" : Logged Unit)
  (processUnits plan d paths : OptionT Logged Result)

end Amend.Run
