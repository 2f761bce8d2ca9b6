import Amend.Disk.Path
import Amend.Report.Moment

/-!
# Reports

What became of each file of a run, in the order in which the files were given.
-/

namespace Amend

/-- What became of a file. -/
inductive UnitStatus where
  | unchanged
  | changed
  /-- The file could not be read, or not be written. -/
  | skipped
deriving DecidableEq, Repr

def UnitStatus.label : UnitStatus → String
  | unchanged => "unchanged"
  | changed => "changed"
  | skipped => "skipped"

/-- The report on one file. -/
structure UnitReport where
  path : String
  status : UnitStatus
  /-- The rules that changed the file, once for every change, in order. -/
  applied : List String := []
  passes : Nat := 0
  /-- Why the file was skipped. -/
  reason : Option String := none
deriving DecidableEq, Repr

/-- The report on a file that was skipped. -/
def UnitReport.skip (path reason : String) : UnitReport := { path, status := .skipped, reason := some reason }

/-- The report on a run. -/
structure RunReport where
  startedAt : Moment
  dryRun : Bool
  units : List UnitReport
deriving DecidableEq, Repr

namespace RunReport

/-- The number of files with a status. -/
def count (r : RunReport) (status : UnitStatus) : Nat := r.units.countP (·.status = status)

/-- The number of changes in all files. -/
def totalApplied (r : RunReport) : Nat := r.units.foldr (fun u n => u.applied.length + n) 0

/-- The first report on the file at a path. -/
def find? (r : RunReport) (path : String) : Option UnitReport :=
  r.units.find? fun u => Path.same u.path path

end RunReport

end Amend
