import Amend.Monitor

/-!
# Crash reports

What is written when the program crashes: what it was doing, on which file and under which
rule, and how far it had come.
-/

namespace Amend

/-- What is known of a crash. -/
structure CrashReport where
  /-- What the program said when it gave up, if that was a text. -/
  message : Option String
  location : String
  time : String
  activity : Activity
  progress : Progress
deriving DecidableEq, Repr

namespace CrashReport

/-- The number of characters in a line. -/
def width : Nat := 78

/-- The version of the program. -/
def version : String := "0.1.0"

/-- The system that the program runs on. -/
def platform : String := "linux"

/-- A text cut to a number of characters, the last three of which show that it was cut. -/
def truncate (limit : Nat) (s : String) : String :=
  if s.length ≤ limit then s else String.ofList (s.toList.take (limit - 3)) ++ "..."

/-- A value behind its label. -/
def line (label value : String) : String :=
  s!" {label}: {truncate (width - (label.utf8ByteSize + 4)) value}\n"

/-- A line under a label, if there is a value. -/
def lineIfAny (label : String) : Option String → String
  | some value => line label value
  | none => ""

/-- How far a run has come, in units and in percent. -/
def progressText (p : Progress) : Option String :=
  if p.total = 0 then none
  else some s!"{p.processed} / {p.total} units ({wrapped (p.processed * 100) / p.total}%)"

/-- A line across. -/
def rule : String := String.ofList (List.replicate width '=') ++ "\n"

/-- The report as it is written, after an empty line. -/
def text (r : CrashReport) : String :=
  let phase := (r.activity.station.phase.map (·.label)).getD "(not set, crashed before rewriting started)"
  let request :=
    match r.activity.station.file with
    | some file => s!"Include this report and {file} when filing an issue.\n"
    | none => ""
  "\n" ++ rule ++ " REFIT CRASH REPORT\n" ++ rule
    ++ line "Version" version
    ++ line "Platform" platform
    ++ line "Time" r.time
    ++ line "Panic" (r.message.getD "Unknown panic")
    ++ line "Location" r.location
    ++ line "Phase" phase
    ++ lineIfAny "File" r.activity.station.file
    ++ lineIfAny "Rule" r.activity.rule
    ++ lineIfAny "Progress" (progressText r.progress)
    ++ " Run with RUST_BACKTRACE=1 for a stack trace\n"
    ++ rule ++ request

end CrashReport

end Amend
