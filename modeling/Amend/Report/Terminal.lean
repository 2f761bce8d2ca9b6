import Amend.Report.Basic
import Amend.Rule.Basic
import Amend.Text.Cut

/-!
# Reports for people

Reports as lines of text, in colour if the terminal shows colours.
-/

namespace Amend.Report

/-- How a text is set off from others. -/
inductive Style where
  | bold
  | dim
  | red
  | green
  | yellow
  | cyan
deriving DecidableEq, Repr

/-- The number that stands for a style. -/
def Style.code : Style → String
  | bold => "1"
  | dim => "2"
  | red => "31"
  | green => "32"
  | yellow => "33"
  | cyan => "36"

/-- The sequence that switches styles on. -/
def switchOn (styles : List Style) : String :=
  "\x1b[" ++ String.intercalate ";" (styles.map (·.code)) ++ "m"

/-- The sequence that switches all styles off. -/
def switchOff : String := "\x1b[0m"

/-- Switch styles on again wherever a text switches them off. -/
def keepOn (start : List Char) : List Char → List Char
  | '\x1b' :: '[' :: '0' :: 'm' :: rest => '\x1b' :: '[' :: '0' :: 'm' :: (start ++ keepOn start rest)
  | c :: rest => c :: keepOn start rest
  | [] => []

/-- A text in some styles. -/
def paint (color : Bool) (styles : List Style) (s : String) : String :=
  if color then
    switchOn styles ++ String.ofList (keepOn (switchOn styles).toList s.toList) ++ switchOff
  else s

/-- A text with blanks behind it up to a width. -/
def padRight (width : Nat) (s : String) : String :=
  String.ofList (s.toList ++ List.replicate (width - s.length) ' ')

/-- A text with blanks in front of it up to a width. -/
def padLeft (width : Nat) (s : String) : String :=
  String.ofList (List.replicate (width - s.length) ' ' ++ s.toList)

/-- The ending of a noun that is counted. -/
def plural (n : Nat) : String := if n = 1 then "" else "s"

/-- The word for changed files. -/
def changedLabel (dryRun : Bool) : String := if dryRun then "would change" else "changed"

/-- The status of a file, in the first column. -/
def statusText (color dryRun : Bool) (status : UnitStatus) : String :=
  match status with
  | .changed =>
    paint color [.bold, if dryRun then .yellow else .green] (padRight 12 (changedLabel dryRun))
  | .unchanged => paint color [.dim] (padRight 12 status.label)
  | .skipped => paint color [.bold, .red] (padRight 12 status.label)

/-- The lines on one file. -/
def unitText (color dryRun : Bool) (u : UnitReport) : String :=
  let changes := u.applied.length
  let count := if changes = 0 then "" else s!" ({changes} change{plural changes})"
  let reason :=
    match u.reason with
    | none => ""
    | some reason => "      " ++ paint color [.red] reason ++ "\n"
  "  " ++ statusText color dryRun u.status ++ " " ++ u.path ++ count ++ "\n" ++ reason

/-- Whether a file has lines of its own; an unchanged one has them when more is to be told. -/
def isListed (verbosity : Nat) (u : UnitReport) : Bool := u.status ≠ .unchanged || verbosity ≠ 0

/-- The report on a run. -/
def runText (color : Bool) (verbosity : Nat) (r : RunReport) : String :=
  let units := r.units.length
  let changed := paint color [.green] (toString (r.count .changed))
  let skipped := paint color [.red] (toString (r.count .skipped))
  paint color [.bold] (if r.dryRun then "refit (dry run)" else "refit") ++ "\n"
    ++ String.join ((r.units.filter (isListed verbosity)).map (unitText color r.dryRun))
    ++ s!"\n{units} unit{plural units}: {changed} {changedLabel r.dryRun}, "
    ++ s!"{r.count .unchanged} unchanged, {skipped} skipped "
    ++ s!"({r.totalApplied} rule application{plural r.totalApplied})\n"

/-- The files that discovery has found. -/
def pathsText (color : Bool) (paths : List String) : String :=
  String.join (paths.map (· ++ "\n"))
    ++ paint color [.bold] (toString paths.length) ++ " " ++ paint color [.dim] "units" ++ "\n"

/-- A line without the carriage return in front of its line feed. -/
def withoutReturn (line : String) : String := (Text.beforeBack? "\r" line).getD line

/-- The lines of a text; a line feed at the end opens no line. -/
def lines (s : String) : List String :=
  let pieces := Text.splitOn '\n' s
  match pieces.getLast? with
  | none => []
  | some "" => pieces.dropLast.map withoutReturn
  | some last => pieces.dropLast.map withoutReturn ++ [last]

/-- Lines set in from the margin. -/
def setIn (s : String) : String := String.join ((lines s).map fun line => "    " ++ line ++ "\n")

def sampleText (color : Bool) (s : Sample) : String :=
  "\n  " ++ paint color [.red] "before:" ++ "\n" ++ setIn s.before
    ++ "  " ++ paint color [.green] "after:" ++ "\n" ++ setIn s.after

/-- The rules, with their descriptions and samples. -/
def definitionsText (color : Bool) (definitions : List (String × Definition)) : String :=
  String.join (definitions.map fun (name, d) =>
    paint color [.bold, .cyan] name ++ "\n  " ++ d.description ++ "\n"
      ++ String.join (d.samples.map (sampleText color)) ++ "\n")

end Amend.Report
