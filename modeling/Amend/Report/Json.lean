import Amend.Report.Basic
import Amend.Rule.Basic

/-!
# Reports in JSON

A report is made into a JSON value, and the value is written with one item a line, two
blanks for each level.
-/

namespace Amend.Report

/-- A JSON value; the entries of an object keep their order. -/
inductive Json where
  | text (s : String)
  | number (n : Nat)
  | truth (b : Bool)
  | list (items : List Json)
  | object (entries : List (String × Json))

/-- What a character is written as between quotation marks. -/
def escapedChar (c : Char) : List Char :=
  if c = '"' ∨ c = '\\' then ['\\', c]
  else if c = '\x08' then ['\\', 'b']
  else if c = '\x0c' then ['\\', 'f']
  else if c = '\n' then ['\\', 'n']
  else if c = '\r' then ['\\', 'r']
  else if c = '\t' then ['\\', 't']
  else if c.toNat < 32 then
    ['\\', 'u', '0', '0', Nat.digitChar (c.toNat / 16), Nat.digitChar (c.toNat % 16)]
  else [c]

/-- A text in quotation marks. -/
def escaped (s : String) : String := String.ofList ('"' :: s.toList.flatMap escapedChar ++ ['"'])

/-- The start of a line at a level. -/
def indent (level : Nat) : String := String.ofList (List.replicate (2 * level) ' ')

/-- Items between brackets, one a line. -/
def bracketed (opening closing : String) (level : Nat) (items : List String) : String :=
  if items = [] then opening ++ closing
  else
    opening ++ "\n" ++ String.intercalate ",\n" (items.map (indent (level + 1) ++ ·)) ++ "\n" ++ indent level
      ++ closing

mutual

/-- The text of a value that starts on a line of a level. -/
def Json.pretty (level : Nat) : Json → String
  | .text s => escaped s
  | .number n => toString n
  | .truth b => if b then "true" else "false"
  | .list items => bracketed "[" "]" level (prettyItems (level + 1) items)
  | .object entries => bracketed "\x7b" "\x7d" level (prettyEntries (level + 1) entries)

def prettyItems (level : Nat) : List Json → List String
  | [] => []
  | item :: items => item.pretty level :: prettyItems level items

def prettyEntries (level : Nat) : List (String × Json) → List String
  | [] => []
  | (key, value) :: entries => (escaped key ++ ": " ++ value.pretty level) :: prettyEntries level entries

end

/-- The text of a value. -/
def Json.render (j : Json) : String := j.pretty 0

def Json.ofUnit (u : UnitReport) : Json :=
  .object <|
    [("path", .text u.path), ("status", .text u.status.label), ("applied", .list (u.applied.map .text)),
      ("passes", .number u.passes)]
    ++ (u.reason.map fun reason => ("error", Json.text reason)).toList

def Json.ofRun (r : RunReport) : Json :=
  .object [("started_at", .text r.startedAt.text), ("dry_run", .truth r.dryRun),
    ("units", .list (r.units.map ofUnit))]

/-- The files that discovery has found. -/
def Json.ofPaths (paths : List String) : Json :=
  .list (paths.map fun path => .object [("path", .text path)])

def Json.ofSample (s : Sample) : Json := .object [("before", .text s.before), ("after", .text s.after)]

/-- The rules, with their names and definitions. -/
def Json.ofDefinitions (definitions : List (String × Definition)) : Json :=
  .list (definitions.map fun (name, d) =>
    .object [("name", .text name), ("description", .text d.description),
      ("samples", .list (d.samples.map ofSample))])

end Amend.Report
