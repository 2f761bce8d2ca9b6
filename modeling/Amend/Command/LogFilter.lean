import Amend.Log
import Amend.Text.Blank
import Amend.Text.Caseless
import Amend.Text.Cut

/-!
# Which log records are shown

The count of `--verbose` gives the least grave level that is shown.  A text of directives
can change it, for all records or for those of one part of the program: `level`, or
`part=level`, with commas between directives.  The directive for the longest part decides;
among equally long ones the last.  After a slash stands a text that the records have to
contain.
-/

namespace Amend.Command

/-- The least grave level that a count of `--verbose` shows. -/
def levelOf : Nat → Level
  | 0 => .warn
  | 1 => .info
  | 2 => .debug
  | _ => .trace

/-- Down to which level the records of a part of the program are shown; no level shows none. -/
structure Directive where
  part : Option String
  level : Option Level
deriving DecidableEq, Repr

namespace Directive

/-- The length of the part that a directive is for. -/
def reach (d : Directive) : Nat := (d.part.map String.utf8ByteSize).getD 0

/-- Whether a directive is for a part of the program. -/
def concerns (topic : Topic) (d : Directive) : Bool :=
  match d.part with
  | none => true
  | some part => (Text.afterFront? part topic.label).isSome

end Directive

/-- Directives in order, each part once, and the text that records have to contain. -/
structure LogFilter where
  directives : List Directive := []
  needle : Option String := none
deriving DecidableEq, Repr

namespace LogFilter

/-- The filter for a count of `--verbose`. -/
def ofVerbosity (n : Nat) : LogFilter := { directives := [⟨none, some (levelOf n)⟩] }

/-- The level of a name, if it is one; `off` is the name of no level. -/
def readLevel (s : String) : Option (Option Level) :=
  if Text.sameFolded s "off" then some none
  else ([Level.error, .warn, .info, .debug, .trace].find? (Text.sameFolded s ·.label)).map some

/-- Put a directive in the place of the one for the same part, or at the end. -/
def put (d : Directive) : List Directive → List Directive
  | [] => [d]
  | e :: rest => if e.part = d.part then d :: rest else e :: put d rest

/-- A warning about directives that are passed over. -/
def complaint (s more : String) : String := s!"warning: invalid logging spec '" ++ s ++ "'" ++ more ++ ", ignoring it"

/-- Read one directive, or say what is wrong with it. -/
def readDirective (s : String) : Except String Directive :=
  match Text.splitOn '=' s with
  | [name] =>
    match readLevel name with
    | some level => .ok ⟨none, level⟩
    | none => .ok ⟨some name, some .trace⟩
  | [part, name] =>
    let name := Text.trim name
    if name = "" then .ok ⟨some part, some .trace⟩
    else
      match readLevel name with
      | some level => .ok ⟨some part, level⟩
      | none => .error (complaint name "")
  | _ => .error (complaint s "")

/-- Read directives one by one; what is wrong is passed over with a warning. -/
def readAll (f : LogFilter) : List String → LogFilter × List String
  | [] => (f, [])
  | s :: rest =>
    let s := Text.trim s
    if s = "" then readAll f rest
    else
      match readDirective s with
      | .ok d => readAll { f with directives := put d f.directives } rest
      | .error warning =>
        let (f, warnings) := readAll f rest
        (f, warning :: warnings)

/-- The filter changed by a text of directives, and warnings about it. -/
def withDirectives (f : LogFilter) (spec : String) : LogFilter × List String :=
  match Text.splitOn '/' spec with
  | [parts] => readAll f (Text.splitOn ',' parts)
  | [parts, needle] => readAll { f with needle := some needle } (Text.splitOn ',' parts)
  | _ => (f, [complaint spec " (too many '/'s)"])

/-- The one of two directives that is for the longer part; of equally long ones the second. -/
def further (best : Option Directive) (d : Directive) : Option Directive :=
  match best with
  | none => some d
  | some b => if b.reach ≤ d.reach then some d else some b

/-- The directive that decides about a part of the program. -/
def deciding (f : LogFilter) (topic : Topic) : Option Directive :=
  (f.directives.filter (·.concerns topic)).foldl further none

/-- Whether a record is shown. -/
def shows (f : LogFilter) (r : LogRecord) : Bool :=
  (((f.deciding r.topic).bind (·.level)).any fun level => r.level.rank ≤ level.rank)
    && f.needle.all fun needle => Text.occursIn needle.toList r.text.toList

end LogFilter

/-- A record as a line; further lines of its text are set in. -/
def logLine (r : LogRecord) : String :=
  let level := r.level.label
  let padding := String.ofList (List.replicate (5 - level.length) ' ')
  "[" ++ level ++ padding ++ " " ++ r.topic.label ++ "] "
    ++ String.intercalate "\n    " (Text.splitOn '\n' r.text) ++ "\n"

end Amend.Command
