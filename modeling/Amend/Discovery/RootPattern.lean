import Amend.Disk.Files
import Amend.Glob.Match
import Amend.Log
import Amend.Text.Quoted

/-!
# Patterns for directories

A root may be given as a pattern, which stands for the directories whose paths match it
segment by segment.  Here a star does not reach over a slash, and a segment `**` stands for
any directories one below the other.

`RootPattern.expand` gives the matching paths, each directory before what is below it and
the names in a directory in order.
-/

namespace Amend.Discovery

/-- A segment of a pattern between slashes. -/
inductive Segment where
  /-- This name. -/
  | name (s : String)
  /-- Every name that matches. -/
  | wild (pattern : Glob.Pattern)
  /-- Any directories one below the other. -/
  | anyDepth
deriving DecidableEq, Repr

namespace Segment

/-- Read a segment. -/
def ofString (s : String) : Except Glob.PatternError Segment :=
  match Glob.Pattern.ofString s with
  | .error e => .error e
  | .ok p => .ok (if p.recursive then .anyDepth else if p.wild then .wild p else .name s)

/-- Whether a name in a directory matches the segment. -/
def fits (name : String) : Segment → Bool
  | .name s => s == name
  | .wild p => p.fits .exact name
  | .anyDepth => true

/-- Those of `..` and `.` that the segment stands for.  A star or a set does not stand for
the dot at their start. -/
def dots : Segment → List String
  | .wild p => if p.steps.head? = some (.char '.') then ["..", "."].filter (p.fits .exact) else []
  | _ => []

end Segment

/-- Whether a root is given as a pattern. -/
def isPattern (root : String) : Bool := root.toList.any fun c => c == '*' || c == '?' || c == '['

/-- A pattern for directories: the directory that it sets out from, and its segments. -/
structure RootPattern where
  start : String
  segments : List Segment
deriving DecidableEq, Repr

namespace RootPattern

/-- The segments of a path; a slash at its end opens no segment. -/
def segmentTexts (path : String) : List String :=
  let ps := Path.pieces path
  if ps.getLast? = some "" then ps.dropLast else ps

/-- Read a pattern: it has to be one as a whole, and each of its segments has to be one. -/
def ofString (s : String) : Except Glob.PatternError RootPattern := do
  let _ ← Glob.Pattern.ofString s
  let absolute := Path.isAbsolute s
  let texts := segmentTexts (if absolute then String.ofList (s.toList.drop 1) else s)
  return { start := if absolute then "/" else ".", segments := ← texts.mapM Segment.ofString }

/-- The path of a name in a directory; the current directory is not mentioned. -/
def stepInto (directory name : String) : String :=
  if Path.same directory "." then name else Path.join directory name

/-- The names in a directory. -/
def names (d : Disk) (directory : String) : List String :=
  match d.locate directory with
  | .ok place => if d.lookup? place = some .directory then d.namesIn place else []
  | .error _ => []

/-- The paths below a directory that match segments, down to a number of levels. -/
def below (d : Disk) : Nat → String → List Segment → List String
  | 0, _, _ => []
  | _ + 1, _, [] => []
  | levels + 1, directory, .name s :: rest =>
    let next := stepInto directory s
    let found := if s = "." ∨ s = ".." then d.isDirectory directory else d.isThere next
    if found then onward levels next rest else []
  | levels + 1, directory, .wild p :: rest =>
    if d.isDirectory directory then
      (Segment.wild p).dots.flatMap (fun s => onward levels (Path.join directory s) rest)
        ++ (names d directory).flatMap fun s =>
          if p.fits .exact s then onward levels (stepInto directory s) rest else []
    else []
  | levels + 1, directory, .anyDepth :: rest =>
    let rest := rest.dropWhile (· == .anyDepth)
    (names d directory).flatMap fun s =>
      let next := stepInto directory s
      let self :=
        match rest with
        | [] => if d.isDirectory next then [next] else []
        | segment :: more => if segment.fits s then onward levels next more else []
      self ++ if d.isDirectory next then below d levels next (.anyDepth :: rest) else []
where
  /-- The paths that match the segments left after a path has matched those before. -/
  onward (levels : Nat) (path : String) (rest : List Segment) : List String :=
    match rest with
    | [] => [path]
    | _ => below d levels path rest

/-- The paths that match a pattern.  Every level takes a segment or makes the path longer, so
that there is no level below the given number. -/
def expand (d : Disk) (p : RootPattern) : List String :=
  below d (p.segments.length + Disk.pathLimit) p.start p.segments

end RootPattern

/-- The directories that a pattern stands for. -/
def matchingDirectories (d : Disk) (pattern : String) : Logged (List Location) :=
  match RootPattern.ofString pattern with
  | .error e => do
    Logged.write .warn .discovery s!"Skipping malformed root pattern {Text.quoted pattern}: {e.message}"
    return []
  | .ok p => do
    let directories := (p.expand d).filterMap fun path =>
      match d.locate path with
      | .ok place => if d.lookup? place = some .directory then some place else none
      | .error _ => none
    if directories = [] then
      Logged.write .debug .discovery s!"Root pattern {Text.quoted pattern} matched no directories"
    return directories

end Amend.Discovery
