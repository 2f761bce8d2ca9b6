import Amend.Glob.Match
import Amend.Log
import Amend.Text.Blank
import Amend.Text.Cut
import Amend.Text.Quoted

/-!
# Excluded paths

An exclude pattern excludes the paths in which it occurs, taken as a text or as a wildcard
pattern.  A text that is no wildcard pattern is taken as a text only; a blank pattern
excludes nothing.
-/

namespace Amend.Discovery

/-- The pattern with a star at either end, so that it matches in the middle of a path too. -/
def widen (pattern : String) : String :=
  let front := if pattern.toList.head? = some '*' then "" else "*"
  let back := if pattern.toList.getLast? = some '*' then "" else "*"
  front ++ pattern ++ back

/-- An exclude pattern, with its reading as a wildcard pattern if it has one. -/
structure Exclusion where
  pattern : String
  glob : Option Glob.Pattern
deriving DecidableEq, Repr

namespace Exclusion

/-- Read an exclude pattern. -/
def ofPattern (pattern : String) : Logged Exclusion :=
  match Glob.Pattern.ofString (widen pattern) with
  | .ok glob => pure ⟨pattern, some glob⟩
  | .error e => do
    Logged.write .debug .exclusion
      s!"Exclude pattern {Text.quoted pattern} unusable as glob: {e.message}"
    return ⟨pattern, none⟩

/-- Whether the pattern occurs in a path as it is written. -/
def matchesText (x : Exclusion) (path : String) : Bool :=
  Text.occursIn x.pattern.toList path.toList

/-- Whether the pattern occurs in a path as a wildcard pattern. -/
def matchesGlob (x : Exclusion) (path : String) : Bool := x.glob.any (·.fits .exact path)

/-- Whether the pattern occurs in a path in either way. -/
def excludes (x : Exclusion) (path : String) : Bool := x.matchesText path || x.matchesGlob path

end Exclusion

/-- Read the exclude patterns of a list, passing over blank ones. -/
def readExclusions : List String → Logged (List Exclusion)
  | [] => pure []
  | pattern :: rest =>
    if Text.trim pattern = "" then do
      Logged.write .debug .exclusion "Ignoring empty exclude pattern"
      readExclusions rest
    else do
      let x ← Exclusion.ofPattern pattern
      return x :: (← readExclusions rest)

/-- Whether one of the patterns excludes a path. -/
def isExcluded (path : String) (exclusions : List Exclusion) : Logged Bool :=
  match exclusions.find? (·.excludes path) with
  | none => pure false
  | some x => do
    Logged.write .trace .exclusion s!"Excluding {path} (matched {Text.quoted x.pattern})"
    return true

end Amend.Discovery
