import Amend.Discovery.Exclusion
import Amend.Discovery.RootPattern
import Amend.Discovery.Signature
import Amend.Failure

/-!
# Finding files

`discover` gives the files that a query asks for, each once: first the roots that are files,
whatever their names, and then, directory by directory, the files with one of the suffixes
that no exclude pattern matches.  Every file is given by its place, so that a link stands for
what it leads to.

A `Finder` keeps what it has found.  It answers a query that it has seen before from what it
keeps, without looking at the disk.
-/

namespace Amend.Discovery

/-- The places that roots lead to: files and directories, each in the order of the roots. -/
structure Roots where
  files : List Location := []
  directories : List Location := []
deriving DecidableEq, Repr

/-- The places that one root leads to. -/
def Roots.ofRoot (d : Disk) (root : String) : ExceptT Failure Logged Roots :=
  if isPattern root then
    return { directories := ← (matchingDirectories d root : Logged (List Location)) }
  else
    match d.locate root with
    | .error _ => throw (.invalidRoot root)
    | .ok place =>
      match d.lookup? place with
      | some (.file _) => return { files := [place] }
      | some .directory => return { directories := [place] }
      | _ => throw (.invalidRoot root)

/-- The places that a list of roots leads to, up to the first root that leads to none. -/
def Roots.ofList (d : Disk) : List String → ExceptT Failure Logged Roots
  | [] => return {}
  | root :: rest => do
    let first ← ofRoot d root
    let others ← ofList d rest
    return ⟨first.files ++ others.files, first.directories ++ others.directories⟩

/-- Whether a name ends in a dot and one of the suffixes. -/
def hasSuffix (suffixes : List String) (name : String) : Bool :=
  suffixes.any fun suffix =>
    (Text.beforeBack? suffix name).any fun stem => stem.toList.getLast? == some '.'

/-- The files under a directory whose names in it have one of the suffixes, in the order of
the paths under which they are found. -/
def candidates (d : Disk) (suffixes : List String) (directory : Location) : List Location :=
  (d.placesUnder directory).filterMap fun found =>
    if found.getLast?.any (hasSuffix suffixes) && d.isFile found.path then
      (d.locate found.path).toOption
    else none

/-- Those of a list of places that no exclude pattern matches. -/
def keepIncluded (exclusions : List Exclusion) : List Location → Logged (List Location)
  | [] => pure []
  | place :: rest => do
    let excluded ← isExcluded place.path exclusions
    let others ← keepIncluded exclusions rest
    return if excluded then others else place :: others

/-- The files under a list of directories. -/
def filesUnder (d : Disk) (suffixes : List String) (exclusions : List Exclusion) :
    List Location → Logged (List Location)
  | [] => pure []
  | directory :: rest => do
    let files ← keepIncluded exclusions (candidates d suffixes directory)
    return files ++ (← filesUnder d suffixes exclusions rest)

/-- The paths of the files that a query asks for. -/
def discover (d : Disk) (q : Query) : ExceptT Failure Logged (List String) := do
  let roots ← Roots.ofList d q.roots
  let exclusions ← (readExclusions q.excludes : Logged (List Exclusion))
  let found ← (filesUnder d q.suffixes exclusions roots.directories : Logged (List Location))
  return (roots.files ++ found).eraseDups.map (·.path)

/-- What has been found, under the signatures of the queries. -/
structure Finder where
  found : List (String × List String) := []
deriving DecidableEq, Repr

namespace Finder

/-- A finder that has found nothing yet. -/
def empty : Finder := {}

/-- The number of queries that have been answered. -/
def size (f : Finder) : Nat := f.found.length

/-- Answer a query, and keep the answer for the next time. -/
def resolve (f : Finder) (d : Disk) (q : Query) : Logged (Except Failure (List String) × Finder) :=
  match f.found.lookup q.signature with
  | some paths => do
    Logged.write .debug .discovery s!"Discovery cache hit ({paths.length} units)"
    return (.ok paths, f)
  | none => do
    match ← (discover d q).run with
    | .error e => return (.error e, f)
    | .ok paths =>
      Logged.write .debug .discovery s!"Discovered {paths.length} units from {q.roots.length} roots"
      return (.ok paths, ⟨f.found ++ [(q.signature, paths)]⟩)

end Finder

end Amend.Discovery
