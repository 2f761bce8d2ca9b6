import Amend.Disk.Basic
import Amend.Disk.Path

/-!
# Where a path leads

Following a path goes from directory to directory, piece by piece.  A link on the way is
replaced by its target, and forty links are followed at most.  `Disk.locate` gives the place
where a path leads to something, or why it does not.
-/

namespace Amend

/-- What is wanted of the end of a path. -/
inductive Purpose where
  /-- What a link at the end leads to. -/
  | target
  /-- What stands at the end, be it a link. -/
  | self
  /-- A file, which is made if it is missing.  A slash behind its name is an error. -/
  | newFile
deriving DecidableEq, Repr

/-- How far one leg of the way along a path leads: up to its end or to a link. -/
inductive Leg where
  /-- Something stands at the end of the path. -/
  | arrived (place : Location)
  /-- The directory is there, but nothing stands at this place in it. -/
  | missing (place : Location)
  /-- A link in a directory, and the pieces left after it. -/
  | link (directory : Location) (target : String) (rest : List String)
  | failed (reason : OsError)
deriving DecidableEq, Repr

/-- The end of a path: something, or nothing in a directory that is there. -/
inductive Destination where
  | present (place : Location)
  | absent (place : Location)
deriving DecidableEq, Repr

namespace Disk

/-- The number of bytes that the name of a file may have. -/
def nameLimit : Nat := 255

/-- The number of bytes below which the length of a path has to stay. -/
def pathLimit : Nat := 4096

/-- The number of links that are followed along one path. -/
def linkLimit : Nat := 40

/-- Go along pieces up to a link. -/
def leg (d : Disk) (purpose : Purpose) (place : Location) : List String → Leg
  | [] => .arrived place
  | piece :: rest =>
    match d.lookup? place with
    | none => .failed .notFound
    | some .directory =>
      if Path.isIdle piece then leg d purpose place rest
      else if piece = ".." then leg d purpose place.dropLast rest
      else if purpose = .newFile ∧ rest ≠ [] ∧ rest.all (· = "") then .failed .isDirectory
      else if nameLimit < piece.utf8ByteSize then .failed .nameTooLong
      else
        match d.lookup? (place ++ [piece]) with
        | none => if rest = [] then .missing (place ++ [piece]) else .failed .notFound
        | some (.link target) =>
          if rest = [] ∧ purpose = .self then .arrived (place ++ [piece]) else .link place target rest
        | some _ => leg d purpose (place ++ [piece]) rest
    | some _ => .failed .notDirectory

/-- The place that a path is taken from. -/
def origin (directory : Location) (path : String) : Location :=
  if Path.isAbsolute path then [] else directory

/-- Go along pieces, following a number of links at most. -/
def follow (d : Disk) (purpose : Purpose) (links : Nat) (place : Location) (pieces : List String) :
    Except OsError Destination :=
  match d.leg purpose place pieces with
  | .arrived place => .ok (.present place)
  | .missing place => .ok (.absent place)
  | .failed reason => .error reason
  | .link directory target rest =>
    match links with
    | 0 => .error .tooManyLinks
    | links + 1 => follow d purpose links (origin directory target) (Path.pieces target ++ rest)

/-- Where a path leads. -/
def resolve (d : Disk) (purpose : Purpose) (path : String) : Except OsError Destination :=
  if path.toList.contains '\x00' then .error .nulInPath
  else if path = "" then .error .notFound
  else if pathLimit ≤ path.utf8ByteSize then .error .nameTooLong
  else d.follow purpose linkLimit (origin d.here path) (Path.pieces path)

/-- The place of what a path leads to. -/
def locate (d : Disk) (path : String) : Except OsError Location :=
  match d.resolve .target path with
  | .ok (.present place) => .ok place
  | .ok (.absent _) => .error .notFound
  | .error reason => .error reason

/-- What a path leads to. -/
def entryOf? (d : Disk) (path : String) : Option Entry :=
  match d.locate path with
  | .ok place => d.lookup? place
  | .error _ => none

/-- Whether something stands at the end of a path, be it a link that leads nowhere. -/
def isThere (d : Disk) (path : String) : Bool :=
  match d.resolve .self path with
  | .ok (.present _) => true
  | _ => false

/-- Whether a path leads to a file. -/
def isFile (d : Disk) (path : String) : Bool :=
  match d.entryOf? path with
  | some (.file _) => true
  | _ => false

/-- Whether a path leads to a directory. -/
def isDirectory (d : Disk) (path : String) : Bool :=
  match d.entryOf? path with
  | some .directory => true
  | _ => false

end Disk

end Amend
