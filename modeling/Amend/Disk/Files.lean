import Amend.Disk.Resolve

/-!
# Reading and writing files

Every operation that writes takes a disk and gives the disk afterwards.
-/

namespace Amend.Disk

/-- The text of a file. -/
def read (d : Disk) (path : String) : Except OsError String :=
  match d.locate path with
  | .error reason => .error reason
  | .ok place =>
    match d.lookup? place with
    | some (.file (.text s)) => .ok s
    | some (.file (.bytes _)) => .error .notText
    | some (.device _) => .ok ""
    | some .directory => .error .isDirectory
    | some (.link _) | none => .error .notFound

/-- Open the end of a path for writing: an existing file is emptied, a missing one made. -/
def openAt (d : Disk) : Destination → Except OsError (Location × Disk)
  | .absent place => .ok (place, d.put place (.file (.text "")))
  | .present place =>
    match d.lookup? place with
    | some (.file _) => .ok (place, d.put place (.file (.text "")))
    | some (.device _) => .ok (place, d)
    | _ => .error .isDirectory

/-- Open a path for writing. -/
def create (d : Disk) (path : String) : Except OsError (Location × Disk) :=
  match d.resolve .newFile path with
  | .error reason => .error reason
  | .ok destination => d.openAt destination

/-- Write a text to a place that has been opened. -/
def fill (d : Disk) (place : Location) (s : String) : Except OsError Disk :=
  match d.lookup? place with
  | some (.device .null) => .ok d
  | some (.device .full) => if s = "" then .ok d else .error .noSpace
  | _ => .ok (d.put place (.file (.text s)))

/-- Write a text to a file. -/
def write (d : Disk) (path : String) (s : String) : Except OsError Disk :=
  match d.create path with
  | .error reason => .error reason
  | .ok (place, d) => d.fill place s

/-- Make one directory in a directory that is there. -/
def makeDirectory (d : Disk) (path : String) : Except OsError Disk :=
  match d.resolve .self path with
  | .error reason => .error reason
  | .ok (.present _) => .error .alreadyThere
  | .ok (.absent place) => .ok (d.put place .directory)

/-- Make a directory, given with the directories above it, nearest first, of which those that
are missing are made before it.  What has been made stays when a later one cannot be made. -/
def makeFrom (d : Disk) : List String → Disk × Except OsError Unit
  | [] => (d, .ok ())
  | path :: above =>
    if path = "" then (d, .ok ())
    else
      match d.makeDirectory path with
      | .ok d => (d, .ok ())
      | .error .notFound =>
        match makeFrom d above with
        | (d, .error reason) => (d, .error reason)
        | (d, .ok ()) =>
          match d.makeDirectory path with
          | .ok d => (d, .ok ())
          | .error reason => if d.isDirectory path then (d, .ok ()) else (d, .error reason)
      | .error reason => if d.isDirectory path then (d, .ok ()) else (d, .error reason)

/-- Make a directory and all that are missing above it. -/
def makeDirectories (d : Disk) (path : String) : Disk × Except OsError Unit :=
  d.makeFrom (Path.ancestors (path.length + 1) path)

/-- The disk with a file at an absolute path, in directories that are made if they are
missing. -/
def withFile (d : Disk) (path : String) (content : Content) : Disk :=
  let d := ((Path.parent? path).map fun parent => (d.makeDirectories parent).1).getD d
  match d.resolve .newFile path with
  | .ok (.present place) | .ok (.absent place) => d.put place (.file content)
  | .error _ => d

/-- What has to be put on one disk so that it holds what another one does. -/
def changes (before after : Disk) : List (Location × Entry) :=
  after.entries.filter fun (place, entry) => before.lookup? place ≠ some entry

end Amend.Disk
