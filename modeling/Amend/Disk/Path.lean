import Amend.Text.Cut

/-!
# Paths

A path is a text that slashes cut into pieces.  A piece that is empty or `.` is idle: it
leads nowhere, and only a `.` at the very start of a path is kept as part of it.

* `Path.parts` are the pieces that count, and paths with the same parts are the same.
* `Path.parent?` drops the last part, and keeps the text in front of it as it is written.
-/

namespace Amend.Path

/-- The pieces of a path between its slashes. -/
def pieces (path : String) : List String := Text.splitOn '/' path

/-- Whether a piece leads nowhere. -/
def isIdle (piece : String) : Bool := piece == "" || piece == "."

def isAbsolute (path : String) : Bool := path.toList.head? == some '/'

/-- What a path sets out from: the root, the current directory by name, or whatever
directory it is taken from. -/
inductive Start where
  | root
  | here
  | anywhere
deriving DecidableEq, Repr

/-- What a path sets out from, and the pieces after that. -/
def split (path : String) : Start × List String :=
  match pieces path with
  | "" :: rest => if path = "" then (.anywhere, []) else (.root, rest)
  | "." :: rest => (.here, rest)
  | ps => (.anywhere, ps)

/-- The parts of a path. -/
def parts (path : String) : List String :=
  match split path with
  | (.root, ps) => "/" :: ps.filter (!isIdle ·)
  | (.here, ps) => "." :: ps.filter (!isIdle ·)
  | (.anywhere, ps) => ps.filter (!isIdle ·)

/-- The pieces up to the last one that is not idle. -/
def upToLast (ps : List String) : List String := (ps.reverse.dropWhile isIdle).reverse

/-- The text of a path. -/
def ofPieces : Start → List String → String
  | .root, ps => "/" ++ String.intercalate "/" ps
  | .here, ps => String.intercalate "/" ("." :: ps)
  | .anywhere, ps => String.intercalate "/" ps

/-- The path without its last part; none for the root and for the empty path. -/
def parent? (path : String) : Option String :=
  let (start, ps) := split path
  match start, upToLast ps with
  | .here, [] => some ""
  | _, [] => none
  | start, ps => some (ofPieces start (upToLast ps.dropLast))

/-- A path, its parent, its parent's parent and so on, nearest first and at most `limit` of
them. -/
def ancestors : Nat → String → List String
  | 0, _ => []
  | limit + 1, path =>
    path :: match parent? path with
      | none => []
      | some parent => ancestors limit parent

/-- The path that leads on from a directory; an absolute path leads from the root. -/
def join (directory path : String) : String :=
  if isAbsolute path then path
  else if directory = "" ∨ directory.toList.getLast? = some '/' then directory ++ path
  else directory ++ "/" ++ path

/-- Whether two texts are the same path. -/
def same (p q : String) : Bool := parts p == parts q

end Amend.Path
