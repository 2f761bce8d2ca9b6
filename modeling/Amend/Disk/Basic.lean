import Amend.Disk.OsError

/-!
# The disk

A `Disk` is what the program sees of the file system: which file, directory or link stands
at which place, and the directory that relative paths are taken from.  A place is the list of
the names that lead to it from the root, and the root itself is always a directory.
-/

namespace Amend

/-- A place on the disk: the names on the way to it from the root. -/
abbrev Location := List String

/-- The path of a place. -/
def Location.path (l : Location) : String := "/" ++ String.intercalate "/" l

/-- What a file holds: a text, or bytes that are the UTF-8 form of none. -/
inductive Content where
  | text (s : String)
  | bytes (bs : List UInt8)
deriving DecidableEq, Repr

/-- The devices that can be written to. -/
inductive Device where
  /-- Takes everything and keeps nothing. -/
  | null
  /-- Has no space left. -/
  | full
deriving DecidableEq, Repr

/-- What stands at a place. -/
inductive Entry where
  | directory
  | file (content : Content)
  | link (target : String)
  | device (device : Device)
deriving DecidableEq, Repr

structure Disk where
  /-- The places where something stands, the root excepted. -/
  entries : List (Location × Entry) := []
  /-- The directory that relative paths are taken from. -/
  here : Location := []
deriving DecidableEq, Repr

/-- An association list with the value of one key replaced, or the key added at the end. -/
def putEntry (l : Location) (e : Entry) : List (Location × Entry) → List (Location × Entry)
  | [] => [(l, e)]
  | (k, v) :: rest => if k = l then (k, e) :: rest else (k, v) :: putEntry l e rest

/-- What is put at a location is found there, and elsewhere what was there. -/
theorem lookup_putEntry (l k : Location) (e : Entry) (es : List (Location × Entry)) :
  (putEntry l e es).lookup k = if k = l then some e else es.lookup k
  := by
  induction es with
  | nil =>
    by_cases h : k = l
    · simp [putEntry, h]
    · simp [putEntry, List.lookup_cons, h, beq_eq_false_iff_ne.2 h]
  | cons entry rest ih =>
    obtain ⟨m, v⟩ := entry
    by_cases hm : m = l
    · subst hm
      by_cases h : k = m
      · simp [putEntry, h]
      · simp [putEntry, List.lookup_cons, h, beq_eq_false_iff_ne.2 h]
    · by_cases h : k = m
      · subst h
        simp [putEntry, hm]
      · simp [putEntry, hm, List.lookup_cons, beq_eq_false_iff_ne.2 h, ih]

namespace Disk

/-- A disk with nothing on it but the devices. -/
def bare : Disk where
  entries := [(["dev"], .directory), (["dev", "null"], .device .null), (["dev", "full"], .device .full)]

/-- What stands at a place. -/
def lookup? (d : Disk) (l : Location) : Option Entry :=
  if l = [] then some .directory else d.entries.lookup l

/-- The disk with an entry put at a place. -/
def put (d : Disk) (l : Location) (e : Entry) : Disk := { d with entries := putEntry l e d.entries }

/-- The disk without a place and all that is below it. -/
def erase (d : Disk) (l : Location) : Disk :=
  { d with entries := d.entries.filter fun (k, _) => !l.isPrefixOf k }

/-- An entry that is put on the disk is found at its location, and the other locations keep theirs.
-/
theorem lookup?_put (d : Disk) {l : Location} (hl : l ≠ []) (k : Location) (e : Entry) :
  (d.put l e).lookup? k = if k = l then some e else d.lookup? k
  := by
  by_cases hk : k = []
  · subst hk
    simp [lookup?, hl.symm]
  · simp [lookup?, hk, put, lookup_putEntry]

/-- The names in a directory, in order. -/
def namesIn (d : Disk) (directory : Location) : List String :=
  let names := d.entries.filterMap fun (l, _) =>
    match l.getLast? with
    | some name => if l.dropLast = directory then some name else none
    | none => none
  names.mergeSort (decide <| · ≤ ·)

/-- The places below a directory at any depth, in order of their names. -/
def placesUnder (d : Disk) (directory : Location) : List Location :=
  let places := d.entries.filterMap fun (l, _) =>
    if directory.isPrefixOf l && directory != l then some l else none
  places.mergeSort fun a b => !b.lex a

end Disk

end Amend
