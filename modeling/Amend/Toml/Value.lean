/-!
# TOML values

The values of a TOML document, and the tables that statements of a document build up.  How
a table came to be decides what later statements may still add to it: a table written in
braces is closed; one that has had its own header takes no second one; one made by a dotted
key is extended by dotted keys only.
-/

namespace Amend.Toml

/-- How a table came to be. -/
inductive Form where
  /-- By a header of its own. -/
  | header
  /-- On the way to a table with a header of its own. -/
  | passing
  /-- On the way to a dotted key. -/
  | dotted
  /-- In braces. -/
  | inline
deriving DecidableEq, Repr

/-- A value of a document.  Times are recognised, but what they say is not kept; of a float
it is kept whether it exceeds all doubles. -/
inductive Value where
  | string (s : String)
  | integer (n : Int)
  | float (overflows : Bool)
  | boolean (b : Bool)
  | time
  | array (items : List Value)
  /-- An array that grows by headers in double brackets. -/
  | tables (items : List Value)
  | table (form : Form) (entries : List (String × Value))

/-- The entries of a table, in the order in which they were made. -/
abbrev Entries := List (String × Value)

namespace Entries

/-- Add an entry under a new key. -/
def add? (entries : Entries) (key : String) (v : Value) : Option Entries :=
  match entries.lookup key with
  | none => some (entries ++ [(key, v)])
  | some _ => none

/-- Change the value under a key, or make one where there is none. -/
def alter (key : String) (f : Option Value → Option Value) : Entries → Option Entries
  | [] => (f none).map fun v => [(key, v)]
  | (k, v) :: rest =>
    if k = key then (f (some v)).map fun v => (k, v) :: rest
    else (alter key f rest).map ((k, v) :: ·)

/-- Change the entries of the table that a path leads to.  Tables that are missing on the
way are made with the form `made`; `passable` tells through which tables the path may lead. -/
def descend (made : Form) (passable : Form → Bool) (f : Entries → Option Entries) :
    List String → Entries → Option Entries
  | [], entries => f entries
  | key :: path, entries =>
    let inside : Value → Option Value
      | .table form inner =>
        if passable form then (descend made passable f path inner).map (.table form) else none
      | _ => none
    entries.alter key fun
      | none => (descend made passable f path []).map (.table made)
      | some (.tables items) =>
        match items.getLast? with
        | none => none
        | some last => (inside last).map fun new => .tables (items.dropLast ++ [new])
      | some v => inside v

/-- Add an entry under a dotted key, told as the keys before the last one and the last one. -/
def addDotted? (entries : Entries) (path : List String) (key : String) (v : Value) : Option Entries :=
  entries.descend .dotted (fun form => form = .passing ∨ form = .dotted) (·.add? key v) path

/-- Open the table of a header. -/
def openTable? (entries : Entries) (path : List String) (key : String) : Option Entries :=
  entries.descend .passing (· ≠ .inline)
    (·.alter key fun
      | none => some (.table .header [])
      | some (.table .passing inner) => some (.table .header inner)
      | some _ => none) path

/-- Open the next table of an array of tables. -/
def openNext? (entries : Entries) (path : List String) (key : String) : Option Entries :=
  entries.descend .passing (· ≠ .inline)
    (·.alter key fun
      | none => some (.tables [.table .header []])
      | some (.tables items) => some (.tables (items ++ [.table .header []]))
      | some _ => none) path

/-- Change the entries of the table that was opened last, at the end of a path. -/
def atOpened? (entries : Entries) (path : List String) (f : Entries → Option Entries) : Option Entries :=
  entries.descend .passing (· ≠ .inline) f path

end Entries

end Amend.Toml
