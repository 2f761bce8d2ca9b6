import Amend.Toml.Quotation
import Amend.Toml.Scalar

/-!
# TOML documents

A document is a sequence of lines: blank ones, comments, headers of tables, and keys with
their values.  `parse?` gives the entries of a document, or nothing when the text is not one.
Arrays and tables in braces may be nested up to a limit.
-/

namespace Amend.Toml

/-- Leave out the blanks at the front of a line. -/
def skipBlanks (cs : List Char) : List Char := cs.dropWhile fun c => c == ' ' || c == '\t'

mutual

/-- Leave out blanks, line ends and comments; nothing when a comment is broken. -/
def skipTrivia : List Char → Option (List Char)
  | ' ' :: rest => skipTrivia rest
  | '\t' :: rest => skipTrivia rest
  | '\n' :: rest => skipTrivia rest
  | '\r' :: '\n' :: rest => skipTrivia rest
  | '#' :: rest => skipComment rest
  | rest => some rest

/-- Leave out the rest of a comment and what `skipTrivia` leaves out after it. -/
def skipComment : List Char → Option (List Char)
  | [] => some []
  | '\n' :: rest => skipTrivia rest
  | '\r' :: '\n' :: rest => skipTrivia rest
  | c :: rest => if isControl c then none else skipComment rest

end

/-- What comes after the end of a line, where only blanks and a comment may still stand. -/
def endLine? (cs : List Char) : Option (List Char) :=
  match skipBlanks cs with
  | [] => some []
  | '#' :: rest =>
    let after := rest.dropWhile fun c => !isControl c
    if after = [] then some [] else newline? after
  | rest => newline? rest

/-- Whether a character may stand in a key without quotes. -/
def isBareKeyChar (c : Char) : Bool := c.isAlphanum || c == '_' || c == '-'

/-- Read one key. -/
def readKey : List Char → Option (String × List Char)
  | '"' :: rest => (readBasic rest).map fun (cs, rest) => (String.ofList cs, rest)
  | '\'' :: rest => (readLiteral rest).map fun (cs, rest) => (String.ofList cs, rest)
  | cs =>
    let name := cs.takeWhile isBareKeyChar
    if name.isEmpty then none else some (String.ofList name, cs.dropWhile isBareKeyChar)

/-- Read a key with dots: the keys before the last one, the last one, and what follows after
blanks. -/
def readDottedKey : (fuel : Nat) → List Char → Option (List String × String × List Char)
  | 0, _ => none
  | fuel + 1, cs => do
    let (key, rest) ← readKey (skipBlanks cs)
    match skipBlanks rest with
    | '.' :: rest =>
      let (path, last, rest) ← readDottedKey fuel rest
      return (key :: path, last, rest)
    | rest => return ([], key, rest)

mutual

/-- Read a value, arrays and tables in it being nested at most `depth` deep. -/
def readValue : (fuel depth : Nat) → List Char → Option (Value × List Char)
  | 0, _, _ => none
  | fuel + 1, depth, cs =>
    match cs with
    | '"' :: '"' :: '"' :: rest =>
      (readLines '"' true (skipFirstNewline rest)).map fun (cs, rest) => (.string (String.ofList cs), rest)
    | '\'' :: '\'' :: '\'' :: rest =>
      (readLines '\'' false (skipFirstNewline rest)).map fun (cs, rest) => (.string (String.ofList cs), rest)
    | '"' :: rest => (readBasic rest).map fun (cs, rest) => (.string (String.ofList cs), rest)
    | '\'' :: rest => (readLiteral rest).map fun (cs, rest) => (.string (String.ofList cs), rest)
    | '[' :: rest =>
      match depth with
      | 0 => none
      | depth + 1 => (readItems fuel depth rest).map fun (items, rest) => (.array items, rest)
    | '\x7b' :: rest =>
      match depth with
      | 0 => none
      | depth + 1 => (readPairs fuel depth [] rest).map fun (entries, rest) => (.table .inline entries, rest)
    | cs => takeBare cs

/-- Read the items of an array up to its closing bracket. -/
def readItems : (fuel depth : Nat) → List Char → Option (List Value × List Char)
  | 0, _, _ => none
  | fuel + 1, depth, cs => do
    match ← skipTrivia cs with
    | ']' :: rest => return ([], rest)
    | cs =>
      let (v, rest) ← readValue fuel depth cs
      match ← skipTrivia rest with
      | ']' :: rest => return ([v], rest)
      | ',' :: rest =>
        let (items, rest) ← readItems fuel depth rest
        return (v :: items, rest)
      | _ => none

/-- Read the entries of a table in braces up to its closing brace, after those read already. -/
def readPairs : (fuel depth : Nat) → Entries → List Char → Option (Entries × List Char)
  | 0, _, _, _ => none
  | fuel + 1, depth, entries, cs => do
    match ← skipTrivia cs with
    | '\x7d' :: rest => return (entries, rest)
    | cs =>
      let (path, key, rest) ← readDottedKey fuel cs
      match rest with
      | '=' :: rest =>
        let (v, rest) ← readValue fuel depth (skipBlanks rest)
        let entries ← entries.addDotted? path key v
        match ← skipTrivia rest with
        | '\x7d' :: rest => return (entries, rest)
        | ',' :: rest => readPairs fuel depth entries rest
        | _ => none
      | _ => none

end

/-- How deep arrays and tables in braces may be nested. -/
def nestingLimit : Nat := 80

/-- Read the lines of a document into `root`; keys go to the table at the end of `opened`. -/
def readStatements : (fuel : Nat) → (opened : List String) → (root : Entries) → List Char → Option Entries
  | 0, _, _, _ => none
  | fuel + 1, opened, root, cs => do
    match ← skipTrivia cs with
    | [] => return root
    | '[' :: '[' :: rest =>
      let (path, key, rest) ← readDottedKey fuel rest
      match rest with
      | ']' :: ']' :: rest =>
        let root ← root.openNext? path key
        readStatements fuel (path ++ [key]) root (← endLine? rest)
      | _ => none
    | '[' :: rest =>
      let (path, key, rest) ← readDottedKey fuel rest
      match rest with
      | ']' :: rest =>
        let root ← root.openTable? path key
        readStatements fuel (path ++ [key]) root (← endLine? rest)
      | _ => none
    | cs =>
      let (path, key, rest) ← readDottedKey fuel cs
      match rest with
      | '=' :: rest =>
        let (v, rest) ← readValue fuel nestingLimit (skipBlanks rest)
        let root ← root.atOpened? opened (·.addDotted? path key v)
        readStatements fuel opened root (← endLine? rest)
      | _ => none

/-- The entries of a document.  A byte order mark in front is passed over. -/
def parse? (text : String) : Option Entries :=
  let cs := match text.toList with
    | '\ufeff' :: rest => rest
    | cs => cs
  readStatements (2 * cs.length + 2) [] [] cs

end Amend.Toml
