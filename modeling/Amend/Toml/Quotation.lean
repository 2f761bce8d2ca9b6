/-!
# Quoted TOML strings

Strings in double quotes, in which a backslash begins an escape, and in single quotes, in
which nothing does; each on one line, or with three quotes on many.
-/

namespace Amend.Toml

/-- Whether a character may not stand in a document except as a line end: a control character
that is not a tab. -/
def isControl (c : Char) : Bool := (c.toNat < 32 && c != '\t') || c.toNat == 127

/-- The value of hexadecimal digits. -/
def hexValue (cs : List Char) : Option Nat :=
  if cs.all fun c => c.isDigit || ('a' ≤ c.toLower && c.toLower ≤ 'f') then
    some (cs.foldl (fun n c => 16 * n + if c.isDigit then c.toNat - 48 else c.toLower.toNat - 87) 0)
  else none

/-- The character of a code point given in so many hexadecimal digits. -/
def codePoint (count : Nat) (cs : List Char) : Option (Char × Nat) :=
  if (cs.take count).length = count then
    (hexValue (cs.take count)).bind fun n =>
      if n.isValidChar then some (Char.ofNat n, count + 1) else none
  else none

/-- What an escape stands for, from the characters after the backslash, and how many of them
it takes. -/
def escape : List Char → Option (Char × Nat)
  | 'b' :: _ => some ('\x08', 1)
  | 't' :: _ => some ('\t', 1)
  | 'n' :: _ => some ('\n', 1)
  | 'f' :: _ => some ('\x0c', 1)
  | 'r' :: _ => some ('\r', 1)
  | 'e' :: _ => some ('\x1b', 1)
  | '"' :: _ => some ('"', 1)
  | '\\' :: _ => some ('\\', 1)
  | 'x' :: cs => codePoint 2 cs
  | 'u' :: cs => codePoint 4 cs
  | 'U' :: cs => codePoint 8 cs
  | _ => none

/-- Read up to the closing double quote of a string on one line. -/
def readBasic : List Char → Option (List Char × List Char)
  | [] => none
  | '"' :: rest => some ([], rest)
  | '\\' :: rest =>
    match escape rest with
    | none => none
    | some (c, used) => (readBasic (rest.drop used)).map fun (cs, rest) => (c :: cs, rest)
  | c :: rest =>
    if isControl c then none else (readBasic rest).map fun (cs, rest) => (c :: cs, rest)
termination_by cs => cs.length
decreasing_by all_goals (simp; try omega)

/-- Read up to the closing single quote of a string on one line. -/
def readLiteral : List Char → Option (List Char × List Char)
  | [] => none
  | '\'' :: rest => some ([], rest)
  | c :: rest =>
    if isControl c then none else (readLiteral rest).map fun (cs, rest) => (c :: cs, rest)

/-- Take a line end off the front. -/
def newline? : List Char → Option (List Char)
  | '\n' :: rest => some rest
  | '\r' :: '\n' :: rest => some rest
  | _ => none

/-- Leave out the line end at the start of a string on many lines. -/
def skipFirstNewline (cs : List Char) : List Char := (newline? cs).getD cs

/-- How many times a quote stands in front. -/
def countQuotes (quote : Char) (cs : List Char) : Nat := (cs.takeWhile (· == quote)).length

/-- What a backslash at a line end leaves out: the line end and all blanks after it, given the
number of characters.  Only blanks may stand between the backslash and the line end. -/
def lineContinuation? (cs : List Char) : Option Nat :=
  let after := cs.dropWhile fun c => c == ' ' || c == '\t'
  match newline? after with
  | none => none
  | some _ =>
    let kept := after.dropWhile fun c => c == ' ' || c == '\t' || c == '\n' || c == '\r'
    some (cs.length - kept.length)

/-- Read up to the closing quotes of a string on many lines.  Up to two quotes may stand
before the closing three. -/
def readLines (quote : Char) (escapes : Bool) : List Char → Option (List Char × List Char)
  | [] => none
  | c :: rest =>
    if c = quote then
      let count := countQuotes quote (c :: rest)
      if 3 ≤ count ∧ count ≤ 5 then
        some (List.replicate (count - 3) quote, rest.drop (count - 1))
      else if count < 3 then
        (readLines quote escapes rest).map fun (cs, rest) => (c :: cs, rest)
      else none
    else if c = '\\' ∧ escapes then
      match lineContinuation? rest with
      | some used => readLines quote escapes (rest.drop used)
      | none =>
        match escape rest with
        | none => none
        | some (e, used) => (readLines quote escapes (rest.drop used)).map fun (cs, rest) => (e :: cs, rest)
    else if c = '\r' then
      match rest with
      | '\n' :: rest => (readLines quote escapes rest).map fun (cs, rest) => ('\n' :: cs, rest)
      | _ => none
    else if c = '\n' ∨ ¬isControl c then
      (readLines quote escapes rest).map fun (cs, rest) => (c :: cs, rest)
    else none
termination_by cs => cs.length
decreasing_by all_goals (simp; try omega)

end Amend.Toml
