/-!
# Byte offsets in a text

Positions in a source text count the bytes of its UTF-8 form.  `splitBytes` cuts a list
of characters after a number of bytes, which fails inside a character and past the end;
`slice` is the stretch between two offsets, empty when the offsets do not delimit one.
A `Place` is an offset told as a line and a column.
-/

namespace Amend.Text

/-- The number of bytes of a list of characters. -/
def byteLength : List Char → Nat
  | [] => 0
  | c :: cs => c.utf8Size + byteLength cs

@[simp]
theorem byteLength_append (cs ds : List Char) :
  byteLength (cs ++ ds) = byteLength cs + byteLength ds
  := by
  induction cs with
  | nil => simp [byteLength]
  | cons c cs ih => simp [byteLength, ih, Nat.add_assoc]

/-- Cut after `n` bytes; `none` when the cut would fall inside a character or past the end. -/
def splitBytes : Nat → List Char → Option (List Char × List Char)
  | 0, cs => some ([], cs)
  | _ + 1, [] => none
  | n + 1, c :: cs =>
    if c.utf8Size ≤ n + 1 then
      (splitBytes (n + 1 - c.utf8Size) cs).map fun (front, rest) => (c :: front, rest)
    else none

/-- The characters from byte `start` up to byte `stop`; nothing unless both offsets lie
between characters of the text and `start` comes first. -/
def sliceChars (cs : List Char) (start stop : Nat) : List Char :=
  if start < stop then
    match splitBytes start cs with
    | none => []
    | some (_, rest) => ((splitBytes (stop - start) rest).map Prod.fst).getD []
  else []

/-- The text from byte `start` up to byte `stop`. -/
def slice (text : String) (start stop : Nat) : String :=
  String.ofList (sliceChars text.toList start stop)

/-- A position as people count it from zero: the line, and the bytes since its start. -/
structure Place where
  row : Nat
  column : Nat
deriving DecidableEq, Repr

/-- Move past the characters whose bytes begin before offset `n`, from a given place. -/
def advance : Nat → Place → List Char → Place
  | 0, p, _ => p
  | _ + 1, p, [] => p
  | n + 1, p, c :: cs =>
    let next : Place := if c = '\n' then ⟨p.row + 1, 0⟩ else ⟨p.row, p.column + min c.utf8Size (n + 1)⟩
    advance (n + 1 - c.utf8Size) next cs

/-- The place of a byte offset in a text. -/
def placeOf (text : String) (offset : Nat) : Place := advance offset ⟨0, 0⟩ text.toList

end Amend.Text
