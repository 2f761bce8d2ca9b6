/-!
# Cutting texts at a character

The pieces of a text between separators, a text without its leading or closing part, and
a text without leading repetitions of one character.
-/

namespace Amend.Text

/-- The text without the repetitions of a character at its start. -/
def trimStart (c : Char) (s : String) : String := String.ofList (s.toList.dropWhile (· == c))

/-- The pieces of a text between the occurrences of a separator; one piece more than there
are separators. -/
def splitOn (separator : Char) (s : String) : List String :=
  (s.toList.splitOn separator).map String.ofList

/-- What follows `front` in a text that starts with it. -/
def afterFront? (front s : String) : Option String :=
  (front.toList.isPrefixOf? s.toList).map String.ofList

/-- What comes before `back` in a text that ends with it. -/
def beforeBack? (back s : String) : Option String :=
  (back.toList.reverse.isPrefixOf? s.toList.reverse).map fun rest => String.ofList rest.reverse

/-- The parts of a text before and after the first occurrence of a separator. -/
def splitFirst? (separator : Char) (s : String) : Option (String × String) :=
  match s.toList.dropWhile (· != separator) with
  | [] => none
  | _ :: rest => some (String.ofList (s.toList.takeWhile (· != separator)), String.ofList rest)

/-- The piece of a text after the last separator; all of it when there is none. -/
def lastPiece (separator : Char) (s : String) : String :=
  String.ofList (s.toList.reverse.takeWhile (· != separator)).reverse

/-- Whether a text occurs in another one. -/
def occursIn (needle : List Char) : List Char → Bool
  | [] => needle.isEmpty
  | c :: cs => needle.isPrefixOf (c :: cs) || occursIn needle cs

/-- A text occurs in another one when it is one of its infixes. -/
theorem occursIn_iff {needle hay : List Char} :
  occursIn needle hay = true ↔ needle <:+: hay
  := by
  induction hay with
  | nil => simp [occursIn]
  | cons c cs ih => rw [occursIn, Bool.or_eq_true, List.isPrefixOf_iff_prefix, ih, List.infix_cons_iff]

end Amend.Text
