import Amend.Glob.Pattern

/-!
# Matching wildcard patterns

`Pattern.fits` tells whether a pattern matches a whole text.  A star is tried on ever
longer parts of the text; when the text runs out before the pattern does, no longer part
can help, and the search ends at once.
-/

namespace Amend.Glob

/-- Whether the case of the letters `A` to `Z` counts. -/
inductive Case where
  | exact
  | folded
deriving DecidableEq, Repr

/-- Whether a character of the text is taken for a character of the pattern.  Folding
concerns the letters `A` to `Z` alone. -/
def Case.agree : Case → Char → Char → Bool
  | exact, a, b => a == b
  | folded, a, b => a.toLower == b.toLower

/-- Whether a character is an ASCII letter. -/
def isLetter (c : Char) : Bool := c.toLower != c.toUpper

/-- Whether a character is in one part of a set.  Under folding a span from letter to letter
is taken for small letters too. -/
def Range.has (mode : Case) (c : Char) : Range → Bool
  | single d => mode.agree c d
  | span first last =>
    (mode == .folded && c.toNat < 128 && isLetter first && isLetter last
      && first.toLower ≤ c.toLower && c.toLower ≤ last.toLower)
    || (first ≤ c && c ≤ last)

/-- Whether a step for one character takes a character of the text. -/
def Step.takes (mode : Case) (c : Char) : Step → Bool
  | char d => mode.agree c d
  | any => true
  | within set => set.any (Range.has mode c)
  | except set => !set.any (Range.has mode c)
  | many => false
  | segments => false

/-- What a search for a match comes to. -/
inductive Fit where
  /-- The steps match the text. -/
  | full
  /-- They do not. -/
  | none
  /-- They do not, and the text is too short: no final part of it matches either. -/
  | short
deriving DecidableEq, Repr

/-- Match steps with all of a text. -/
def fit (mode : Case) : List Step → List Char → Fit
  | [], [] => .full
  | [], _ :: _ => .none
  | .many :: steps, cs => tryMany mode steps cs
  | .segments :: steps, cs => trySegments mode steps cs
  | _ :: _, [] => .short
  | step :: steps, c :: cs => if step.takes mode c then fit mode steps cs else .none
termination_by steps cs => (steps.length, cs.length, 0)
where
  /-- Match steps with a final part of a text. -/
  tryMany (mode : Case) (steps : List Step) : List Char → Fit
    | [] => fit mode steps []
    | c :: cs =>
      match fit mode steps (c :: cs) with
      | .none => tryMany mode steps cs
      | found => found
  termination_by cs => (steps.length, cs.length, 1)
  /-- Match steps with a final part of a text that begins a segment or is empty. -/
  trySegments (mode : Case) (steps : List Step) (cs : List Char) : Fit :=
    match fit mode steps cs with
    | .none => skipSegment mode steps cs
    | found => found
  termination_by (steps.length, cs.length, 2)
  /-- Leave the text up to the end of a segment, then go on with `trySegments`. -/
  skipSegment (mode : Case) (steps : List Step) : List Char → Fit
    | [] => fit mode steps []
    | c :: cs => if c = '/' then trySegments mode steps cs else skipSegment mode steps cs
  termination_by cs => (steps.length, cs.length, 1)

/-- Whether the pattern matches a whole text. -/
def Pattern.fits (p : Pattern) (mode : Case) (s : String) : Bool := fit mode p.steps s.toList == .full

end Amend.Glob
