import Amend.Glob.Match
import Amend.Text.Caseless
import Amend.Tree.Node

/-!
# Names in rules

Tests that rules share: a name against a name or a wildcard pattern, the name that a node
spells out, and a variable with a given spelling.
-/

namespace Amend

/-- Whether a text holds one of the characters that make it a wildcard pattern. -/
def isWild (s : String) : Bool := s.toList.any fun c => c == '*' || c == '?' || c == '['

/-- Whether a name matches a name or, if it has wildcards, a pattern, letter case aside.  A
text that should be a pattern and is none matches nothing. -/
def matchesName (actual pattern : String) : Bool :=
  if isWild pattern then
    match Glob.Pattern.ofString pattern with
    | .ok p => p.fits .folded actual
    | .error _ => false
  else Text.sameFolded actual pattern

namespace Node

/-- The text of a node of one of the kinds; an empty one is no name. -/
def staticName (n : Node) (kinds : List Kind) : Option String :=
  if n.kind ∈ kinds ∧ n.text ≠ "" then some n.text else none

/-- Whether a node of the kind for variables has the given spelling, blanks aside. -/
def isVariable (n : Node) (kind : Kind) (spelling : String) : Bool :=
  n.kind == kind && n.text == spelling

end Node

end Amend
