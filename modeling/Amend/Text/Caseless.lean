/-!
# Texts up to letter case

Names are compared without regard to the case of the letters `A` to `Z`; every other
character stands for itself.  `fold` picks one spelling for all spellings of a name.
-/

namespace Amend.Text

/-- The text with the letters `A` to `Z` replaced by `a` to `z`. -/
def fold (s : String) : String := s.map Char.toLower

/-- Whether two texts differ in the case of the letters `A` to `Z` only. -/
def sameFolded (a b : String) : Bool := fold a == fold b

/-- Two texts differ in letter case only when they are one in small letters. -/
@[simp]
theorem sameFolded_iff {a b : String} :
  sameFolded a b = true ↔ fold a = fold b
  := by
  simp [sameFolded]

end Amend.Text
