/-!
# Machine words

Numbers that are counted or configured are machine words of sixty-four bits.
-/

namespace Amend

/-- The least number that a machine word does not hold, two to the power of sixty-four. -/
def wordLimit : Nat := 18446744073709551616

/-- What a machine word keeps of a number. -/
def wrapped (n : Nat) : Nat := n % wordLimit

end Amend
