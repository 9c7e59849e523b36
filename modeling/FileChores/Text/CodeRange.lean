/-!
# Sets of code points given by ranges

A property of characters is stored as its ranges of code points, both ends included, in
ascending order, so that a search ends at the first range that lies above the character.
-/

namespace FileChores.Text.CodeRange

/-- Membership in an ascending list of ranges. -/
def covers : List (Nat × Nat) → Nat → Bool
  | [], _ => false
  | (low, high) :: rest, code =>
      if code < low then false else code ≤ high || covers rest code

end FileChores.Text.CodeRange
