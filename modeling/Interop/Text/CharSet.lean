/-!
# Character sets as alternating runs

A set of code points is written as the lengths of alternating runs, the first run being outside the
set: `[3, 2, 5, 1]` holds the code points 3, 4 and 10. Tables of character properties use this form,
since it lists each boundary once and cannot be out of order.
-/

namespace Interop.Text

/-- Membership in a set given by alternating runs. The flag says whether the first run is inside
the set; everything behind the last run is outside. -/
def inRuns : Bool → List Nat → Nat → Bool
  | _, [], _ => false
  | inside, run :: rest, n => if n < run then inside else inRuns (!inside) rest (n - run)

def memberOf (runs : List Nat) (c : Char) : Bool :=
  inRuns false runs c.toNat

end Interop.Text
