/-!
# Bracketed listings

Lists appear in messages as `[a, b, c]`: the items' texts joined by a comma and a space,
inside square brackets, and `[]` when empty.
-/

namespace Rebalance.Text

/-- The texts inside square brackets, separated by `", "`. -/
def listing (items : List String) : String :=
  "[" ++ ", ".intercalate items ++ "]"

/-- A list of numbers as a bracketed listing of their decimal texts. -/
def natListing (ns : List Nat) : String := listing (ns.map toString)

end Rebalance.Text
