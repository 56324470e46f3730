/-!
# First occurrences

Removing repeats while keeping each element where it first appears: the order in which
stealers of a plan are met, and the stores of a movement.
-/

namespace Rebalance

/-- The first occurrence of each element, in the order of the list. -/
def firstOccurrences {α : Type} [BEq α] (l : List α) : List α := go [] l
where
  /-- Walks the list, remembering what was kept. -/
  go (seen : List α) : List α → List α
    | [] => []
    | a :: rest => if seen.contains a then go seen rest else a :: go (a :: seen) rest

end Rebalance
