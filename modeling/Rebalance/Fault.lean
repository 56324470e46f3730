/-!
# Counter widths and the overflow fault

Node ids, partitions and attempts are 32-bit counters and clock entries are 64-bit counters.
Counting past the largest value is not wrapped: it stops the computation with a fault, which is
kept apart from the domain's errors because nothing recovers from it.
-/

namespace Rebalance

/-- The largest 32-bit counter. -/
def maxU32 : Nat := 4294967295

/-- The largest 64-bit counter. -/
def maxU64 : Nat := 18446744073709551615

/-- A computation that cannot go on: a counter was stepped past its largest value. -/
inductive Fault where
  | overflow
deriving DecidableEq, Repr

namespace Fault

/-- The text reported for a fault. -/
def message : Fault → String
  | overflow => "attempt to add with overflow"

end Fault

/-- `n + 1` for a counter whose largest value is `limit`, or the overflow fault. -/
def bump (limit n : Nat) : Except Fault Nat :=
  if n < limit then .ok (n + 1) else .error .overflow

theorem bump_eq_ok {limit n : Nat} (h : n < limit) : bump limit n = .ok (n + 1) := by
  simp [bump, h]

theorem bump_eq_error {limit n : Nat} (h : limit ≤ n) : bump limit n = .error .overflow := by
  simp [bump, Nat.not_lt.2 h]

end Rebalance
