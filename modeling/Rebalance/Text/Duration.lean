/-!
# Durations as text

A duration in nanoseconds is written in the largest unit that it reaches among seconds,
milliseconds, microseconds and nanoseconds (`s`, `ms`, `µs`, `ns`), with the exact fraction of
that unit after a point, trailing zeros dropped, and no point when the fraction is zero:
`1.5s`, `2.000001ms`, `999ns`, `0ns`.
-/

namespace Rebalance.Text

/-- `whole` and the fraction `frac / 10^width` of a unit, then the unit. -/
def unitText (whole frac width : Nat) (unit : String) : String :=
  if frac = 0 then toString whole ++ unit
  else
    let digits := toString frac
    let padded := List.replicate (width - digits.length) '0' ++ digits.toList
    let trimmed := (padded.reverse.dropWhile (· == '0')).reverse
    toString whole ++ "." ++ String.ofList trimmed ++ unit

/-- The text of a duration given in nanoseconds. -/
def durationText (nanos : Nat) : String :=
  let secs := nanos / 1000000000
  let sub := nanos % 1000000000
  if secs > 0 then unitText secs sub 9 "s"
  else if sub ≥ 1000000 then unitText (sub / 1000000) (sub % 1000000) 6 "ms"
  else if sub ≥ 1000 then unitText (sub / 1000) (sub % 1000) 3 "µs"
  else unitText sub 0 0 "ns"

end Rebalance.Text
