import Rebalance.Binary64
/-!
# Fixed decimal places

A binary64 number written with a fixed number of decimal places: its exact value is rounded to
the nearest multiple of `10^-places`, an exact half going to the even last digit.
-/

namespace Rebalance.Decimal

/-- `num / den` rounded to the nearest integer, an exact half to the even one. -/
def roundHalfEven (num den : Nat) : Nat :=
  let q := num / den
  let r := num % den
  if 2 * r > den ∨ (2 * r = den ∧ q % 2 = 1) then q + 1 else q

/-- The number with `places` digits after the point. -/
def fixed (places : Nat) (x : Binary64) : String :=
  let scaled :=
    if 0 ≤ x.exponent then x.mantissa * Nat.pow 2 x.exponent.toNat * Nat.pow 10 places
    else roundHalfEven (x.mantissa * Nat.pow 10 places) (Nat.pow 2 (-x.exponent).toNat)
  let digits := toString scaled
  let digits := String.ofList (List.replicate (places + 1 - digits.length) '0') ++ digits
  let cut := digits.length - places
  let whole := String.ofList (digits.toList.take cut)
  let frac := String.ofList (digits.toList.drop cut)
  (if x.negative then "-" else "") ++ whole ++ (if places = 0 then "" else "." ++ frac)

end Rebalance.Decimal
