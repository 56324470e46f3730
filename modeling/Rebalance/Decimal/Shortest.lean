import Rebalance.Binary64
/-!
# Shortest decimal digits of a binary64 number

Every finite binary64 number `m · 2^e` stands for the interval of reals that round to it: half
way to each neighbour, the ends included when `m` is even. `shortest` finds the fewest decimal
digits whose value lies in that interval, so that reading the digits back gives the number
again; of two such values with that many digits it takes the nearer one, and of two equally
near the one whose last digit is even.

The search tries 1, 2, … 17 significant digits. With `n` digits the only candidates worth
testing are the two `n`-digit neighbours of the number: if any `n`-digit value lies in the
interval, so does one of them.

`Style` holds the decisions of one way of writing the digits: where positional notation stops
and whether an integral value keeps a `.0`.
-/

namespace Rebalance.Decimal

/-- The number of decimal digits of `n` (1 for 0). -/
def digitCount (n : Nat) : Nat :=
  if n < 10 then 1 else digitCount (n / 10) + 1
termination_by n
decreasing_by omega

/-- `x · 10^p10` against `y · 2^p2`, in exact integer arithmetic. -/
def compareScaled (x : Nat) (p10 : Int) (y : Nat) (p2 : Int) : Ordering :=
  compare (x * Nat.pow 10 p10.toNat * Nat.pow 2 (-p2).toNat) (y * Nat.pow 2 p2.toNat * Nat.pow 10 (-p10).toNat)

/-- `⌊log10 (m · 2^e)⌋` for `m > 0`. -/
def decimalExponent (m : Nat) (e : Int) : Int :=
  if 0 ≤ e then (digitCount (m * Nat.pow 2 e.toNat) : Int) - 1
  else (digitCount (m * Nat.pow 10 (-e).toNat / Nat.pow 2 (-e).toNat) : Int) - 1 - (-e)

/-- Drops trailing zero digits, raising the exponent for each. -/
def stripZeros (digits : Nat) (p : Int) (fuel : Nat) : Nat × Int :=
  match fuel with
  | 0 => (digits, p)
  | fuel + 1 =>
    if digits ≠ 0 ∧ digits % 10 = 0 then stripZeros (digits / 10) (p + 1) fuel else (digits, p)

/-- Tries `n` significant digits for the positive number `m · 2^e`: the `n`-digit value(s)
next to it that lie in its rounding interval, the nearer one if both do. -/
def tryDigits (m : Nat) (e : Int) (d : Int) (n : Nat) : Option (Nat × Int) :=
  let p := d - n + 1
  let num := m * Nat.pow 2 e.toNat * Nat.pow 10 (-p).toNat
  let den := Nat.pow 2 (-e).toNat * Nat.pow 10 p.toNat
  let lo := num / den
  let rem := num % den
  -- the interval, in units of `2^(e-2)`
  let low := 4 * m - (if m = Nat.pow 2 52 ∧ e > Binary64.minExponent then 1 else 2)
  let high := 4 * m + 2
  let inclusive := m % 2 = 0
  let inside (c : Nat) : Bool :=
    let aboveLow := match compareScaled c p low (e - 2) with
      | .gt => true
      | .eq => inclusive
      | .lt => false
    let belowHigh := match compareScaled c p high (e - 2) with
      | .lt => true
      | .eq => inclusive
      | .gt => false
    aboveLow && belowHigh
  let loIn := inside lo
  let hiIn := rem ≠ 0 && inside (lo + 1)
  if loIn && hiIn then
    if 2 * rem < den then some (lo, p)
    else if 2 * rem > den then some (lo + 1, p)
    else if lo % 2 = 0 then some (lo, p) else some (lo + 1, p)
  else if loIn then some (lo, p)
  else if hiIn then some (lo + 1, p)
  else none

/-- The shortest digits `(digits, p)` with `digits · 10^p` reading back as `m · 2^e`, for
`m > 0`; trailing zeros are removed. -/
def shortest (m : Nat) (e : Int) : Nat × Int :=
  let d := decimalExponent m e
  match (List.range 17).findSome? (fun i => tryDigits m e d (i + 1)) with
  | some (c, p) => stripZeros c p 20
  | none => (m, 0)

/-- How digits are laid out: positional while the decimal point falls after at most
`positionalMax` digits and more than `positionalMin` places before the first digit,
otherwise `d.ddde±x`. -/
structure Style where
  positionalMax : Int
  positionalMin : Int
  /-- An integral positional value is written with `.0`. -/
  pointZero : Bool
  /-- A positive exponent is written with `+`. -/
  plusExponent : Bool

/-- `count` zero characters. -/
def zeros (count : Nat) : String := String.ofList (List.replicate count '0')

/-- Writes `digits · 10^p` (no trailing zeros in `digits`) in the given style. -/
def layout (style : Style) (digits : Nat) (p : Int) : String :=
  let s := toString digits
  let len : Int := s.length
  let kk := len + p
  if 0 ≤ p ∧ kk ≤ style.positionalMax then
    s ++ zeros p.toNat ++ (if style.pointZero then ".0" else "")
  else if 0 < kk ∧ kk ≤ style.positionalMax then
    String.ofList (s.toList.take kk.toNat) ++ "." ++ String.ofList (s.toList.drop kk.toNat)
  else if style.positionalMin < kk ∧ kk ≤ 0 then
    "0." ++ zeros (-kk).toNat ++ s
  else
    let mantissa :=
      if len = 1 then s else String.ofList (s.toList.take 1) ++ "." ++ String.ofList (s.toList.drop 1)
    let exponent := kk - 1
    mantissa ++ "e" ++ (if style.plusExponent ∧ 0 < exponent then "+" else "") ++ toString exponent

/-- The shortest text of a binary64 number in the given style; zero is `0.0`, signed. -/
def render (style : Style) (x : Binary64) : String :=
  let sign := if x.negative then "-" else ""
  if x.mantissa = 0 then sign ++ "0.0"
  else
    let (c, p) := shortest x.mantissa x.exponent
    sign ++ layout style c p

end Rebalance.Decimal
