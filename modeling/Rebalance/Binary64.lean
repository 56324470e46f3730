/-!
# Binary64 numbers, computed exactly

A finite binary64 number is `±mantissa · 2^exponent` with a 53-bit mantissa. Every operation
here computes the exact rational result and then rounds it once to the nearest representable
number, a tie going to the even mantissa, as the IEEE 754 default rounding does; a result whose
rounding reaches `2^1024` has no finite value and is reported as `none`.

Numbers are kept canonical: a mantissa below `2^53`, an exponent between `-1074` and `971`, and
a mantissa of at least `2^52` unless the exponent is `-1074` (the subnormal range). Zero is
mantissa 0 at exponent `-1074`.
-/

namespace Rebalance

/-- A finite binary64 number `(-1)^negative · mantissa · 2^exponent`. -/
structure Binary64 where
  negative : Bool
  mantissa : Nat
  exponent : Int
deriving DecidableEq, Repr

namespace Binary64

/-- The smallest exponent: subnormal numbers and zero use it. -/
def minExponent : Int := -1074

/-- The largest exponent of a finite number. -/
def maxExponent : Int := 971

/-- `2^k` for an integer `k ≥ 0`, and 1 below. -/
def pow2 (k : Int) : Nat := Nat.pow 2 k.toNat

/-- Rounds the positive rational `num / den · 2^shift` to the nearest canonical mantissa and
exponent (ties to even), or `none` when it rounds to `2^1024` or beyond. `den` must not be 0. -/
def roundScaled (num den : Nat) (shift : Int) : Option (Nat × Int) :=
  if num = 0 then some (0, minExponent)
  else
    -- `num / den` lies in `[2^k0, 2^(k0+1))` or in `[2^(k0-1), 2^k0)`
    let k0 : Int := (Nat.log2 num : Int) - (Nat.log2 den : Int)
    let atLeast := if 0 ≤ k0 then den * pow2 k0 ≤ num else den ≤ num * pow2 (-k0)
    let k := (if atLeast then k0 else k0 - 1) + shift
    let e := max (k - 52) minExponent
    let s := shift - e
    let n := num * pow2 s
    let d := den * pow2 (-s)
    let q := n / d
    let r := n % d
    let q := if 2 * r > d ∨ (2 * r = d ∧ q % 2 = 1) then q + 1 else q
    let (m, e) := if q = Nat.pow 2 53 then (Nat.pow 2 52, e + 1) else (q, e)
    if e > maxExponent then none else some (m, e)

/-- Zero with the given sign. -/
def zero (negative : Bool) : Binary64 := ⟨negative, 0, minExponent⟩

/-- Whether the number is zero (of either sign). -/
def isZero (x : Binary64) : Bool := x.mantissa == 0

/-- The same magnitude with the other sign. -/
def neg (x : Binary64) : Binary64 := { x with negative := !x.negative }

/-- The number nearest to `n`, or `none` when `n` rounds to `2^1024` or beyond. -/
def ofNat? (n : Nat) : Option Binary64 :=
  (roundScaled n 1 0).map fun (m, e) => ⟨false, m, e⟩

/-- The number nearest to a 64-bit count. Such counts never leave the finite range. -/
def ofNat (n : Nat) : Binary64 := (ofNat? n).getD (zero false)

/-- The nearest number to `10^k`. -/
def pow10 (k : Nat) : Binary64 := ofNat (Nat.pow 10 k)

/-- The rounded product, or `none` when it leaves the finite range. -/
def mul (x y : Binary64) : Option Binary64 :=
  (roundScaled (x.mantissa * y.mantissa) 1 (x.exponent + y.exponent)).map
    fun (m, e) => ⟨x.negative != y.negative, m, e⟩

/-- The rounded quotient `x / y` for `y ≥ 1`, which never leaves the finite range; a zero
divisor gives zero. -/
def div (x y : Binary64) : Binary64 :=
  if y.mantissa = 0 then zero false
  else
    match roundScaled x.mantissa y.mantissa (x.exponent - y.exponent) with
    | some (m, e) => ⟨x.negative != y.negative, m, e⟩
    | none => zero false

/-- `f · 10^exponent` the quick way: one rounded product or quotient with the number nearest
to `10^|exponent|` while `|exponent| ≤ 308`; beyond that a positive exponent overflows (unless
`f` is zero), and a negative one first divides by `1e308` and tries again. `none` means the
result overflows. -/
def scaleByPow10 (f : Binary64) (exponent : Int) : Option Binary64 :=
  if exponent.natAbs ≤ 308 then
    if 0 ≤ exponent then f.mul (pow10 exponent.toNat) else some (f.div (pow10 exponent.natAbs))
  else if f.mantissa = 0 then some f
  else if 0 ≤ exponent then none
  else scaleByPow10 (f.div (pow10 308)) (exponent + 308)
termination_by exponent.natAbs
decreasing_by omega

/-- The value of a decimal `significand · 10^exponent` (significand below `2^64`): the
significand rounded to binary64, then scaled by `scaleByPow10`. -/
def ofDecimal (significand : Nat) (exponent : Int) : Option Binary64 :=
  scaleByPow10 (ofNat significand) exponent

end Binary64

end Rebalance
