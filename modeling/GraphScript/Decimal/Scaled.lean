import GraphScript.Decimal.Literal

/-!
# Scaled decimals

A reading of decimal numbers in two steps, each of them rounded: the leading
digits that 64 bits can hold make a double, and a power of ten scales it. Digits
beyond them are left out.

With up to fifteen digits and a power of at most twenty-two both doubles are exact
before they meet, and the result is the nearest double. In general it may miss the
nearest one in the last place, so that not every double reads back from its
shortest digits.
-/

namespace GraphScript.Decimal

/-- Puts digits behind a number as long as 64 bits can hold it, and counts the digits
    used. -/
def appendDigits (n : Nat) : List Char → Nat × Nat
  | [] => (n, 0)
  | c :: rest =>
    let longer := 10 * n + (c.toNat - '0'.toNat)
    if longer < UInt64.size then
      let (whole, used) := appendDigits longer rest
      (whole, used + 1)
    else (n, 0)

/-- The largest exponent of a power of ten that is a finite double. -/
def maxExponent : Int := 308

/-- A double below `2 ^ 64` times a power of ten, if no finite double is exceeded. A
    power that is too small to be a divisor makes two divisions, and two of the
    largest divisors leave nothing of the double. -/
def scale? (x : Float) (exponent : Int) : Option Float :=
  if x == 0.0 then some x
  else if maxExponent < exponent then none
  else if 0 ≤ exponent then
    let y := x * nearest 1 exponent
    if y.isFinite then some y else none
  else if -maxExponent ≤ exponent then some (x / nearest 1 (-exponent))
  else if -2 * maxExponent ≤ exponent then
    some (x / nearest 1 maxExponent / nearest 1 (-exponent - maxExponent))
  else some 0.0

/-- The double of the digits before and after a point, times a power of ten. -/
def readScaled? (whole fraction : List Char) (exponent : Int) : Option Float :=
  let (n, used) := appendDigits 0 whole
  let (n, behind) := appendDigits n fraction
  scale? (nearest n 0) (exponent + (whole.length - used : Nat) - behind)

end GraphScript.Decimal
