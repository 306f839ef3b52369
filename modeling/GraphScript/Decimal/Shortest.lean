import GraphScript.Decimal.Literal

/-!
# Shortest digits

The decimal text of a double has the fewest digits that read back as the same
double, and of all texts with that many digits the one nearest to it.

A grid of decimal numbers with one exponent has two points around a double, the
one at or below it and the next one. If any point of the grid reads back as the
double, then one of these two does, because the numbers that read back as it
form an interval around it. So `onGrid?` tries the two, the nearer first, on the
grids of one digit, two digits and so on (`shortest`). What happens at equal
distance is left to a `Tie`.
-/

namespace GraphScript.Decimal

/-- Which of two decimal numbers at equal distance is taken. -/
inductive Tie where
  /-- The larger one. -/
  | up
  /-- The one with an even last digit. -/
  | even
  deriving DecidableEq, Repr

/-- The significant digits of a positive number, and where its point stands: the
    number is `0.d₁d₂d₃…` times ten to the power of `point`. -/
structure Digits where
  /-- The digits, without a zero at either end. -/
  digits : List Char
  /-- How many digits stand before the point, if positive. -/
  point : Int
  deriving DecidableEq, Repr

/-- The digits of `coefficient * 10 ^ exponent`. -/
def Digits.ofCoefficient (coefficient : Nat) (exponent : Int) : Digits :=
  let all := Nat.toDigits 10 coefficient
  { digits := (all.reverse.dropWhile (· == '0')).reverse, point := all.length + exponent }

/-- The bit that stands before the 52 stored bits of a mantissa. -/
def leadingBit : Nat := 1 <<< 52

/-- The whole mantissa and the binary exponent of the magnitude of a finite double. -/
def binary (x : Float) : Nat × Int :=
  let bits := x.toBits.toNat
  let exponent : Nat := (bits >>> 52) % 2048
  let mantissa : Nat := bits % leadingBit
  if exponent = 0 then (mantissa, -1074) else (leadingBit + mantissa, (exponent : Int) - 1075)

/-- The magnitude of a finite double as a numerator and a denominator. -/
def ratio (x : Float) : Nat × Nat :=
  let (mantissa, exponent) := binary x
  (mantissa <<< exponent.toNat, 1 <<< (-exponent).toNat)

/-- Where the point stands in the digits of a positive double. No positive double
    is below `10 ^ (-400)`, so scaling by `10 ^ 400` leaves a whole part. -/
def pointOf (x : Float) : Int :=
  let (numerator, denominator) := ratio x
  (Nat.toDigits 10 (numerator * Nat.pow 10 400 / denominator)).length - 400

/-- The decimal nearest to a positive double among those with the given exponent
    that read back as it. -/
def onGrid? (tie : Tie) (x : Float) (exponent : Int) : Option Digits :=
  let (numerator, denominator) := ratio x
  let numerator := numerator * Nat.pow 10 (-exponent).toNat
  let denominator := denominator * Nat.pow 10 exponent.toNat
  let below := numerator / denominator
  let excess := 2 * (numerator % denominator)
  let upper := denominator < excess ||
    (denominator == excess && (tie == .up || below % 2 == 1))
  let (first, second) := if upper then (below + 1, below) else (below, below + 1)
  if nearest first exponent == x then some (.ofCoefficient first exponent)
  else if nearest second exponent == x then some (.ofCoefficient second exponent)
  else none

/-- All digits of a positive double. -/
def exact (x : Float) : Digits :=
  let (mantissa, exponent) := binary x
  if exponent < 0 then .ofCoefficient (mantissa * Nat.pow 5 (-exponent).toNat) exponent
  else .ofCoefficient (mantissa <<< exponent.toNat) 0

/-- The fewest digits that read back as a positive double. Seventeen are enough for
    every double. -/
def shortest (tie : Tie) (x : Float) : Digits :=
  let point := pointOf x
  ((List.range 17).findSome? fun (n : Nat) => onGrid? tie x (point - (n + 1 : Nat))).getD (exact x)

end GraphScript.Decimal
