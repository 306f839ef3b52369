/-!
# Decimal literals

A decimal literal is an optional sign, digits with an optional point among or
around them (at least one digit in all), and an optional exponent: a letter `e`
or `E`, an optional sign and at least one digit. It denotes the double nearest
to its value, infinity when it is too large for a finite one.

* `nearest` rounds a coefficient and a power of ten to a double;
* `read?` reads a decimal literal, and nothing else;
* `readInt64?` reads a whole number in the range of 64-bit signed integers.
-/

namespace GraphScript.Decimal

/-- The number that a list of digits denotes. -/
def valueOf (digits : List Char) : Nat :=
  digits.foldl (fun n c => 10 * n + (c.toNat - '0'.toNat)) 0

/-- The double nearest to `coefficient * 10 ^ exponent`.

    A coefficient of at least one with an exponent beyond 400 is too large for
    a finite double. As `coefficient < 2 ^ (log2 + 1) ≤ 10 ^ (log2 / 3 + 1)`, the
    second bound leaves only values below half of the least positive double. -/
def nearest (coefficient : Nat) (exponent : Int) : Float :=
  if coefficient = 0 then 0.0
  else if exponent > 400 then 1.0 / 0.0
  else if exponent + (coefficient.log2 / 3 + 1) < -400 then 0.0
  else if exponent < 0 then Float.ofScientific coefficient true (-exponent).toNat
  else Float.ofScientific coefficient false exponent.toNat

/-- An optional sign, as whether it is a minus, and what follows it. -/
def sign : List Char → Bool × List Char
  | '-' :: rest => (true, rest)
  | '+' :: rest => (false, rest)
  | rest => (false, rest)

/-- An optional fraction: the digits after a point, and what follows them. -/
def fraction : List Char → List Char × List Char
  | '.' :: rest => rest.span Char.isDigit
  | rest => ([], rest)

/-- The exponent that ends a literal, zero if there is none. -/
def exponent? : List Char → Option Int
  | [] => some 0
  | c :: rest =>
    let (negative, digits) := sign rest
    if (c == 'e' || c == 'E') && !digits.isEmpty && digits.all Char.isDigit then
      some (if negative then -(valueOf digits : Int) else valueOf digits)
    else none

/-- The double that a decimal literal denotes, if the text is one. -/
def read? (text : List Char) : Option Float :=
  let (negative, unsigned) := sign text
  let (whole, rest) := unsigned.span Char.isDigit
  let (part, rest) := fraction rest
  if whole.isEmpty && part.isEmpty then none
  else (exponent? rest).map fun exponent =>
    let magnitude := nearest (valueOf (whole ++ part)) (exponent - part.length)
    if negative then -magnitude else magnitude

/-- The signed integer of 64 bits that an integer is, if it is one. -/
def int64? (n : Int) : Option Int64 :=
  if Int64.minValue.toInt ≤ n ∧ n ≤ Int64.maxValue.toInt then some (Int64.ofInt n) else none

/-- The integer that an optional sign and digits denote, if the text is that and
    the integer has 64 bits. -/
def readInt64? (text : List Char) : Option Int64 :=
  let (negative, digits) := sign text
  if digits.isEmpty || !digits.all Char.isDigit then none
  else
    let n : Int := if negative then -(valueOf digits : Int) else valueOf digits
    int64? n

end GraphScript.Decimal
