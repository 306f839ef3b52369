import GraphScript.Decimal.Shortest

/-!
# Decimal layout

How the shortest digits of a double are laid out as text. A `Style` records the
decisions: what happens at equal distance, which numbers are written without an
exponent, and what marks a whole number. The style `plain` never uses an
exponent and marks nothing, so whole numbers read as integers (`display`).
-/

namespace GraphScript.Decimal

/-- The decisions behind the text of a finite double. -/
structure Style where
  /-- Which of two shortest texts at equal distance is written. -/
  tie : Tie
  /-- Whether a number whose point stands there is written without an exponent. -/
  positional : Int → Bool
  /-- What follows a whole number written without an exponent. -/
  whole : List Char

/-- Digits and point without an exponent. -/
def Style.positionalText (style : Style) (d : Digits) : List Char :=
  if d.point ≤ 0 then
    '0' :: '.' :: (List.replicate (-d.point).toNat '0' ++ d.digits)
  else if d.digits.length ≤ d.point.toNat then
    d.digits ++ List.replicate (d.point.toNat - d.digits.length) '0' ++ style.whole
  else
    d.digits.take d.point.toNat ++ '.' :: d.digits.drop d.point.toNat

/-- One digit before the point, the rest after it, and an exponent. -/
def scientificText (d : Digits) : List Char :=
  let exponent := (toString (d.point - 1)).toList
  match d.digits with
  | [] => ['0']
  | [digit] => digit :: 'e' :: exponent
  | digit :: more => digit :: '.' :: (more ++ 'e' :: exponent)

/-- The text of a finite double. -/
def Style.write (style : Style) (x : Float) : List Char :=
  let minus := if x.toBits >>> 63 = 0 then [] else ['-']
  if x == 0.0 then minus ++ '0' :: style.whole
  else
    let d := shortest style.tie x.abs
    minus ++ if style.positional d.point then style.positionalText d else scientificText d

/-- No exponent and no mark on whole numbers; of two shortest texts at equal
    distance the larger. -/
def plain : Style where
  tie := .up
  positional := fun _ => true
  whole := []

/-- The text of a double in messages and names. -/
def display (x : Float) : String :=
  if x.isNaN then "NaN"
  else if x.isInf then (if x < 0.0 then "-inf" else "inf")
  else String.ofList (plain.write x)

end GraphScript.Decimal
