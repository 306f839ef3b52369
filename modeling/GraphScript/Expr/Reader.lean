import GraphScript.Decimal.Literal
import GraphScript.Expr.Basic
import GraphScript.Text.Alphanumeric
import GraphScript.Text.Blank

/-!
# Reading expressions

The grammar, with blanks around operators, atoms and parentheses:

* a sum is a product, then any number of `+` or `-` with a product each;
* a product is a unary, then any number of `*` or `/` with a unary each;
* a unary is any number of `-`, then an atom;
* an atom is a number (digits, or digits, a point and digits), a variable (`$` and
  the longest run of name characters behind it, at least one), or a sum in
  parentheses.

Sums and products group to the left. A reader takes what it reads off the front
of a text, together with the blanks behind it, and gives the rest back. An
operator settles that an operand follows: if none does, there is no other way to
read the text.
-/

namespace GraphScript.Expr

open Text

/-- Takes an expression off the front of a text. -/
abbrev Reader := List Char → Option (Expr × List Char)

/-- The expression of the digits before and after a point. -/
def ofDigits (whole part : List Char) : Expr :=
  .number (Decimal.nearest (Decimal.valueOf (whole ++ part)) (-(part.length : Int)))

/-- Reads digits, and a point and digits if both follow. -/
def readNumber : Reader := fun text =>
  let (whole, rest) := text.span Char.isDigit
  if whole.isEmpty then none
  else match rest with
    | '.' :: more =>
      let (part, after) := more.span Char.isDigit
      if part.isEmpty then some (ofDigits whole [], rest) else some (ofDigits whole part, after)
    | _ => some (ofDigits whole [], rest)

/-- Reads the name of a variable, behind its `$`. -/
def readVariable : Reader := fun text =>
  let (name, rest) := text.span isNameChar
  if name.isEmpty then none else some (.var (String.ofList name), rest)

/-- Reads an atom and the blanks behind it; `inner` reads what stands in parentheses. -/
def readAtom (inner : Reader) : Reader := fun text => do
  let (e, rest) ← match text with
    | '$' :: rest => readVariable rest
    | '(' :: rest =>
      match inner rest with
      | some (e, ')' :: after) => some (e, after)
      | _ => none
    | _ => readNumber text
  return (e, trimStart rest)

/-- Reads any number of minus signs, with blanks around them, and an atom. -/
def readUnary (atom : Reader) : Reader
  | [] => atom []
  | c :: rest =>
    if isBlank c then readUnary atom rest
    else if c = '-' then (readUnary atom rest).map fun (e, after) => (.negate e, after)
    else atom (c :: rest)

/-- Reads operators with an operand each and groups them to the left of each other.
    Every operator is a character, so the length of the text is enough steps. -/
def readTail (op? : Char → Option Op) (operand : Reader) : Nat → Expr → Reader
  | 0, left, text => some (left, text)
  | _ + 1, left, [] => some (left, [])
  | steps + 1, left, c :: rest =>
    match op? c with
    | none => some (left, c :: rest)
    | some op =>
      match operand rest with
      | none => none
      | some (right, after) => readTail op? operand steps (.binary op left right) after

/-- Reads an operand and the operators with an operand each that follow it. -/
def readChain (op? : Char → Option Op) (operand : Reader) : Reader := fun text =>
  match operand text with
  | none => none
  | some (left, rest) => readTail op? operand rest.length left rest

/-- The operators of sums. -/
def additive? : Char → Option Op
  | '+' => some .add
  | '-' => some .subtract
  | _ => none

/-- The operators of products. -/
def multiplicative? : Char → Option Op
  | '*' => some .multiply
  | '/' => some .divide
  | _ => none

/-- Reads a sum with fewer than the given number of parentheses around each other. -/
def readSum : Nat → Reader
  | 0 => fun _ => none
  | depth + 1 =>
    readChain additive? (readChain multiplicative? (readUnary (readAtom (readSum depth))))

/-- The expression that a text denotes, if it is one. -/
def parse? (text : List Char) : Option Expr :=
  match readSum (text.length + 1) text with
  | some (e, []) => some e
  | _ => none

end GraphScript.Expr
