/-!
# The size of expressions

Before an expression is read, its text is held to two limits: parentheses nest at
most 32 deep, and there are at most 256 operator characters. The text is gone
through from the left, and the first limit that is passed counts.
-/

namespace GraphScript.Expr

/-- How deep parentheses may nest. -/
def maxNesting : Nat := 32

/-- How many operator characters there may be. -/
def maxOperators : Nat := 256

/-- The ways in which an expression can be too large. -/
inductive Excess where
  | nesting
  | operators
  deriving DecidableEq, Repr

/-- The wording of an excess. -/
def Excess.message : Excess → String
  | .nesting => "parentheses nest too deeply"
  | .operators => "too many operators"

/-- The operator characters. -/
def isOperator (c : Char) : Bool :=
  c == '+' || c == '-' || c == '*' || c == '/'

/-- The first excess in a text behind `depth` open parentheses and `operators`
    operator characters. A closing parenthesis too many is not counted. -/
def excessFrom? (depth operators : Nat) : List Char → Option Excess
  | [] => none
  | c :: rest =>
    if c = '(' then
      if depth < maxNesting then excessFrom? (depth + 1) operators rest else some .nesting
    else if c = ')' then excessFrom? (depth - 1) operators rest
    else if isOperator c then
      if operators < maxOperators then excessFrom? depth (operators + 1) rest else some .operators
    else excessFrom? depth operators rest

/-- The first excess in a text. -/
def excess? (text : List Char) : Option Excess :=
  excessFrom? 0 0 text

end GraphScript.Expr
