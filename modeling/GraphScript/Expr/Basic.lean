/-!
# Arithmetic expressions

Numbers, variables, negation and the four operations on doubles. The value of an
expression depends on the variables; it has none if a variable is unbound or a
divisor is zero. Of two failures the one further left counts.
-/

namespace GraphScript

/-- The operations with two operands. -/
inductive Op where
  | add
  | subtract
  | multiply
  | divide
  deriving DecidableEq, Repr

/-- An arithmetic expression. -/
inductive Expr where
  | number (x : Float)
  | var (name : String)
  | negate (operand : Expr)
  | binary (op : Op) (left right : Expr)
  deriving DecidableEq

/-- Why an expression has no value. -/
inductive EvalFailure where
  | unbound (name : String)
  | divisionByZero
  deriving DecidableEq, Repr

/-- The value of an operation. -/
def Op.apply (x y : Float) : Op → Except EvalFailure Float
  | .add => .ok (x + y)
  | .subtract => .ok (x - y)
  | .multiply => .ok (x * y)
  | .divide => if y == 0.0 then .error .divisionByZero else .ok (x / y)

namespace Expr

/-- The value of an expression under an assignment of the variables. -/
def eval (values : String → Option Float) : Expr → Except EvalFailure Float
  | .number x => .ok x
  | .var name =>
    match values name with
    | some x => .ok x
    | none => .error (.unbound name)
  | .negate operand =>
    match operand.eval values with
    | .ok x => .ok (-x)
    | .error failure => .error failure
  | .binary op left right =>
    match left.eval values with
    | .error failure => .error failure
    | .ok x =>
      match right.eval values with
      | .error failure => .error failure
      | .ok y => op.apply x y

end Expr

end GraphScript
