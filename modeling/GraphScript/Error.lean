/-!
# Errors and diagnostics

What can go wrong when a statement is carried out (`Error`), the wording of each
case (`Error.message`) and its code (`Error.code`). A `Diagnostic` is an error
with the line it belongs to.
-/

namespace GraphScript

/-- The kinds of things that an error can name. -/
inductive Entity where
  | graph
  | node
  | edge
  | var
  deriving DecidableEq, Repr

/-- The name of a kind of things in messages. -/
def Entity.name : Entity → String
  | .graph => "Graph"
  | .node => "Node"
  | .edge => "Edge"
  | .var => "Variable"

/-- Why a statement, a block or a piece of text failed. -/
inductive Error where
  /-- The thing to be made exists already. -/
  | duplicate (kind : Entity) (id : String)
  /-- The thing referred to does not exist. -/
  | notFound (kind : Entity) (id : String)
  /-- The text is not a statement, a header or a condition. -/
  | malformed (message : String)
  /-- The text is not an expression, or the expression has no value. -/
  | invalidExpression (expression reason : String)
  /-- The statement is well formed, but the graph refuses it. -/
  | rejected (message : String)
  deriving DecidableEq, Repr

namespace Error

/-- The code of an error, the same for all errors of its case. -/
def code : Error → String
  | .duplicate .. => "pen/error/duplicate"
  | .notFound .. => "pen/error/not-found"
  | .malformed .. => "pen/error/malformed"
  | .invalidExpression .. => "pen/error/invalid-expression"
  | .rejected .. => "pen/error/rejected"

/-- The wording of an error. -/
def message : Error → String
  | .duplicate kind id => s!"{kind.name} {id} already exists."
  | .notFound kind id => s!"{kind.name} {id} not found."
  | .malformed message => message
  | .invalidExpression expression reason => s!"Invalid expression: {expression} ({reason})"
  | .rejected message => message

end Error

/-- A failure on a line of a script; lines are counted from one. -/
structure Diagnostic where
  line : Nat
  code : String
  message : String
  deriving DecidableEq, Repr

namespace Diagnostic

/-- The diagnostic of an error on a line. -/
def ofError (line : Nat) (error : Error) : Diagnostic where
  line := line
  code := error.code
  message := error.message

/-- The text shown for a diagnostic. -/
def render (d : Diagnostic) : String :=
  s!"Error on line {d.line}: {d.message}"

end Diagnostic

end GraphScript
