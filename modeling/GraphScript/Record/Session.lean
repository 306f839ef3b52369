import GraphScript.Record.Basic
import GraphScript.Session.Basic

/-!
# Records of sessions

How errors, diagnostics, summaries, limits and variables are written as JSON and
read back. An error is an object with one key, its case, and the data of the
case as an object. All limits have defaults when they are read.
-/

namespace GraphScript

namespace Entity

/-- Reads a kind of things. -/
def ofJson? (j : Json) : Option Entity :=
  match j.choice? .apart with
  | some "Graph" => some .graph
  | some "Node" => some .node
  | some "Edge" => some .edge
  | some "Variable" => some .var
  | _ => none

end Entity

namespace Error

/-- The record of an error. -/
def toJson : Error → Json
  | .duplicate kind id => .obj [("Duplicate", .obj [("kind", .str kind.name), ("id", .str id)])]
  | .notFound kind id => .obj [("NotFound", .obj [("kind", .str kind.name), ("id", .str id)])]
  | .malformed message => .obj [("Malformed", .obj [("message", .str message)])]
  | .invalidExpression expression reason =>
    .obj [("InvalidExpression", .obj [("expression", .str expression), ("reason", .str reason)])]
  | .rejected message => .obj [("Rejected", .obj [("message", .str message)])]

/-- Reads the data of an error about a thing. -/
def thing? (fields : List (String × Json)) : Option (Entity × String) := do
  return (← Json.required? fields "kind" Entity.ofJson?, ← Json.required? fields "id" Json.str?)

/-- Reads the data of an error that is a message. -/
def message? (fields : List (String × Json)) : Option String :=
  Json.required? fields "message" Json.str?

/-- Reads an error. -/
def ofJson? : Json → Option Error
  | .obj [("Duplicate", .obj data)] => (thing? data).map fun (kind, id) => .duplicate kind id
  | .obj [("NotFound", .obj data)] => (thing? data).map fun (kind, id) => .notFound kind id
  | .obj [("Malformed", .obj data)] => (message? data).map .malformed
  | .obj [("InvalidExpression", .obj data)] => do
    return .invalidExpression (← Json.required? data "expression" Json.str?)
      (← Json.required? data "reason" Json.str?)
  | .obj [("Rejected", .obj data)] => (message? data).map .rejected
  | _ => none

end Error

namespace Diagnostic

/-- The record of a diagnostic. -/
def toJson (d : Diagnostic) : Json :=
  .obj [("line", .nat d.line), ("code", .str d.code), ("message", .str d.message)]

/-- Reads a diagnostic. -/
def ofJson? (j : Json) : Option Diagnostic := do
  let fields ← j.record? ["line", "code", "message"]
  return {
    line := ← Json.required? fields "line" Json.nat?
    code := ← Json.required? fields "code" Json.str?
    message := ← Json.required? fields "message" Json.str? }

end Diagnostic

namespace Summary

/-- The record of a summary. -/
def toJson (s : Summary) : Json :=
  .obj [("success", .nat s.success), ("errors", .nat s.errors),
    ("last_message", .str s.lastMessage),
    ("diagnostics", .arr (s.diagnostics.map Diagnostic.toJson))]

/-- Reads a summary. -/
def ofJson? (j : Json) : Option Summary := do
  let fields ← j.record? ["success", "errors", "last_message", "diagnostics"]
  return {
    success := ← Json.required? fields "success" Json.nat?
    errors := ← Json.required? fields "errors" Json.nat?
    lastMessage := ← Json.required? fields "last_message" Json.str?
    diagnostics := ← Json.required? fields "diagnostics" (Json.list? Diagnostic.ofJson?) }

end Summary

namespace Config

/-- The record of limits. -/
def toJson (c : Config) : Json :=
  .obj [("while_iteration_limit", .nat c.whileIterationLimit),
    ("max_block_depth", .nat c.maxBlockDepth), ("default_graph", .str c.defaultGraph)]

/-- Reads limits from fields of which any may be missing. -/
def ofFields? (fields : List (String × Json)) : Option Config := do
  let default : Config := {}
  return {
    whileIterationLimit := ←
      Json.default? fields "while_iteration_limit" default.whileIterationLimit Json.nat?
    maxBlockDepth := ← Json.default? fields "max_block_depth" default.maxBlockDepth Json.nat?
    defaultGraph := ← Json.default? fields "default_graph" default.defaultGraph Json.str? }

/-- Reads limits. -/
def ofJson? (j : Json) : Option Config := do
  ofFields? (← j.partialRecord? ["while_iteration_limit", "max_block_depth", "default_graph"])

end Config

namespace Environment

/-- The variables as an object. -/
def toJson (env : Environment) : Json :=
  .obj (env.bindings.map fun (name, value) => (name, .double value))

/-- Reads variables from an object of numbers. -/
def ofJson? : Json → Option Environment
  | .obj fields => do
    let bindings ← fields.mapM fun (name, j) => (j.float?).map fun value => (name, value)
    return ofList bindings
  | _ => none

end Environment

end GraphScript
