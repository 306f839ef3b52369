import GraphScript.Record.Basic
import GraphScript.Store

/-!
# Records of graphs

How values, nodes, edges, graphs and snapshots are written as JSON and read back.
A payload is written with the name of its kind. A snapshot is the record of its
graph with one more field, the names of all graphs.
-/

namespace GraphScript

namespace Payload

/-- The record of a payload. -/
def toJson (p : Payload) : Json :=
  .obj [("kind", .str p.kind.name), ("value", match p with
    | .int n => .int n.toInt
    | .double x => .double x
    | .bool b => .bool b
    | .char c => .str c.toString
    | .string s => .str s)]

/-- The names of the kinds that payloads have. -/
def kindNames : List String :=
  [Kind.int, .double, .bool, .char, .string].map Kind.name

/-- Reads a payload of the kind with a name. -/
def ofKindName? (value : Json) : String → Option Payload
  | "int" => value.int64?.map .int
  | "double" => value.float?.map .double
  | "bool" => value.bool?.map .bool
  | "char" => value.char?.map .char
  | "string" => value.str?.map .string
  | _ => none

/-- Reads a payload. Its kind is a choice in an object, and a label in an array. -/
def ofJson? (place : Place) : Json → Option Payload
  | .obj fields => do
    let kind ← Json.required? fields "kind" (Json.choice? place)
    ofKindName? (← Json.field? fields "value") kind
  | .arr [kind, value] => (kind.label? place kindNames).bind (ofKindName? value)
  | _ => none

end Payload

namespace Value

/-- The record of a value. -/
def toJson (v : Value) : Json :=
  .obj [("raw", .str v.raw), ("parsed", v.payload.toJson)]

/-- Reads a value. -/
def ofJson? (place : Place) (j : Json) : Option Value := do
  let fields ← j.record? ["raw", "parsed"]
  return {
    raw := ← Json.required? fields "raw" Json.str?
    payload := ← Json.required? fields "parsed" (Payload.ofJson? place) }

end Value

namespace Node

/-- The record of a node. -/
def toJson (n : Node) : Json :=
  .obj [("id", .str n.id), ("value", (n.value.map Value.toJson).getD .null),
    ("color", .str n.color), ("traversed", .bool n.traversed)]

/-- Reads a node; its value may be missing. -/
def ofJson? (place : Place) (j : Json) : Option Node := do
  let fields ← j.record? ["id", "value", "color", "traversed"]
  return {
    id := ← Json.required? fields "id" Json.str?
    value := ← Json.default? fields "value" none (Json.optional? (Value.ofJson? place))
    color := ← Json.required? fields "color" Json.str?
    traversed := ← Json.required? fields "traversed" Json.bool? }

end Node

namespace Edge

/-- The record of an edge. -/
def toJson (e : Edge) : Json :=
  .obj [("source", .str e.source), ("target", .str e.target), ("weight", .double e.weight)]

/-- Reads an edge. -/
def ofJson? (j : Json) : Option Edge := do
  let fields ← j.record? ["source", "target", "weight"]
  return {
    source := ← Json.required? fields "source" Json.str?
    target := ← Json.required? fields "target" Json.str?
    weight := ← Json.required? fields "weight" Json.float? }

end Edge

namespace Graph

/-- The fields of the record of a graph. -/
def toFields (g : Graph) : List (String × Json) :=
  [("name", .str g.name), ("nodes", .arr (g.nodes.map Node.toJson)),
    ("edges", .arr (g.edges.map Edge.toJson)), ("directed", .bool g.directed),
    ("weighted", .bool g.weighted), ("background", .str g.background)]

/-- The record of a graph. -/
def toJson (g : Graph) : Json :=
  .obj g.toFields

/-- Reads a graph from the fields of its record. -/
def ofFields? (place : Place) (fields : List (String × Json)) : Option Graph := do
  return {
    name := ← Json.required? fields "name" Json.str?
    nodes := ← Json.required? fields "nodes" (Json.list? (Node.ofJson? place))
    edges := ← Json.required? fields "edges" (Json.list? Edge.ofJson?)
    directed := ← Json.required? fields "directed" Json.bool?
    weighted := ← Json.required? fields "weighted" Json.bool?
    background := ← Json.required? fields "background" Json.str? }

/-- Reads a graph. -/
def ofJson? (j : Json) : Option Graph := do
  ofFields? .apart (← j.record? ["name", "nodes", "edges", "directed", "weighted", "background"])

end Graph

namespace Snapshot

/-- The record of a snapshot. -/
def toJson (s : Snapshot) : Json :=
  .obj (s.graph.toFields ++ [("graphs", .strings s.graphs)])

/-- Reads a snapshot, which has to be an object. -/
def ofJson? : Json → Option Snapshot
  | .obj fields => do
    return {
      graph := ← Graph.ofFields? .snapshot fields
      graphs := ← Json.required? fields "graphs" (Json.list? Json.str?) }
  | _ => none

end Snapshot

end GraphScript
