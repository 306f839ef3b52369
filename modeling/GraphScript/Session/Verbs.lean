import GraphScript.Graph.CheapestPath
import GraphScript.Graph.Report
import GraphScript.Session.Basic

/-!
# Statements

A statement is a line of words, the first of which is its verb. `Statement.carryOut`
gives what it does; only `Initialize`, which plays a script, is left to its caller.

Words are asked for by their position, counted from zero. A word that is missing
makes the statement malformed, and the message says which family of statements it
belongs to. Some words stand for the ear only and are not looked at (`To`, `WITH`).
-/

namespace GraphScript

/-- A statement with its words. -/
structure Statement where
  text : String
  words : List String

namespace Statement

/-- The statement of a text. -/
def ofText (text : String) : Statement where
  text := text
  words := Text.wordsOf text

/-- The failure of a statement whose verb is not known. -/
def unknown (st : Statement) : Error :=
  .malformed s!"Invalid command: {st.text}."

/-- The failure of a statement of a family that lacks a word or has a wrong one. -/
def invalid (st : Statement) (family : String) : Error :=
  .malformed s!"Invalid {family} command: {st.text}."

/-- The word at a position. -/
def word (st : Statement) (family : String) (position : Nat) : Action String :=
  match st.words[position]? with
  | some word => pure word
  | none => throw (st.invalid family)

/-- The word at a position, with the value of a variable in the place of `$name`. -/
def resolved (st : Statement) (family : String) (position : Nat) : Action String := do
  Action.resolve (← st.word family position)

/-- Insists on a word at a position. -/
def expect (st : Statement) (family : String) (position : Nat) (expected : String) :
    Action Unit := do
  if (← st.word family position) != expected then throw (st.invalid family)

/-- Whether the word at a position says `true`, in any case of its letters. -/
def affirms (st : Statement) (position : Nat) : Bool :=
  st.words[position]?.any (·.toLower == "true")

/-- The words of a literal and the kind that `AS` asks for behind them. -/
def splitKind (st : Statement) (tokens : List String) : Action (List String × Kind) :=
  match tokens.span (· != "AS") with
  | (literal, []) => pure (literal, .undefined)
  | (_, [_]) => throw (st.invalid "CREATE")
  | (literal, _ :: name :: _) =>
    match Kind.parse? name with
    | some kind => pure (literal, kind)
    | none => throw (.malformed s!"Unknown value kind: {name}.")

/-- The value that a list of words denotes. A single word may be a variable. -/
def nodeValue (st : Statement) (tokens : List String) : Action Value := do
  let (literal, kind) ← st.splitKind tokens
  match literal with
  | [] => throw (st.invalid "CREATE")
  | [word] => return .ofKind (← Action.resolve word) kind
  | words => return .ofKind (" ".intercalate words) kind

/-- `Create Node <id> [VALUE <literal> [AS <kind>]]`. -/
def createNode (st : Statement) : Action String := do
  let id ← st.resolved "CREATE" 2
  match st.words[3]? with
  | none =>
    Action.changeGraph (·.addNode id none)
    return s!"Created node {id}."
  | some "VALUE" =>
    let value ← st.nodeValue (st.words.drop 4)
    Action.changeGraph (·.addNode id (some value))
    return s!"Created node {id} with value {value.raw}."
  | some _ => throw (st.invalid "CREATE")

/-- `Create GRAPH <name>`, or a node. -/
def create (st : Statement) : Action String := do
  match ← st.word "CREATE" 1 with
  | "GRAPH" =>
    let name ← st.word "CREATE" 2
    Action.changeStore (·.create name)
    return s!"Created graph {name}."
  | "Node" => st.createNode
  | _ => throw (st.invalid "CREATE")

/-- `Use GRAPH <name>`. -/
def use (st : Statement) : Action String := do
  st.expect "USE" 1 "GRAPH"
  let name ← st.word "USE" 2
  let _ ← Action.changeStore (·.use name)
  return s!"Now using graph {name}."

/-- `Let <variable> = <expression>`. -/
def letVariable (st : Statement) : Action String := do
  let name ← st.word "LET" 1
  if !name.toList.all Text.isNameChar then throw (st.invalid "LET")
  st.expect "LET" 2 "="
  let _ ← st.word "LET" 3
  let value ← Action.evaluate (" ".intercalate (st.words.drop 3))
  modify fun s => { s with env := s.env.set name value }
  return s!"Set variable {name} = {Environment.formatNumber value}."

/-- `Set Background [<name>]`, `Set DIRECTED <truth>`, `Set WEIGHTED <truth>` or
    `Set NODE_COLOR <id> <color>`, in any case of the setting. -/
def set (st : Statement) : Action String := do
  match (← st.word "SET" 1).toLower with
  | "background" =>
    let name := st.words[2]?.getD "white"
    modify fun s => s.setGraph (s.graph.setBackground name)
    return s!"Canvas background set to {name.toLower}."
  | "directed" =>
    let directed := st.affirms 2
    modify fun s => s.setGraph { s.graph with directed := directed }
    return if directed then "Graph set to directed." else "Graph set to undirected."
  | "weighted" =>
    let weighted := st.affirms 2
    modify fun s => s.setGraph { s.graph with weighted := weighted }
    return if weighted then "Graph set to weighted." else "Graph set to unweighted."
  | "node_color" =>
    let id ← st.resolved "SET" 2
    let color ← st.word "SET" 3
    Action.changeGraph (·.setColor id color)
    return s!"Node {id} color set to {color}."
  | _ => throw (st.invalid "SET")

/-- The weight that `Connect` gives to an edge of a weighted graph. -/
def weight? (st : Statement) (weighted : Bool) : Action (Option Float) := do
  if weighted && st.words[4]? == some "WEIGHT" then
    return some (← Action.evaluate (← st.word "CONNECT" 5))
  else return none

/-- `Connect <a> To <b> [WEIGHT <expression>]`. Only a weighted graph takes a weight. -/
def connect (st : Statement) : Action String := do
  let _ ← st.word "CONNECT" 2
  let source ← st.resolved "CONNECT" 1
  let target ← st.resolved "CONNECT" 3
  let weighted := (← Action.graph).weighted
  let weight ← st.weight? weighted
  Action.changeGraph (·.connect source target weight)
  if weighted then
    let shown := Environment.formatNumber (weight.getD Edge.defaultWeight)
    return s!"Connected node {source} to {target} with weight {shown}."
  else return s!"Connected node {source} to {target}."

/-- `Remove Node <id>` or `Remove EDGE <a> To <b>`. -/
def remove (st : Statement) : Action String := do
  match ← st.word "REMOVE" 1 with
  | "Node" =>
    let id ← st.resolved "REMOVE" 2
    let _ ← Action.changeGraph (·.removeNode id)
    return s!"Removed node {id} and its incident edges."
  | "EDGE" =>
    let _ ← st.word "REMOVE" 3
    let source ← st.resolved "REMOVE" 2
    let target ← st.resolved "REMOVE" 4
    let _ ← Action.changeGraph (·.removeEdges source target)
    return s!"Removed edge between {source} and {target}."
  | _ => throw (st.invalid "REMOVE")

/-- `Isolate Node <id>`. -/
def isolate (st : Statement) : Action String := do
  st.expect "ISOLATE" 1 "Node"
  let id ← st.resolved "ISOLATE" 2
  let _ ← Action.changeGraph (·.isolate id)
  return s!"Isolated node {id}."

/-- `Traverse <id>`. -/
def traverse (st : Statement) : Action String := do
  let start ← st.resolved "TRAVERSE" 1
  let visited := (← Action.graph).reachable start
  if visited.isEmpty then throw (.notFound .node start)
  modify fun s => s.setGraph (s.graph.markTraversed visited)
  let shown := ", ".intercalate visited
  return s!"Traversed graph from node {start}. Nodes visited: {shown}."

/-- `Color GRAPH`. -/
def color (st : Statement) : Action String := do
  st.expect "COLOR" 1 "GRAPH"
  let shown := (← Action.graph).coloring.map fun (id, color) => s!"{id}: Color {color}"
  let shown := ", ".intercalate shown
  return s!"Graph colored with a greedy algorithm: {shown}."

/-- `Subdivide EDGE <a> <b> WITH <id>`. -/
def subdivide (st : Statement) : Action String := do
  let _ ← st.word "SUBDIVIDE" 4
  let source ← st.resolved "SUBDIVIDE" 2
  let target ← st.resolved "SUBDIVIDE" 3
  let id ← st.resolved "SUBDIVIDE" 5
  Action.changeGraph (·.subdivide source target id)
  return s!"Subdivided edge between {source} and {target} with new node {id}."

/-- `Contract <a> <b>`. -/
def contract (st : Statement) : Action String := do
  let a ← st.resolved "CONTRACT" 1
  let b ← st.resolved "CONTRACT" 2
  let merged ← Action.changeGraph (·.contract a b)
  return s!"Contracted nodes {a} and {b} into a new node {merged}."

/-- The components of a graph, numbered from one, each in the given brackets. -/
def numbered (components : List (List String)) (left right : String) : List String :=
  components.zipIdx.map fun (members, index) =>
    s!"Component {index + 1}: " ++ left ++ ", ".intercalate members ++ right

/-- `Partition`. -/
def partition : Action String := do
  let components := (← Action.graph).components
  let details := "; ".intercalate (numbered components "" "")
  return s!"Graph partitioned into {components.length} components. Details: {details}"

/-- `Get DEGREE <id>`. -/
def getDegree (st : Statement) : Action String := do
  let id ← st.resolved "GET" 2
  let g ← Action.graph
  if !g.contains id then throw (.notFound .node id)
  return s!"The degree of node {id} is {g.degree id}."

/-- `Get PATH <a> <b>`: the cheapest path of a weighted graph, the shortest of others. -/
def getPath (st : Statement) : Action String := do
  let start ← st.resolved "GET" 2
  let target ← st.resolved "GET" 3
  let g ← Action.graph
  let (method, path) := if g.weighted then ("Dijkstra's", g.cheapestPath? start target)
    else ("BFS", g.shortestPath? start target)
  match path with
  | none => throw (.rejected s!"No path found from {start} to {target}.")
  | some path => return s!"Shortest path ({method}): " ++ " -> ".intercalate path

/-- The questions: `Get` and what is asked for. -/
def getAnswer (st : Statement) : Action String := do
  match ← st.word "GET" 1 with
  | "DEGREE" => st.getDegree
  | "CHROMATIC_NUMBER" =>
    let number := (← Action.graph).chromaticNumber
    return s!"The chromatic number of the graph (greedy approximation) is {number}."
  | "PATH" => st.getPath
  | "COMPONENTS" =>
    let components := (← Action.graph).components
    let listed := ", ".intercalate (numbered components "[" "]")
    return s!"Found {components.length} connected components: {listed}"
  | "PROPERTIES" =>
    let summary := (← Action.graph).report.summary
    return s!"Graph properties: {summary}."
  | _ => throw (st.invalid "GET")

/-- `Reset`. -/
def reset : Action String := do
  modify fun s => { s with store := s.store.reset }
  return "Graph has been reset."

/-- What a statement does, given what `Initialize` does. -/
def carryOut (replay : Action String) (st : Statement) : Action String :=
  match st.words.head? with
  | some "Initialize" => replay
  | some "Reset" => reset
  | some "Create" => st.create
  | some "Use" => st.use
  | some "Let" => st.letVariable
  | some "Set" => st.set
  | some "Connect" => st.connect
  | some "Remove" => st.remove
  | some "Isolate" => st.isolate
  | some "Traverse" => st.traverse
  | some "Color" => st.color
  | some "Subdivide" => st.subdivide
  | some "Contract" => st.contract
  | some "Partition" => partition
  | some "Get" => st.getAnswer
  | _ => throw st.unknown

end Statement

end GraphScript
