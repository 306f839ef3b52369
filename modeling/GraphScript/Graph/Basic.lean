import GraphScript.Error
import GraphScript.Value

/-!
# Graphs

A graph is a named list of nodes and a list of edges, both in the order of their
insertion. Edges refer to nodes by their ids, and whether they have a direction
is a property of the whole graph. Nothing in the type keeps ids apart or edges
on existing nodes: the changes below do (`addNode`, `connect`, …), and a graph
read from outside may do without.

A change gives a result or an `Error`, and with either the graph that it leaves
behind. That a graph which refuses a change is the graph it was before is thus a
property of each change: `removeEdges` drops the edges first and looks afterwards
whether there were any.
-/

namespace GraphScript

/-- A node. -/
structure Node where
  id : String
  value : Option Value
  color : String
  /-- Whether the last traversal came by. -/
  traversed : Bool
  deriving DecidableEq

/-- A fresh node. -/
def Node.new (id : String) (value : Option Value) : Node where
  id := id
  value := value
  color := "#4a90e2"
  traversed := false

/-- An edge between the nodes with two ids. -/
structure Edge where
  source : String
  target : String
  weight : Float
  deriving DecidableEq

namespace Edge

/-- The weight of an edge that is given none. -/
def defaultWeight : Float := 1.0

/-- Whether a node is an end of the edge. -/
def touches (e : Edge) (id : String) : Bool :=
  e.source == id || e.target == id

/-- Whether the ends of the edge are two nodes, in either direction. -/
def joins (e : Edge) (a b : String) : Bool :=
  (e.source == a && e.target == b) || (e.source == b && e.target == a)

/-- The other end, seen from an end of the edge. -/
def opposite? (e : Edge) (id : String) : Option String :=
  if e.source == id then some e.target
  else if e.target == id then some e.source
  else none

/-- Whether both ends of the edge are one node. -/
def isLoop (e : Edge) : Bool :=
  e.source == e.target

/-- An edge in messages. -/
def label (source target : String) : String :=
  s!"between {source} and {target}"

end Edge

/-- A graph. -/
structure Graph where
  name : String
  nodes : List Node
  edges : List Edge
  directed : Bool
  weighted : Bool
  background : String
  deriving DecidableEq

namespace Graph

/-- The background of a graph that is given none. -/
def defaultBackground : String := "#f5f5f5"

/-- The colours behind the names of backgrounds. -/
def backgrounds : List (String × String) := [
  ("black", "#1E1E1E"),
  ("red", "#FF5555"),
  ("blue", "#6272A4"),
  ("green", "#50FA7B"),
  ("yellow", "#F1FA8C"),
  ("purple", "#BD93F9"),
  ("white", "#F5F5F5"),
  ("clear", "transparent")]

/-- The colour of a background; what is not the name of one, in any case of its
    ASCII letters, stands for itself. -/
def backgroundColor (name : String) : String :=
  (backgrounds.lookup name.toLower).getD name

/-- A graph without nodes. -/
def empty (name : String) : Graph where
  name := name
  nodes := []
  edges := []
  directed := false
  weighted := false
  background := defaultBackground

/-- The graph emptied of all but its name. -/
def reset (g : Graph) : Graph :=
  empty g.name

/-- The ids of the nodes, in order. -/
def ids (g : Graph) : List String :=
  g.nodes.map (·.id)

/-- The position of the first node with an id. -/
def findIndex? (g : Graph) (id : String) : Option Nat :=
  g.nodes.findIdx? (·.id == id)

/-- Whether a node has the id. -/
def contains (g : Graph) (id : String) : Bool :=
  g.nodes.any (·.id == id)

/-- The other ends of the edges at a node, in the order of the edges. -/
def neighbors (g : Graph) (id : String) : List String :=
  g.edges.filterMap (·.opposite? id)

/-- The number of edges at a node; a loop counts once. -/
def degree (g : Graph) (id : String) : Nat :=
  g.edges.countP (·.touches id)

/-- Whether an edge joins two nodes, in either direction. -/
def adjacent (g : Graph) (a b : String) : Bool :=
  g.edges.any (·.joins a b)

/-- The graph without the edges at a node. -/
def withoutEdgesAt (g : Graph) (id : String) : Graph :=
  { g with edges := g.edges.filter (!·.touches id) }

/-- Drops the edges at a node, and counts them. -/
def dropEdgesAt (g : Graph) (id : String) : Nat × Graph :=
  let rest := g.withoutEdgesAt id
  (g.edges.length - rest.edges.length, rest)

/-- Adds a node. -/
def addNode (g : Graph) (id : String) (value : Option Value) : Except Error Unit × Graph :=
  if g.contains id then (.error (.duplicate .node id), g)
  else (.ok (), { g with nodes := g.nodes ++ [Node.new id value] })

/-- Removes the first node with an id and the edges at it, and counts the edges. -/
def removeNode (g : Graph) (id : String) : Except Error Nat × Graph :=
  match g.findIndex? id with
  | none => (.error (.notFound .node id), g)
  | some index =>
    let (count, g) := { g with nodes := g.nodes.eraseIdx index }.dropEdgesAt id
    (.ok count, g)

/-- Adds an edge. Both nodes have to exist, no edge may go from the one to the other
    already, and the weight must not be negative. -/
def connect (g : Graph) (source target : String) (weight : Option Float) :
    Except Error Unit × Graph :=
  if !g.contains source || !g.contains target then
    let missing := if g.contains source then target else source
    (.error (.notFound .node missing), g)
  else if g.edges.any (fun e => e.source == source && e.target == target) then
    (.error (.duplicate .edge (Edge.label source target)), g)
  else
    let weight := weight.getD Edge.defaultWeight
    if weight < 0.0 then
      (.error (.rejected s!"Edge weight must not be negative: {Decimal.display weight}."), g)
    else
      (.ok (), { g with
        edges := g.edges ++ [{ source := source, target := target, weight := weight }] })

/-- Drops the edges that join two nodes in either direction, and counts them. That there
    were none is found out afterwards. -/
def removeEdges (g : Graph) (source target : String) : Except Error Nat × Graph :=
  let before := g.edges.length
  let g := { g with edges := g.edges.filter (!·.joins source target) }
  let removed := before - g.edges.length
  if removed = 0 then (.error (.notFound .edge (Edge.label source target)), g)
  else (.ok removed, g)

/-- Removes the edges at a node, and counts them. -/
def isolate (g : Graph) (id : String) : Except Error Nat × Graph :=
  if g.contains id then
    let (count, g) := g.dropEdgesAt id
    (.ok count, g)
  else (.error (.notFound .node id), g)

/-- Colours the first node with an id. -/
def setColor (g : Graph) (id color : String) : Except Error Unit × Graph :=
  match g.findIndex? id with
  | some index => (.ok (), { g with nodes := g.nodes.modify index ({ · with color := color }) })
  | none => (.error (.notFound .node id), g)

/-- Sets the background by its name. -/
def setBackground (g : Graph) (name : String) : Graph :=
  { g with background := backgroundColor name }

/-- Marks the nodes with the given ids as traversed, and no others. -/
def markTraversed (g : Graph) (visited : List String) : Graph :=
  { g with nodes := g.nodes.map fun node => { node with traversed := visited.contains node.id } }

/-- Puts a new node on the first edge that joins two nodes. The edge gives way to two
    edges of default weight with its direction. -/
def subdivide (g : Graph) (source target id : String) : Except Error Unit × Graph :=
  match g.edges.find? (·.joins source target) with
  | none => (.error (.notFound .edge (Edge.label source target)), g)
  | some edge =>
    if g.contains id then (.error (.duplicate .node id), g)
    else (.ok (), { g with
      nodes := g.nodes ++ [Node.new id none]
      edges := g.edges.eraseP (·.joins source target) ++
        [{ source := edge.source, target := id, weight := Edge.defaultWeight },
         { source := id, target := edge.target, weight := Edge.defaultWeight }] })

/-- Merges two adjacent nodes into a new one, which takes over their edges to other
    nodes; its id is the two ids in a row. -/
def contract (g : Graph) (a b : String) : Except Error String × Graph :=
  let merged := a ++ b
  let isPair := fun id => id == a || id == b
  let moved := fun id => if isPair id then merged else id
  if !g.adjacent a b then
    (.error (.rejected s!"Cannot contract non-adjacent nodes {a} and {b}."), g)
  else if g.contains merged then (.error (.duplicate .node merged), g)
  else (.ok merged, { g with
    nodes := g.nodes.filter (!isPair ·.id) ++ [Node.new merged none]
    edges := (g.edges.filter fun e => !(isPair e.source && isPair e.target)).map fun e =>
      { e with source := moved e.source, target := moved e.target } })

end Graph

end GraphScript
