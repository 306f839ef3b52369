import GraphScript.Graph.Basic

/-!
# The store

The graphs of a session in the order of their creation, one of them current.
Graphs are never removed, so there always is a current graph: the store is kept
as the graphs before it, the graph itself and the graphs after it.

Like a change of a graph, a change of the store gives a result or an error, and
with either the store that it leaves behind.
-/

namespace GraphScript

/-- Named graphs, one of them current. -/
structure Store where
  /-- The graphs created before the current one. -/
  earlier : List Graph
  current : Graph
  /-- The graphs created after the current one. -/
  later : List Graph
  deriving DecidableEq

/-- The current graph and the names of all graphs. -/
structure Snapshot where
  graph : Graph
  graphs : List String
  deriving DecidableEq

namespace Store

/-- A store with one empty graph. -/
def new (initial : String) : Store where
  earlier := []
  current := Graph.empty initial
  later := []

/-- All graphs, in the order of their creation. -/
def graphs (s : Store) : List Graph :=
  s.earlier ++ s.current :: s.later

/-- The names of all graphs, in the order of their creation. -/
def names (s : Store) : List String :=
  s.graphs.map (·.name)

/-- The graph with a name. -/
def get? (s : Store) (name : String) : Option Graph :=
  s.graphs.find? (·.name == name)

/-- Adds an empty graph; the current graph stays. -/
def create (s : Store) (name : String) : Except Error Unit × Store :=
  if (s.get? name).isSome then (.error (.duplicate .graph name), s)
  else (.ok (), { s with later := s.later ++ [Graph.empty name] })

/-- Makes the graph with a name the current one. -/
def use (s : Store) (name : String) : Except Error Graph × Store :=
  match s.graphs.span (·.name != name) with
  | (earlier, graph :: later) =>
    (.ok graph, { earlier := earlier, current := graph, later := later })
  | (_, []) => (.error (.notFound .graph name), s)

/-- Puts a graph in the place of the current one. -/
def setCurrent (s : Store) (g : Graph) : Store :=
  { s with current := g }

/-- Empties the current graph. -/
def reset (s : Store) : Store :=
  s.setCurrent s.current.reset

/-- The current graph and the names of all graphs. -/
def snapshot (s : Store) : Snapshot where
  graph := s.current
  graphs := s.names

end Store

end GraphScript
