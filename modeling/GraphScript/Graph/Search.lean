import GraphScript.Graph.Adjacency

/-!
# Breadth-first search

The search visits the slots that can be reached from an origin, nearest first. A
slot is marked as visited when it is found. It then joins the end of the queue, and
the slot that it was found from becomes its *parent*. The search is over when the
queue is empty, or when it comes to its goal.

The parents lead from a slot back to the origin, which has none (`unwind`).

Directions of edges do not matter here. Built on the search:

* `Graph.reachable`: the ids of the slots in the order of the search;
* `Graph.shortestPath?`: the way back from a target by the parents, turned around;
* `Graph.components`: one search for each slot that no earlier search visited.
-/

namespace GraphScript

/-- What a search knows between two rounds. -/
structure Search where
  /-- The slots that have been found. -/
  visited : List Bool
  /-- The slots that they have been found from. -/
  parents : List (Option Nat)
  /-- The slots that the search has come to, in order. -/
  order : List Nat
  /-- The slots to come to next. -/
  queue : List Nat
  deriving DecidableEq, Repr

namespace Search

/-- A search that has found its origin. -/
def start (size origin : Nat) : Search where
  visited := (List.replicate size false).set origin true
  parents := List.replicate size none
  order := []
  queue := [origin]

/-- Finds the slot of an entry, unless it has been found before. -/
def meet (current : Nat) (s : Search) (entry : Entry) : Search :=
  if s.visited.getD entry.slot false then s
  else
    { s with
      visited := s.visited.set entry.slot true
      parents := s.parents.set entry.slot (some current)
      queue := s.queue ++ [entry.slot] }

/-- Works off the queue up to the goal, if there is one, for at most the given number of
    rounds. -/
def run (adj : Adjacency) (goal : Option Nat) : Nat → Search → Search
  | 0, s => s
  | rounds + 1, s =>
    match s.queue with
    | [] => s
    | current :: queue =>
      let s := { s with order := s.order ++ [current], queue := queue }
      if goal = some current then s
      else run adj goal rounds ((adj.entries current).foldl (meet current) s)

end Search

/-- Follows the parents from a slot for at most the given number of steps, and puts them
    in front of a path. -/
def climb (parents : List (Option Nat)) : Nat → Nat → List Nat → List Nat
  | 0, _, path => path
  | steps + 1, cursor, path =>
    match parents.getD cursor none with
    | some parent => climb parents steps parent (parent :: path)
    | none => path

/-- The path to a slot by the parents. No slot is its own ancestor, so there are fewer
    steps than slots. -/
def unwind (parents : List (Option Nat)) (goal : Nat) : List Nat :=
  climb parents parents.length goal [goal]

namespace Adjacency

/-- The search from an origin, up to a goal if there is one. Each round comes to one slot
    and no slot joins the queue twice, so a round for each slot is enough. -/
def searchFrom (adj : Adjacency) (origin : Nat) (goal : Option Nat) : Search :=
  Search.run adj goal adj.size (Search.start adj.size origin)

/-- Searches from a slot, unless an earlier search has come to it, and marks the slots that
    the search comes to. -/
def assign (adj : Adjacency) (found : List Bool × List (List Nat)) (origin : Nat) :
    List Bool × List (List Nat) :=
  if found.1.getD origin false then found
  else
    let order := (adj.searchFrom origin none).order
    (order.foldl (fun assigned slot => assigned.set slot true) found.1, found.2 ++ [order])

end Adjacency

namespace Graph

/-- The ids of the nodes that can be reached from a node, nearest first; none if the
    node does not exist. -/
def reachable (g : Graph) (start : String) : List String :=
  let adj := Adjacency.undirected g
  match adj.slot? start with
  | some origin => adj.names (adj.searchFrom origin none).order
  | none => []

/-- A path with the fewest nodes from one node to another. Among these paths the
    edges inserted first decide, from the start on. -/
def shortestPath? (g : Graph) (start target : String) : Option (List String) := do
  let adj := Adjacency.undirected g
  let origin ← adj.slot? start
  let goal ← adj.slot? target
  let parents := (adj.searchFrom origin (some goal)).parents
  if origin != goal && (parents.getD goal none).isNone then none
  else return adj.names (unwind parents goal)

/-- The connected components, each in the order of its search. -/
def components (g : Graph) : List (List String) :=
  let adj := Adjacency.undirected g
  let found := (List.range adj.size).foldl adj.assign (List.replicate adj.size false, [])
  found.2.map adj.names

end Graph

end GraphScript
