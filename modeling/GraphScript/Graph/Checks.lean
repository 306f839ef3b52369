import GraphScript.Graph.Search

/-!
# Structural checks

Questions about the shape of a graph; the directions of its edges do not matter.

* `isConnected`: every node can be reached from the first one;
* `isAcyclic`: a *descent* goes from slot to slot as deep as it can, and keeps the
  slots that it is in on a stack, each with the edge that it was entered by. It comes
  upon a cycle when another edge leads to a slot of the stack. Loops and parallel
  edges are cycles;
* `isTree`, `isForest`: the two together, and the second alone;
* `isSimple`: no loops, and no two edges between the same nodes;
* `isRegular`: all nodes have the same degree;
* `isComplete`: simple, with as many edges as there are pairs of nodes;
* `isBipartite`: the slots are given *sides*, the first of a component any, and the
  others that across from the slot they are found from. The check fails when an entry
  leads to a slot of the same side.

The checks on slots disregard edges to nodes that do not exist; those on edges
count them.
-/

namespace GraphScript

/-! ### Cycles -/

/-- A slot that a descent is in. -/
structure Station where
  slot : Nat
  /-- The edge that the slot was entered by. -/
  arrivedBy : Option Nat
  /-- The number of entries of the slot that have been looked at. -/
  cursor : Nat
  deriving DecidableEq, Repr

/-- What a descent knows between two rounds. -/
structure Descent where
  /-- The slots that have been entered. -/
  visited : List Bool
  /-- The slots of the stack. -/
  onStack : List Bool
  /-- The slots that the descent is in, the last one entered first. -/
  stack : List Station
  deriving DecidableEq, Repr

namespace Descent

/-- No slot has been entered. -/
def start (size : Nat) : Descent where
  visited := List.replicate size false
  onStack := List.replicate size false
  stack := []

/-- Enters a slot. -/
def enter (d : Descent) (slot : Nat) (arrivedBy : Option Nat) : Descent where
  visited := d.visited.set slot true
  onStack := d.onStack.set slot true
  stack := { slot := slot, arrivedBy := arrivedBy, cursor := 0 } :: d.stack

/-- Goes on from the last slot entered, below which there are others: leaves it if all of
    its entries have been looked at, and else looks at the next one. Fails at a cycle. -/
def step (adj : Adjacency) (d : Descent) (station : Station) (below : List Station) :
    Option Descent :=
  match (adj.entries station.slot)[station.cursor]? with
  | none => some { d with onStack := d.onStack.set station.slot false, stack := below }
  | some entry =>
    let d := { d with stack := { station with cursor := station.cursor + 1 } :: below }
    if some entry.edge = station.arrivedBy then some d
    else if !d.visited.getD entry.slot false then some (d.enter entry.slot (some entry.edge))
    else if d.onStack.getD entry.slot false then none
    else some d

/-- Goes on until the stack is empty, for at most the given number of rounds. Fails at a
    cycle. -/
def run (adj : Adjacency) : Nat → Descent → Option Descent
  | 0, d => some d
  | rounds + 1, d =>
    match d.stack with
    | [] => some d
    | station :: below => (d.step adj station below).bind (run adj rounds)

/-- Descends from a slot, unless it has been entered before. Each round looks at an entry or
    leaves a slot, so there are no more rounds than entries and slots. -/
def descend (adj : Adjacency) (d : Descent) (root : Nat) : Option Descent :=
  if d.visited.getD root false then some d
  else run adj (adj.slots.flatten.length + adj.size) (d.enter root none)

end Descent

/-! ### Simple graphs -/

/-- The ends of an edge in the order of their ids, whatever its direction is. -/
def Edge.key (e : Edge) : String × String :=
  if e.source ≤ e.target then (e.source, e.target) else (e.target, e.source)

/-- Whether no edge is a loop, and none has the key of an earlier one or one that has been
    seen. -/
def simpleFrom (seen : List (String × String)) : List Edge → Bool
  | [] => true
  | e :: rest =>
    if e.isLoop then false
    else if seen.contains e.key then false
    else simpleFrom (e.key :: seen) rest

/-- How many numbers a machine word can hold. -/
def wordSize : Nat := UInt64.size

/-! ### Sides -/

/-- The slots that have been given sides, and those whose entries are to be looked at. -/
structure Division where
  sides : List (Option Bool)
  queue : List Nat
  deriving DecidableEq, Repr

namespace Division

/-- Puts the slot of an entry across from a side. Fails if it is on this side already. -/
def face (side : Bool) (d : Division) (entry : Entry) : Option Division :=
  match d.sides.getD entry.slot none with
  | none =>
    some { sides := d.sides.set entry.slot (some !side), queue := d.queue ++ [entry.slot] }
  | some other => if other = side then none else some d

/-- Works off the queue for at most the given number of rounds. Fails if two sides are not
    enough. -/
def run (adj : Adjacency) : Nat → Division → Option Division
  | 0, d => some d
  | rounds + 1, d =>
    match d.queue with
    | [] => some d
    | current :: queue =>
      let side := (d.sides.getD current none).getD false
      ((adj.entries current).foldlM (face side) { d with queue := queue }).bind (run adj rounds)

/-- Divides the slots that are found from a slot, unless it has a side already. -/
def divide (adj : Adjacency) (sides : List (Option Bool)) (root : Nat) :
    Option (List (Option Bool)) :=
  if (sides.getD root none).isSome then some sides
  else (run adj adj.size { sides := sides.set root (some false), queue := [root] }).map (·.sides)

end Division

namespace Graph

/-- Whether every node can be reached from the first one. -/
def isConnected (g : Graph) : Bool :=
  match g.nodes with
  | [] => true
  | first :: _ => (g.reachable first.id).length == g.nodes.length

/-- Whether the graph has no cycle. -/
def isAcyclic (g : Graph) : Bool :=
  let adj := Adjacency.undirected g
  ((List.range adj.size).foldlM (Descent.descend adj) (Descent.start adj.size)).isSome

/-- Whether the graph is connected and has no cycle. -/
def isTree (g : Graph) : Bool :=
  g.isConnected && g.isAcyclic

/-- Whether all components are trees. -/
def isForest (g : Graph) : Bool :=
  g.isAcyclic

/-- Whether there are neither loops nor two edges between the same nodes. -/
def isSimple (g : Graph) : Bool :=
  simpleFrom [] g.edges

/-- Whether all nodes have the same degree. -/
def isRegular (g : Graph) : Bool :=
  match g.ids.map g.degree with
  | [] => true
  | first :: rest => rest.all (· == first)

/-- Whether every two nodes are joined by one edge and there are no other edges. The number
    of pairs is computed in a machine word. -/
def isComplete (g : Graph) (word : Nat := wordSize) : Bool :=
  let n := g.nodes.length
  g.isSimple && g.edges.length == n * (n - 1) % word / 2

/-- Whether the nodes have two sides such that all edges go from side to side. -/
def isBipartite (g : Graph) : Bool :=
  let adj := Adjacency.undirected g
  ((List.range adj.size).foldlM (Division.divide adj) (List.replicate adj.size none)).isSome

end Graph

end GraphScript
