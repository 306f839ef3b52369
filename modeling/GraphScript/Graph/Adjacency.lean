import GraphScript.Graph.Basic

/-!
# Adjacency

The searches see a graph by positions. The nodes are *slots*, numbered in their
order, and an id stands for the last slot with it: the ids are put into a map one
after the other, and a later slot takes the place of an earlier one. A slot has one
*entry* for each edge at it, in the order of the edges: the slot at the other end,
and the number of the edge. The edges are entered one after the other; those with
an end that is no node are left out, and a loop gives its slot one entry.

In the forward view an edge gives an entry to its source only.
-/

namespace GraphScript

/-- A way out of a slot. -/
structure Entry where
  slot : Nat
  /-- The position of the edge among the edges of the graph. -/
  edge : Nat
  deriving DecidableEq, Repr

/-- The slots that ids stand for. -/
abbrev SlotMap := List (String × Nat)

namespace SlotMap

/-- The slot that an id stands for. -/
def get? (map : SlotMap) (id : String) : Option Nat :=
  map.lookup id

/-- Gives an id a slot, in the place of the one that it had. -/
def insert (map : SlotMap) (id : String) (slot : Nat) : SlotMap :=
  (id, slot) :: map.filter (·.1 != id)

/-- The map of a list of ids: each is given its position in turn. -/
def ofIds (ids : List String) : SlotMap :=
  ids.zipIdx.foldl (fun map (id, slot) => map.insert id slot) []

end SlotMap

/-- The slots of a graph with their entries. -/
structure Adjacency where
  /-- The ids of the slots. -/
  ids : List String
  /-- The entries of the slots. -/
  slots : List (List Entry)
  /-- The slots that ids stand for. -/
  index : SlotMap
  deriving DecidableEq, Repr

namespace Adjacency

/-- Puts an entry behind the others of a slot. -/
def push (slots : List (List Entry)) (slot : Nat) (entry : Entry) : List (List Entry) :=
  slots.modify slot (· ++ [entry])

/-- Enters an edge at its source, and unless only the forward view is asked for, at its
    target too. -/
def enter (index : SlotMap) (forward : Bool) (slots : List (List Entry)) (e : Edge) (edge : Nat) :
    List (List Entry) :=
  match index.get? e.source, index.get? e.target with
  | some source, some target =>
    let slots := push slots source { slot := target, edge := edge }
    if source != target && !forward then push slots target { slot := source, edge := edge }
    else slots
  | _, _ => slots

/-- The adjacency of a graph, in the forward view or in both directions. -/
def build (g : Graph) (forward : Bool) : Adjacency :=
  let index := SlotMap.ofIds g.ids
  let slots := g.edges.zipIdx.foldl (fun slots (e, edge) => enter index forward slots e edge)
    (List.replicate g.ids.length [])
  { ids := g.ids, slots := slots, index := index }

/-- The adjacency of a graph with all edges in both directions. -/
def undirected (g : Graph) : Adjacency :=
  build g false

/-- The slot that an id stands for. -/
def slot? (adj : Adjacency) (id : String) : Option Nat :=
  adj.index.get? id

/-- The number of slots. -/
def size (adj : Adjacency) : Nat :=
  adj.ids.length

/-- The entries of a slot. -/
def entries (adj : Adjacency) (slot : Nat) : List Entry :=
  adj.slots.getD slot []

/-- The ids of a list of slots. -/
def names (adj : Adjacency) (slots : List Nat) : List String :=
  slots.map (adj.ids.getD · "")

end Adjacency

end GraphScript
