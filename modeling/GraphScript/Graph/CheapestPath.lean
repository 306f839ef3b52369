import GraphScript.Graph.Search

/-!
# Cheapest paths

The path of least total weight between two nodes. In a directed graph an edge is
used from its source to its target, otherwise both ways.

The search keeps the least cost of each slot so far, with the slot *previous* to it
on a way of that cost, and *offers*: slots with their costs. It takes the cheapest
offer, the oldest of several, and stops when that offer is for the goal. An offer
that a cheaper one has overtaken is dropped; any other is extended by the entries of
its slot, where this makes a slot strictly cheaper than before. As weights are not
negative, costs only grow along a way, so an offer that is taken and not dropped has
the least cost, and what is previous to its slot stays.
-/

namespace GraphScript

/-- A slot that can be reached at a cost. -/
structure Offer where
  cost : Float
  /-- The number of offers made before. -/
  order : Nat
  slot : Nat
  deriving DecidableEq

namespace Offer

/-- Whether an offer is taken before another one. -/
def precedes (a b : Offer) : Bool :=
  a.cost < b.cost || (a.cost == b.cost && a.order < b.order)

/-- The offer to be taken next. -/
def first? : List Offer → Option Offer
  | [] => none
  | offer :: rest =>
    match first? rest with
    | some other => if other.precedes offer then some other else some offer
    | none => some offer

end Offer

/-- The state of the search. -/
structure Frontier where
  /-- The least cost offered so far for each slot, infinite at first. -/
  costs : List Float
  /-- The slots that the offers of these costs came from. -/
  previous : List (Option Nat)
  /-- The offers not yet taken. -/
  offers : List Offer
  /-- The number of offers made so far. -/
  made : Nat

namespace Frontier

/-- The cost of a slot without an offer. -/
def unreached : Float := 1.0 / 0.0

/-- The least cost offered for a slot. -/
def cost (f : Frontier) (slot : Nat) : Float :=
  f.costs.getD slot unreached

/-- The first offer, for the origin. -/
def start (size origin : Nat) : Frontier where
  costs := (List.replicate size unreached).set origin 0.0
  previous := List.replicate size none
  offers := [{ cost := 0.0, order := 0, slot := origin }]
  made := 1

/-- Extends an offer by an entry of its slot, if that makes the slot cheaper. -/
def extend (weight : Nat → Float) (o : Offer) (f : Frontier) (entry : Entry) : Frontier :=
  let cost := o.cost + weight entry.edge
  if cost < f.cost entry.slot then
    { costs := f.costs.set entry.slot cost
      previous := f.previous.set entry.slot (some o.slot)
      offers := { cost := cost, order := f.made, slot := entry.slot } :: f.offers
      made := f.made + 1 }
  else f

/-- The way to the goal, looked for in at most the given number of offers. -/
def run (adj : Adjacency) (weight : Nat → Float) (goal : Nat) : Nat → Frontier → Option (List Nat)
  | 0, _ => none
  | rounds + 1, f =>
    match Offer.first? f.offers with
    | none => none
    | some o =>
      if o.slot = goal then some (unwind f.previous goal)
      else
        let f := { f with offers := f.offers.filter (·.order != o.order) }
        if f.cost o.slot < o.cost then run adj weight goal rounds f
        else run adj weight goal rounds ((adj.entries o.slot).foldl (extend weight o) f)

end Frontier

namespace Graph

/-- The weight of an edge by its position. -/
def weightAt (g : Graph) (edge : Nat) : Float :=
  (g.edges[edge]?.map (·.weight)).getD Edge.defaultWeight

/-- A path of least total weight from one node to another; none if some edge has a
    negative weight. Every slot is extended once at most, so there are no more offers
    than entries, and the first one. -/
def cheapestPath? (g : Graph) (start target : String) : Option (List String) := do
  if g.edges.any (fun e => e.weight < 0.0) then none
  else
    let adj := Adjacency.build g g.directed
    let origin ← adj.slot? start
    let goal ← adj.slot? target
    let rounds := adj.slots.flatten.length + 1
    let path ← Frontier.run adj g.weightAt goal rounds (Frontier.start adj.size origin)
    return adj.names path

end Graph

end GraphScript
