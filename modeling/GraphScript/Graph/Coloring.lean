import GraphScript.Graph.Adjacency

/-!
# Greedy colouring

The nodes are coloured in their order, each with the least number that no
neighbour coloured before it has. Directions of edges do not matter, and a loop
never stands in the way.
-/

namespace GraphScript

/-- The least number up to `bound` that is not in the list. -/
def leastFree (used : List Nat) (bound : Nat) : Nat :=
  ((List.range (bound + 1)).find? fun n => !used.contains n).getD (bound + 1)

namespace Adjacency

/-- The colours of the slots. A neighbour has a colour already when its slot is
    among those coloured so far. -/
def colors (adj : Adjacency) : List Nat :=
  adj.slots.foldl (fun colors entries =>
    colors ++ [leastFree (entries.filterMap fun e => colors[e.slot]?) entries.length]) []

end Adjacency

namespace Graph

/-- The nodes with their colours. -/
def coloring (g : Graph) : List (String × Nat) :=
  g.ids.zip (Adjacency.undirected g).colors

/-- The number of colours of the greedy colouring. -/
def chromaticNumber (g : Graph) : Nat :=
  (g.coloring.map (·.2 + 1)).foldl max 0

end Graph

end GraphScript
