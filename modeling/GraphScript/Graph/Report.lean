import GraphScript.Graph.Checks
import GraphScript.Graph.Coloring

/-!
# The structural report

All counts and checks of a graph in one record, and their text on one line.
-/

namespace GraphScript

/-- The structural properties of a graph. -/
structure Report where
  nodeCount : Nat
  edgeCount : Nat
  directed : Bool
  weighted : Bool
  connected : Bool
  acyclic : Bool
  tree : Bool
  forest : Bool
  simple : Bool
  regular : Bool
  complete : Bool
  bipartite : Bool
  chromaticNumber : Nat
  deriving DecidableEq, Repr

/-- The report on a graph, by a machine with words of a size. -/
def Graph.report (g : Graph) (word : Nat := wordSize) : Report where
  nodeCount := g.nodes.length
  edgeCount := g.edges.length
  directed := g.directed
  weighted := g.weighted
  connected := g.isConnected
  acyclic := g.isAcyclic
  tree := g.isTree
  forest := g.isForest
  simple := g.isSimple
  regular := g.isRegular
  complete := g.isComplete word
  bipartite := g.isBipartite
  chromaticNumber := g.chromaticNumber

/-- The report on one line. -/
def Report.summary (r : Report) : String :=
  s!"{r.nodeCount} nodes, {r.edgeCount} edges; connected={r.connected}, acyclic={r.acyclic}, " ++
    s!"tree={r.tree}, forest={r.forest}, simple={r.simple}, regular={r.regular}, " ++
    s!"complete={r.complete}, bipartite={r.bipartite}, chromatic number={r.chromaticNumber}"

end GraphScript
