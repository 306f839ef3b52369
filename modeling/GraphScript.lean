import GraphScript.Main
import GraphScript.Proofs.Cli.Chunks
import GraphScript.Proofs.Cli.Prompt
import GraphScript.Proofs.Condition
import GraphScript.Proofs.Decimal.Integer
import GraphScript.Proofs.Decimal.Literal
import GraphScript.Proofs.Double.Integer
import GraphScript.Proofs.Double.OfNat
import GraphScript.Proofs.Expr.Grammar
import GraphScript.Proofs.Expr.Reading
import GraphScript.Proofs.Expr.Size
import GraphScript.Proofs.Expr.Writing
import GraphScript.Proofs.Graph.Coloring
import GraphScript.Proofs.Graph.Components
import GraphScript.Proofs.Graph.Connectivity
import GraphScript.Proofs.Graph.Contraction
import GraphScript.Proofs.Graph.Cycles
import GraphScript.Proofs.Graph.Distance
import GraphScript.Proofs.Graph.Forest
import GraphScript.Proofs.Graph.Pairs
import GraphScript.Proofs.Graph.Parents
import GraphScript.Proofs.Graph.Removal
import GraphScript.Proofs.Graph.Report
import GraphScript.Proofs.Graph.Route
import GraphScript.Proofs.Graph.ShortestPath
import GraphScript.Proofs.Graph.Sides
import GraphScript.Proofs.Graph.Subdivision
import GraphScript.Proofs.Graph.TieBreak
import GraphScript.Proofs.Graph.UnitWeights
import GraphScript.Proofs.Script.Headers
import GraphScript.Proofs.Script.Lines
import GraphScript.Proofs.Script.Order
import GraphScript.Proofs.Script.Origin
import GraphScript.Proofs.Script.Outline
import GraphScript.Proofs.Script.Pruning
import GraphScript.Proofs.Session.Addressable
import GraphScript.Proofs.Session.Blocks
import GraphScript.Proofs.Session.Counting
import GraphScript.Proofs.Session.Creation
import GraphScript.Proofs.Session.Example
import GraphScript.Proofs.Session.Failures
import GraphScript.Proofs.Session.Graphs
import GraphScript.Proofs.Session.Initialize
import GraphScript.Proofs.Session.Locality
import GraphScript.Proofs.Session.ParallelEdges
import GraphScript.Proofs.Session.Paths
import GraphScript.Proofs.Session.Rounds
import GraphScript.Proofs.Session.Snapshot
import GraphScript.Proofs.Session.Tally
import GraphScript.Proofs.Session.Termination
import GraphScript.Proofs.Session.Traversal
import GraphScript.Proofs.Spacing
import GraphScript.Proofs.Value
