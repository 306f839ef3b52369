import GraphScript.Json.Printer
import GraphScript.Record.Graph
import GraphScript.Record.Session
import GraphScript.Session.Run

/-!
# The host surface

What a host that draws graphs gets from a session: the outcome of a run and the
current graph, both as compact JSON. Keys of the outcome are in camel case.
-/

namespace GraphScript.Session

/-- A fresh session with the same limits. -/
def restart (s : Session) : Session :=
  Session.new s.config s.syntaxReason

/-- The outcome of a run for a host. -/
def outcomeJson (run : Run) : Json :=
  .obj [("success", .nat run.summary.success), ("errors", .nat run.summary.errors),
    ("lastMessage", .str run.summary.lastMessage),
    ("diagnostics", .arr (run.summary.diagnostics.map Diagnostic.toJson)),
    ("currentGraph", .str run.session.graph.name)]

/-- Runs a text, and tells a host how it went. -/
def hostRun (s : Session) (source : String) : String × Session :=
  let run := s.run source
  ((outcomeJson run).compact, run.session)

/-- The current graph for a host. -/
def hostSnapshot (s : Session) : String :=
  s.snapshot.toJson.compact

end GraphScript.Session
