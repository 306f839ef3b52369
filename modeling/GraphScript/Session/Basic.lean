import GraphScript.Environment
import GraphScript.Script.Item
import GraphScript.Store

/-!
# Sessions

A session holds the graphs, the variables and its limits, and keeps them from one
run to the next. What it says of a text that is no expression is up to the reader of
expressions, and comes with the session. A run is told by its *summary*: how many
statements succeeded and failed, the last message, and a diagnostic for each failure.

A statement is carried out by an `Action`: it reads and changes the session and
ends with a message or an error. An error does not take back what was changed
before it or by the change that failed, so that "a failed statement changes
nothing" is a property of the statements and of the changes they make, and not of
the type.
-/

namespace GraphScript

/-- The limits of a session, and the graph it starts with. -/
structure Config where
  /-- How often the body of a `While` runs at most. -/
  whileIterationLimit : Nat := 100
  /-- How deep blocks may nest. -/
  maxBlockDepth : Nat := defaultCeiling
  /-- The name of the first graph. -/
  defaultGraph : String := "main"
  deriving DecidableEq, Repr

/-- How a run went. The counts have no bound: a program that counts in machine words
    agrees with them as long as a word can hold the number of statements of the run. -/
structure Summary where
  success : Nat := 0
  errors : Nat := 0
  /-- The message of the last statement, whether it succeeded or failed. -/
  lastMessage : String := ""
  /-- All failures, in the order of their occurrence. -/
  diagnostics : List Diagnostic := []
  deriving DecidableEq, Repr

namespace Summary

/-- Whether nothing failed. -/
def isClean (s : Summary) : Bool :=
  s.errors == 0

/-- Counts a success. -/
def succeed (s : Summary) (message : String) : Summary :=
  { s with success := s.success + 1, lastMessage := message }

/-- Counts a failure on a line. -/
def fail (s : Summary) (line : Nat) (error : Error) : Summary :=
  let diagnostic := Diagnostic.ofError line error
  { s with
    errors := s.errors + 1
    lastMessage := diagnostic.render
    diagnostics := s.diagnostics ++ [diagnostic] }

end Summary

/-- Graphs, variables and limits. -/
structure Session where
  store : Store
  env : Environment
  config : Config
  /-- What is said of a text that does not follow the grammar of expressions. -/
  syntaxReason : String → String

namespace Session

/-- A fresh session. -/
def new (config : Config) (syntaxReason : String → String := Environment.plainReason) :
    Session where
  store := Store.new config.defaultGraph
  env := Environment.empty
  config := config
  syntaxReason := syntaxReason

/-- The graph that statements work on. -/
def graph (s : Session) : Graph :=
  s.store.current

/-- The session with another graph in the place of the current one. -/
def setGraph (s : Session) (g : Graph) : Session :=
  { s with store := s.store.setCurrent g }

/-- The current graph and the names of all graphs. -/
def snapshot (s : Session) : Snapshot :=
  s.store.snapshot

/-- The value of an expression. -/
def evaluate (s : Session) (source : String) : Except Error Float :=
  s.env.evaluate s.syntaxReason source

end Session

/-- What a statement does to a session. -/
abbrev Action := ExceptT Error (StateM Session)

namespace Action

/-- Goes on with a result, or fails with its error. -/
def ofExcept {α : Type} : Except Error α → Action α
  | .ok a => pure a
  | .error error => throw error

/-- The current graph. -/
def graph : Action Graph := do
  return (← get).graph

/-- Makes a change of the current graph. What it leaves behind takes the place of the
    graph, also if it fails. -/
def changeGraph {α : Type} (change : Graph → Except Error α × Graph) : Action α := do
  let (result, g) := change (← graph)
  modify (·.setGraph g)
  ofExcept result

/-- Makes a change of the store. What it leaves behind takes the place of the store,
    also if it fails. -/
def changeStore {α : Type} (change : Store → Except Error α × Store) : Action α := do
  let (result, store) := change (← get).store
  modify ({ · with store := store })
  ofExcept result

/-- A word with the value of a variable in the place of `$name`. -/
def resolve (word : String) : Action String := do
  ofExcept ((← get).env.resolve word)

/-- The value of an expression. -/
def evaluate (source : String) : Action Float := do
  ofExcept ((← get).evaluate source)

end Action

end GraphScript
