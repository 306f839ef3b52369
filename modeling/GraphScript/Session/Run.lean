import GraphScript.Example
import GraphScript.Session.Verbs

/-!
# Runs

A run carries out the items of a script one after the other. A failure is counted
in the summary, and the run goes on.

* `runBlock` enters a block: the condition of an `If` or `While` and the bounds of
  a `For` are evaluated against the session as it is, and an error in them leaves
  the block without any effect.
* `whileLoop` runs its body as long as a condition holds, up to a limit;
  `countLoop` runs it once for each number of a `For`.
* `playExample` empties the current graph and plays the bundled example into it, at
  the depth of the statement that asks for it, and drops the summary of that. It
  takes the number of times that an example may play itself in turn. The bundled
  example does not, so that once is enough.
-/

namespace GraphScript

/-- A session in the middle of a run. -/
structure Run where
  session : Session
  summary : Summary

namespace Run

/-- Counts a failure on a line. -/
def fail (run : Run) (line : Nat) (error : Error) : Run :=
  { run with summary := run.summary.fail line error }

/-- Carries out an action and counts how it ends. -/
def perform (run : Run) (line : Nat) (action : Action String) : Run :=
  match action.run.run run.session with
  | (.ok message, session) => { session := session, summary := run.summary.succeed message }
  | (.error error, session) => { session := session, summary := run.summary.fail line error }

/-- Gives a variable a value. -/
def setVariable (run : Run) (name : String) (value : Float) : Run :=
  { run with session := { run.session with env := run.session.env.set name value } }

/-- Whether a condition holds at this point. -/
def holds (condition : Condition) (run : Run) : Except Error Bool :=
  condition.evaluate run.session.graph run.session.env

end Run

/-- How often a `For` runs its body: once for each number from the first to the last in
    steps of one, as far as 64 bits can count. -/
def iterations (first last : Float) : Nat :=
  if last < first then 0
  else min ((last - first).toUInt64.toNat + 1) (UInt64.size - 1)

/-- Runs a body for the given number of steps behind the first number. -/
def countLoop (counter : String) (first : Float) (body : Run → Run) : Nat → Nat → Run → Run
  | 0, _, run => run
  | more + 1, step, run =>
    countLoop counter first body more (step + 1)
      (body (run.setVariable counter (first + Float.ofNat step)))

/-- Runs a body as long as a condition holds, at most the given number of times. Tells
    whether the condition still holds at the end. -/
def whileLoop (holds : Run → Except Error Bool) (body : Run → Run) :
    Nat → Run → Except Error Bool × Run
  | 0, run => (holds run, run)
  | more + 1, run =>
    match holds run with
    | .ok true => whileLoop holds body more (body run)
    | answer => (answer, run)

/-- Enters a block at a depth. -/
def runBlock (header : Header) (depth : Nat) (body : Run → Run) (run : Run) :
    Except Error Unit × Run :=
  if run.session.config.maxBlockDepth ≤ depth then
    (.error (.tooDeep run.session.config.maxBlockDepth), run)
  else match header with
    | .ifBlock condition =>
      match run.holds condition with
      | .error error => (.error error, run)
      | .ok true => (.ok (), body run)
      | .ok false => (.ok (), run)
    | .whileBlock condition =>
      match whileLoop (·.holds condition) body run.session.config.whileIterationLimit run with
      | (.error error, run) => (.error error, run)
      | (.ok _, run) => (.ok (), run)
    | .forBlock counter first last =>
      match run.session.evaluate first with
      | .error error => (.error error, run)
      | .ok first =>
        match run.session.evaluate last with
        | .error error => (.error error, run)
        | .ok last => (.ok (), countLoop counter first body (iterations first last) 0 run)

mutual

/-- Runs items at a depth, given what `Initialize` does there. -/
def runItems (replay : Nat → Action String) (depth : Nat) : List Item → Run → Run
  | [], run => run
  | item :: rest, run => runItems replay depth rest (runItem replay depth item run)

/-- Runs an item at a depth, given what `Initialize` does there. -/
def runItem (replay : Nat → Action String) (depth : Nat) : Item → Run → Run
  | .statement line text, run =>
    run.perform line ((Statement.ofText text).carryOut (replay depth))
  | .block line header body, run =>
    match runBlock header depth (runItems replay (depth + 1) body) run with
    | (.ok (), run) => run
    | (.error error, run) => run.fail line error
  | .broken line error, run => run.fail line error

end

/-- What `Initialize` does at a depth. -/
def playExample : Nat → Nat → Action String
  | 0, _ => do
    modify fun s => { s with store := s.store.reset }
    return "Graph initialized with a default example."
  | replays + 1, depth => do
    modify fun s =>
      let fresh := { s with store := s.store.reset }
      let script := Script.parse exampleText s.config.maxBlockDepth
      (runItems (playExample replays) depth script.items { session := fresh, summary := {} }).session
    return "Graph initialized with a default example."

namespace Session

/-- What a statement does at a depth. -/
def dispatch (text : String) (depth : Nat) : Action String :=
  (Statement.ofText text).carryOut (playExample 1 depth)

/-- Runs a script. -/
def runScript (s : Session) (script : Script) : Run :=
  runItems (playExample 1) 0 script.items { session := s, summary := {} }

/-- Runs a text. -/
def run (s : Session) (source : String) : Run :=
  s.runScript (Script.parse source s.config.maxBlockDepth)

end Session

end GraphScript
