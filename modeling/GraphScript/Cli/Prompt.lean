import GraphScript.Session.Run

/-!
# The prompt

Statements are read line by line and run in chunks: a chunk runs as soon as every
block it opens is closed (`isComplete`), and what is left at the end of the input
runs then. After each run its failures are shown, and then its last message
unless it is that of the last failure.
-/

namespace GraphScript.Cli

/-- The blocks open behind a text, less the closing braces that close none. Braces in
    double quotes do not count, and quotes reach beyond their line. -/
def openBlocks (depth : Int) (quoted : Bool) : List Char → Int
  | [] => depth
  | c :: rest =>
    if c = '"' then openBlocks depth (!quoted) rest
    else if c = '\x7b' && !quoted then openBlocks (depth + 1) quoted rest
    else if c = '\x7d' && !quoted then openBlocks (depth - 1) quoted rest
    else openBlocks depth quoted rest

/-- Whether a chunk is ready to run. -/
def isComplete (chunk : List Char) : Bool :=
  openBlocks 0 false chunk ≤ 0

/-- What is shown after a run. -/
def messages (s : Summary) : List String :=
  let failures := s.diagnostics.map Diagnostic.render
  if s.lastMessage = "" ∨ failures.getLast? = some s.lastMessage then failures
  else failures ++ [s.lastMessage]

/-- A session at the prompt. -/
structure Prompt where
  session : Session
  /-- The lines that wait for a block to be closed. -/
  pending : List Char := []
  /-- What has been shown so far. -/
  shown : List String := []

namespace Prompt

/-- Runs the lines that wait. -/
def flush (p : Prompt) : Prompt :=
  let run := p.session.run (String.ofList p.pending)
  { session := run.session, pending := [], shown := p.shown ++ messages run.summary }

/-- Takes a line. -/
def feed (p : Prompt) (line : List Char) : Prompt :=
  let p := { p with pending := p.pending ++ line ++ ['\n'] }
  if isComplete p.pending then p.flush else p

/-- Takes the end of the input. -/
def finish (p : Prompt) : Prompt :=
  if p.pending.all Text.isBlank then p else p.flush

/-- Takes a whole input. -/
def converse (s : Session) (input : String) : Prompt :=
  ((Text.lines input.toList).foldl feed { session := s }).finish

end Prompt

end GraphScript.Cli
