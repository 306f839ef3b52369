import GraphScript.Cli.Command

/-!
# The command line

Reads what a command needs, and delivers what it leaves behind.
-/

namespace GraphScript.Cli

/-- What is found under the name of a file. -/
def lookUp (path : String) : IO FileContent := do
  try
    return .text (← IO.FS.readFile path)
  catch
    | .noFileOrDirectory .. => return .missing
    | _ => return .unreadable

/-- Reads a stream to its end. -/
partial def readAll (stream : IO.FS.Stream) (text : String) : IO String := do
  let line ← stream.getLine
  if line.isEmpty then return text else readAll stream (text ++ line)

/-- Prints what the prompt has to show. -/
def present (p : Prompt) : IO Prompt := do
  p.shown.forM IO.println
  return { p with shown := [] }

/-- Talks to the prompt line by line. -/
partial def talk (stream : IO.FS.Stream) (p : Prompt) : IO Unit := do
  let line ← stream.getLine
  if line.isEmpty then
    let _ ← present p.finish
  else
    let text := line.toList
    talk stream (← present (p.feed (if text.getLast? = some '\n' then text.dropLast else text)))

/-- Prints a failure of the command itself. -/
def complain (message : String) : IO UInt32 := do
  IO.eprintln s!"Error: {message}"
  return 1

/-- Writes a product to its file or prints it. -/
def deliver (p : Product) (elapsed : Nat) : IO UInt32 := do
  match p.target with
  | none => IO.print (p.text elapsed)
  | some path =>
    try
      IO.FS.writeFile path (p.text elapsed)
    catch _ => return ← complain s!"Failed to write to: {path}"
  return p.exitCode.toUInt32

/-- Carries out a command. -/
def carryOut (command : Command) : IO UInt32 := do
  let start ← IO.monoMsNow
  let files ← command.paths.mapM fun path => return (path, ← lookUp path)
  let stdin ← IO.getStdin
  let file := fun path => (files.lookup path).getD .missing
  if let .repl config := command then
    match World.config { input := "", file := file } config with
    | .error message => complain message
    | .ok config =>
      talk stdin { session := Session.new config }
      return 0
  else
    let input ← if command.readsInput then readAll stdin "" else pure ""
    match command.execute { input := input, file := file } with
    | .error message => complain message
    | .ok product => deliver product ((← IO.monoMsNow) - start)

/-- Answers a command line. -/
def answer (args : List String) : IO UInt32 := do
  match Request.parse? args with
  | none =>
    IO.eprintln "usage: run | check | repl | snapshot"
    return 2
  | some .version =>
    IO.print versionText
    return 0
  | some (.command command) => carryOut command

end GraphScript.Cli

def main (args : List String) : IO UInt32 :=
  GraphScript.Cli.answer args
