import GraphScript.Cli.Arguments
import GraphScript.Cli.ConfigFile
import GraphScript.Cli.Prompt
import GraphScript.Host
import GraphScript.Text.Quoted

/-!
# Commands

What the commands print, the files they write and the code they end with, as a
function of the arguments, the standard input and the files. A script that has
failures ends with code 1, and so does a command that fails itself, which prints
nothing but its error. A command line that cannot be understood ends with code 2.
-/

namespace GraphScript.Cli

/-- What is found under the name of a file. -/
inductive FileContent where
  | missing
  | unreadable
  | text (content : String)
  deriving DecidableEq, Repr

/-- What a command can see. -/
structure World where
  input : String
  file : String → FileContent

/-- What a command produces. -/
structure Product where
  exitCode : Nat
  /-- The text, given the time in milliseconds that the command took. -/
  text : Nat → String
  /-- The file for the text; without one the text is printed. -/
  target : Option String := none

/-- What a command leaves behind. -/
structure Outcome where
  exitCode : Nat
  printed : String := ""
  error : Option String := none
  /-- The name and the content of the file that is written. -/
  written : Option (String × String) := none
  deriving DecidableEq, Repr

/-- The code for failures: one if there are any. -/
def failureCode (clean : Bool) : Nat :=
  if clean then 0 else 1

/-- The text of a script: the standard input, a file, or the argument itself if there is
    no such file. -/
def World.script (w : World) (input : String) : Except String String :=
  if input = "-" then .ok w.input
  else match w.file input with
    | .text content => .ok content
    | .unreadable => .error s!"Failed to read file: {input}"
    | .missing => .ok input

/-- The limits in a file. Blocks have to be allowed, and the first graph needs a name
    without blanks. -/
def World.config (w : World) : Option String → Except String Config
  | none => .ok {}
  | some path =>
    match w.file path with
    | .missing | .unreadable => .error s!"Failed to read config: {path}"
    | .text content =>
      match (ConfigFile.parse? content).bind Config.ofFields? with
      | none => .error s!"Invalid config file: {path}"
      | some config =>
        if config.maxBlockDepth = 0 then
          .error s!"Invalid config file: {path}: max_block_depth must be at least 1"
        else if config.defaultGraph = "" || config.defaultGraph.toList.any Text.isBlank then
          let name := Text.quoted config.defaultGraph
          .error s!"Invalid config file: {path}: default_graph {name} is not a graph name"
        else .ok config

/-- The text of a summary. -/
def summaryText (s : Summary) : String :=
  String.join (s.diagnostics.map fun d => d.render ++ "\n") ++
    s!"Executed {s.success} statements successfully, {s.errors} errors.\n" ++
    if s.lastMessage = "" then "" else s!"Last message: {s.lastMessage}\n"

/-- The report on a run that took the given time in milliseconds. -/
def runJson (run : Run) (elapsed : Nat) : Json :=
  .obj [("success", .nat run.summary.success), ("errors", .nat run.summary.errors),
    ("last_message", .str run.summary.lastMessage),
    ("current_graph", .str run.session.graph.name),
    ("diagnostics", .arr (run.summary.diagnostics.map Diagnostic.toJson)),
    ("elapsed_ms", .nat elapsed)]

/-- The report on the structure of a script. -/
def checkJson (script : Script) : Json :=
  .obj [("valid", .bool script.diagnostics.isEmpty), ("statements", .nat script.statementCount),
    ("diagnostics", .arr (script.diagnostics.map Diagnostic.toJson))]

/-- The text on the structure of a script. -/
def checkText (script : Script) : String :=
  let found := script.diagnostics
  (if found.isEmpty then s!"✓ {script.statementCount} statements, no structural problems\n"
    else s!"✗ {found.length} structural problems\n") ++
    String.join (found.map fun d => s!"  [{d.code}] " ++ d.render ++ "\n")

/-- JSON on one line or on several. -/
def jsonText (j : Json) (pretty : Bool) : String :=
  (if pretty then j.pretty else j.compact) ++ "\n"

/-- What a command produces. -/
def Command.execute (w : World) : Command → Except String Product
  | .run input config output json pretty => do
    let source ← w.script input
    let run := (Session.new (← w.config config)).run source
    return {
      exitCode := failureCode run.summary.isClean
      text := fun elapsed =>
        if json then jsonText (runJson run elapsed) pretty else summaryText run.summary
      target := output }
  | .check input json => do
    let script := Script.parse (← w.script input) defaultCeiling
    return {
      exitCode := failureCode script.diagnostics.isEmpty
      text := fun _ => if json then jsonText (checkJson script) true else checkText script }
  | .repl config => do
    let prompt := Prompt.converse (Session.new (← w.config config)) w.input
    return { exitCode := 0, text := fun _ => String.join (prompt.shown.map (· ++ "\n")) }
  | .snapshot input config output pretty => do
    let source ← w.script input
    let run := (Session.new (← w.config config)).run source
    return {
      exitCode := 0
      text := fun _ => jsonText run.session.snapshot.toJson pretty
      target := output }

/-- What a product leaves behind, if it is known which files can be written. -/
def Product.deliver (p : Product) (writable : String → Bool) (elapsed : Nat) : Outcome :=
  match p.target with
  | none => { exitCode := p.exitCode, printed := p.text elapsed }
  | some path =>
    if writable path then { exitCode := p.exitCode, written := some (path, p.text elapsed) }
    else { exitCode := 1, error := some s!"Failed to write to: {path}" }

/-- The version that `version` prints. -/
def versionText : String :=
  "pen-cli 0.1.0\n"

/-- What a command line leaves behind, if it is known which files can be written and how
    long a command takes. -/
def execute (args : List String) (w : World) (writable : String → Bool) (elapsed : Nat) :
    Outcome :=
  match Request.parse? args with
  | none => { exitCode := 2 }
  | some .version => { exitCode := 0, printed := versionText }
  | some (.command command) =>
    match command.execute w with
    | .ok product => product.deliver writable elapsed
    | .error error => { exitCode := 1, error := some error }

/-- The files that a command looks at. -/
def Command.paths : Command → List String
  | .run input config _ _ _ => input :: config.toList
  | .check input _ => [input]
  | .repl config => config.toList
  | .snapshot input config _ _ => input :: config.toList

/-- Whether a command reads the standard input. -/
def Command.readsInput : Command → Bool
  | .run input .. => input == "-"
  | .check input _ => input == "-"
  | .repl _ => true
  | .snapshot input .. => input == "-"

end GraphScript.Cli
