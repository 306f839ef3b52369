import GraphScript.Text.Lines

/-!
# Command-line arguments

The arguments name a command, and behind it come its options and at most one
input.

* An option has a long name behind two dashes and may have a letter behind one.
  Letters can be put together behind one dash.
* A value follows its option as the next argument, behind an equals sign, or
  right behind the letter. The next argument is no value if it starts with a dash,
  a lone dash apart.
* Behind two dashes alone, all arguments are inputs.
* Options may be given once, except `verbose`.

The options `verbose` and `quiet` belong to all commands and may also stand in
front of the command, and so may `version`, which asks for the version at once.
-/

namespace GraphScript.Cli

/-- A command with its options. An input of `-` is the standard input. -/
inductive Command where
  /-- Runs a script and tells how it went. -/
  | run (input : String) (config output : Option String) (json pretty : Bool)
  /-- Looks for structural problems of a script without running it. -/
  | check (input : String) (json : Bool)
  /-- Runs statements as soon as they are complete. -/
  | repl (config : Option String)
  /-- Runs a script and prints the current graph. -/
  | snapshot (input : String) (config output : Option String) (pretty : Bool)
  deriving DecidableEq, Repr

/-- What a command line asks for. -/
inductive Request where
  | version
  | command (command : Command)
  deriving DecidableEq, Repr

/-- An option that a command knows. -/
structure Flag where
  name : String
  letter : Option Char := none
  takesValue : Bool := false
  deriving DecidableEq, Repr

/-- An option as it is given. -/
structure Given where
  name : String
  value : Option String := none
  deriving DecidableEq, Repr

/-- The options and inputs of a command line. -/
structure Arguments where
  given : List Given := []
  inputs : List String := []
  deriving DecidableEq, Repr

/-- The options of all commands. -/
def globalFlags : List Flag :=
  [{ name := "verbose", letter := some 'v' }, { name := "quiet", letter := some 'q' }]

/-- The option that names a file of limits. -/
def configFlag : Flag := { name := "config", letter := some 'c', takesValue := true }

/-- The option that names a file for the output. -/
def outputFlag : Flag := { name := "output", letter := some 'o', takesValue := true }

/-- The option for output as JSON. -/
def jsonFlag : Flag := { name := "json" }

/-- The option for JSON over several lines. -/
def prettyFlag : Flag := { name := "pretty" }

/-- Reads letters behind a dash. The last of them may need the next argument as its
    value; its name is then the second part. -/
def readLetters? (flags : List Flag) : List Char → Option (List Given × Option String)
  | [] => some ([], none)
  | c :: rest =>
    match flags.find? (·.letter == some c) with
    | none => none
    | some flag =>
      if flag.takesValue then
        match rest with
        | [] => some ([], some flag.name)
        | '=' :: value => some ([{ name := flag.name, value := some (String.ofList value) }], none)
        | value => some ([{ name := flag.name, value := some (String.ofList value) }], none)
      else (readLetters? flags rest).map fun (given, pending) =>
        ({ name := flag.name } :: given, pending)

/-- Reads a long name behind two dashes, with a value behind an equals sign if there is
    one. As above, the second part is the name of an option that needs a value. -/
def readName? (flags : List Flag) (text : List Char) : Option (List Given × Option String) :=
  let (name, value) := match Text.cut? ['='] text with
    | some (name, value) => (String.ofList name, some (String.ofList value))
    | none => (String.ofList text, none)
  match flags.find? (·.name == name), value with
  | none, _ => none
  | some flag, some value =>
    if flag.takesValue then some ([{ name := name, value := some value }], none) else none
  | some flag, none =>
    if flag.takesValue then some ([], some name) else some ([{ name := name }], none)

/-- Reads an argument that starts with a dash and is not a lone dash. -/
def readOption? (flags : List Flag) (arg : String) : Option (List Given × Option String) :=
  match arg.toList with
  | '-' :: '-' :: name => readName? flags name
  | '-' :: letters => readLetters? flags letters
  | _ => none

/-- Whether an argument is an option rather than an input. -/
def isOption (arg : String) : Bool :=
  match arg.toList with
  | '-' :: _ :: _ => true
  | _ => false

/-- Reads the arguments behind a command. -/
def readArguments? (flags : List Flag) : List String → Option Arguments
  | [] => some {}
  | "--" :: inputs => some { inputs := inputs }
  | arg :: rest =>
    if isOption arg then
      match readOption? flags arg with
      | none => none
      | some (given, none) =>
        (readArguments? flags rest).map fun more => { more with given := given ++ more.given }
      | some (given, some name) =>
        match rest with
        | [] => none
        | value :: rest =>
          if isOption value then none
          else (readArguments? flags rest).map fun more =>
            { more with given := given ++ { name := name, value := some value } :: more.given }
    else (readArguments? flags rest).map fun more => { more with inputs := arg :: more.inputs }

namespace Arguments

/-- Whether an option is given. -/
def has (a : Arguments) (flag : Flag) : Bool :=
  a.given.any (·.name == flag.name)

/-- The value of an option. -/
def value? (a : Arguments) (flag : Flag) : Option String :=
  (a.given.find? (·.name == flag.name)).bind (·.value)

/-- The input, by default the standard input. -/
def input (a : Arguments) : String :=
  a.inputs.head?.getD "-"

/-- Whether no option is given twice, `verbose` apart, and no more inputs than allowed. -/
def valid (a : Arguments) (inputs : Nat) : Bool :=
  a.inputs.length ≤ inputs &&
    decide ((a.given.map (·.name)).filter (· != "verbose")).Nodup

end Arguments

/-- Reads the arguments of a command, given its name. -/
def readCommand? (name : String) (args : List String) : Option Command := do
  match name with
  | "run" =>
    let a ← readArguments?
      (globalFlags ++ [configFlag, outputFlag, jsonFlag, prettyFlag]) args
    if a.valid 1 then
      return .run a.input (a.value? configFlag) (a.value? outputFlag) (a.has jsonFlag)
        (a.has prettyFlag)
    else none
  | "check" =>
    let a ← readArguments? (globalFlags ++ [jsonFlag]) args
    if a.valid 1 then return .check a.input (a.has jsonFlag) else none
  | "repl" =>
    let a ← readArguments? (globalFlags ++ [configFlag]) args
    if a.valid 0 then return .repl (a.value? configFlag) else none
  | "snapshot" =>
    let a ← readArguments? (globalFlags ++ [configFlag, outputFlag, prettyFlag]) args
    if a.valid 1 then
      return .snapshot a.input (a.value? configFlag) (a.value? outputFlag) (a.has prettyFlag)
    else none
  | _ => none

/-- Reads letters in front of the command: whether `quiet` is among them or was given
    before, or the request for the version. -/
def readLeading? (quiet : Bool) : List Char → Option (Bool ⊕ Request)
  | [] => some (.inl quiet)
  | 'v' :: rest => readLeading? quiet rest
  | 'q' :: rest => if quiet then none else readLeading? true rest
  | 'V' :: _ => some (.inr .version)
  | _ => none

/-- Reads a command line behind options that stood in front of the command. -/
def readRequest? (quiet : Bool) : List String → Option Request
  | [] => none
  | "--version" :: _ => some .version
  | "--verbose" :: rest => readRequest? quiet rest
  | "--quiet" :: rest => if quiet then none else readRequest? true rest
  | arg :: rest =>
    match arg.toList with
    | '-' :: c :: letters =>
      match readLeading? quiet (c :: letters) with
      | none => none
      | some (.inl quiet) => readRequest? quiet rest
      | some (.inr request) => some request
    | _ => (readCommand? arg rest).map .command

/-- What a command line asks for; nothing if it cannot be understood. -/
def Request.parse? (args : List String) : Option Request :=
  readRequest? false args

end GraphScript.Cli
