import GraphScript.Script.Header
import GraphScript.Script.Token

/-!
# Scripts

The items of a script are statements, blocks of items, and *broken* items for
what could not be made into one. `Script.parse` assembles them from the tokens
under a ceiling on how deep blocks may nest.

* A header at the ceiling is a broken item, and its block is skipped up to the
  closing brace that matches it.
* A header that cannot be read makes its whole block one broken item.
* A closing brace without an open block is a broken item.
* At the end, the blocks still open are given up from the innermost on. Each is a
  broken item of the block around it and what it held is dropped, so only the one
  for the outermost is left.
-/

namespace GraphScript

/-- An item of a script, with the line it starts on. -/
inductive Item where
  | statement (line : Nat) (text : String)
  | block (line : Nat) (header : Header) (body : List Item)
  | broken (line : Nat) (error : Error)

/-- The line that an item starts on. -/
def Item.line : Item → Nat
  | .statement line _ => line
  | .block line _ _ => line
  | .broken line _ => line

/-- The failure of blocks that nest too deep. -/
def Error.tooDeep (ceiling : Nat) : Error :=
  .malformed s!"Blocks nest deeper than {ceiling} levels."

/-- A block whose closing brace is still to come. -/
structure Frame where
  line : Nat
  header : String
  body : List Item

namespace Frame

/-- The item of a block that is closed. -/
def close (f : Frame) : Item :=
  match Header.parse f.header with
  | .ok header => .block f.line header f.body
  | .error error => .broken f.line error

/-- The item of a block that is never closed. -/
def abandon (f : Frame) : Item :=
  .broken f.line (.malformed s!"Block `{f.header} \x7b` is never closed.")

end Frame

/-- The state of the assembly. -/
structure Assembly where
  /-- The items outside of all open blocks. -/
  items : List Item
  /-- The open blocks, the innermost first. -/
  frames : List Frame
  /-- The number of closing braces that end the skipping of a block. -/
  skipping : Nat

namespace Assembly

/-- Nothing assembled. -/
def start : Assembly where
  items := []
  frames := []
  skipping := 0

/-- Adds an item to the innermost open block. -/
def push (a : Assembly) (item : Item) : Assembly :=
  match a.frames with
  | [] => { a with items := a.items ++ [item] }
  | f :: outer => { a with frames := { f with body := f.body ++ [item] } :: outer }

/-- Takes a token while a block is skipped. -/
def skip (a : Assembly) : Token → Assembly
  | .opening .. => { a with skipping := a.skipping + 1 }
  | .closing _ => { a with skipping := a.skipping - 1 }
  | .statement .. | .unterminated _ => a

/-- Takes a token. -/
def step (ceiling : Nat) (a : Assembly) (token : Token) : Assembly :=
  if 0 < a.skipping then a.skip token
  else match token with
    | .statement line text => a.push (.statement line text)
    | .unterminated line =>
      a.push (.broken line (.malformed "Each statement must end with a period."))
    | .opening line header =>
      if ceiling ≤ a.frames.length then
        { a.push (.broken line (.tooDeep ceiling)) with skipping := 1 }
      else { a with frames := { line := line, header := header, body := [] } :: a.frames }
    | .closing line =>
      match a.frames with
      | [] => a.push (.broken line (.malformed "Unexpected closing brace."))
      | f :: outer => { a with frames := outer }.push f.close

/-- Gives up the open blocks, the innermost first, for at most the given number of rounds. -/
def giveUp : Nat → Assembly → Assembly
  | 0, a => a
  | rounds + 1, a =>
    match a.frames with
    | [] => a
    | f :: outer => giveUp rounds ({ a with frames := outer }.push f.abandon)

/-- The items at the end of the tokens. -/
def finish (a : Assembly) : List Item :=
  (giveUp a.frames.length a).items

end Assembly

/-- A script ready to run. -/
structure Script where
  items : List Item

/-- How deep blocks may nest if nothing else is said. -/
def defaultCeiling : Nat := 64

mutual

/-- The failures among items, in the order of the text. -/
def Item.diagnosticsOf : List Item → List Diagnostic
  | [] => []
  | item :: rest => item.diagnostics ++ Item.diagnosticsOf rest

/-- The failures within an item, in the order of the text. -/
def Item.diagnostics : Item → List Diagnostic
  | .statement .. => []
  | .block _ _ body => Item.diagnosticsOf body
  | .broken line error => [.ofError line error]

end

mutual

/-- The number of statements among items, at any depth. -/
def Item.statementsOf : List Item → Nat
  | [] => 0
  | item :: rest => item.statements + Item.statementsOf rest

/-- The number of statements within an item. -/
def Item.statements : Item → Nat
  | .statement .. => 1
  | .block _ _ body => Item.statementsOf body
  | .broken .. => 0

end

namespace Script

/-- The script of a text, with blocks that nest no deeper than a ceiling. -/
def parse (source : String) (ceiling : Nat) : Script where
  items := ((Token.scan source).foldl (Assembly.step ceiling) Assembly.start).finish

/-- The failures found in a script before it runs. -/
def diagnostics (s : Script) : List Diagnostic :=
  Item.diagnosticsOf s.items

/-- The number of statements of a script, those in loops counted once. -/
def statementCount (s : Script) : Nat :=
  Item.statementsOf s.items

end Script

end GraphScript
