import GraphScript.Text.Blank
import GraphScript.Text.Lines

/-!
# Script tokens

A script is read line by line. Blank lines and lines that start with `//` are
left out. In all others, outside of double quotes,

* a period that a blank, a closing brace or the end of the line follows ends a
  statement;
* an opening brace ends the header of a block;
* a closing brace ends a block.

A text in front of a closing brace or the end of the line that no period ends is
a statement left unterminated. Quotes do not reach beyond their line.
-/

namespace GraphScript

open Text

/-- A piece of a script, with the line it stands on. -/
inductive Token where
  /-- A statement without its period. -/
  | statement (line : Nat) (text : String)
  /-- A statement without a period. -/
  | unterminated (line : Nat)
  /-- The header of a block, without its brace. -/
  | opening (line : Nat) (header : String)
  | closing (line : Nat)
  deriving DecidableEq, Repr

namespace Token

/-- The report on a text that no period ends, unless it is blank. -/
def leftover (line : Nat) (pending : List Char) : List Token :=
  if pending.all isBlank then [] else [.unterminated line]

/-- The text of a piece: its characters, of which the last comes first. -/
def piece (pending : List Char) : String :=
  String.ofList (trim pending.reverse)

/-- Whether a period in front of this text ends a statement. -/
def endsStatement (rest : List Char) : Bool :=
  rest.head?.all fun c => isBlank c || c == '\x7d'

/-- The tokens of the rest of a line, inside or outside of quotes, behind the
    characters of an unfinished piece, the last of them first. -/
def scanLine (line : Nat) (quoted : Bool) (pending : List Char) : List Char → List Token
  | [] => leftover line pending
  | c :: rest =>
    if c = '"' then scanLine line (!quoted) (c :: pending) rest
    else if quoted then scanLine line quoted (c :: pending) rest
    else if c = '.' && endsStatement rest then
      .statement line (piece pending) :: scanLine line false [] rest
    else if c = '\x7b' then .opening line (piece pending) :: scanLine line false [] rest
    else if c = '\x7d' then
      leftover line pending ++ .closing line :: scanLine line false [] rest
    else scanLine line false (c :: pending) rest

/-- The tokens of a line. -/
def ofLine (line : Nat) (text : List Char) : List Token :=
  match trim text with
  | [] => []
  | '/' :: '/' :: _ => []
  | trimmed => scanLine line false [] trimmed

/-- The tokens of lines that are counted from a number on. -/
def ofLines (first : Nat) : List (List Char) → List Token
  | [] => []
  | line :: rest => ofLine first line ++ ofLines (first + 1) rest

/-- The tokens of a script. -/
def scan (source : String) : List Token :=
  ofLines 1 (lines source.toList)

end Token

end GraphScript
