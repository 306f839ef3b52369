/-!
# Lines and cuts

A line ends at a line feed, and the last line of a text may do without one:
`lines` gives the lines without their line feeds, so that a text that ends in a
line feed has no empty line after it. A carriage return before a line feed stays
in its line; it is a blank, and every reader of lines trims them. `unlines` puts
lines together again.

`cut?` splits a text around the first occurrence of a separator.
-/

namespace GraphScript.Text

/-- The lines of a text, without the line feeds that end them. -/
def lines : List Char → List (List Char)
  | [] => []
  | c :: rest =>
    if c = '\n' then [] :: lines rest
    else match lines rest with
      | line :: more => (c :: line) :: more
      | [] => [[c]]

/-- The text with the given lines, each ended by a line feed. -/
def unlines (ls : List (List Char)) : List Char :=
  ls.flatMap (· ++ ['\n'])

/-- The parts of a text before and after the first occurrence of `separator`. -/
def cut? (separator : List Char) : List Char → Option (List Char × List Char)
  | [] => if separator.isEmpty then some ([], []) else none
  | c :: rest =>
    match separator.isPrefixOf? (c :: rest) with
    | some after => some ([], after)
    | none => (cut? separator rest).map fun (before, after) => (c :: before, after)

end GraphScript.Text
