import GraphScript.Condition
import GraphScript.Text.Lines

/-!
# Block headers

The text in front of an opening brace: `If` or `While` and a condition, or
`For` with a variable and two bounds, which are expressions.
-/

namespace GraphScript

open Text

/-- The header of a block. -/
inductive Header where
  | ifBlock (condition : Condition)
  | whileBlock (condition : Condition)
  /-- Counts a variable from a first to a last number. -/
  | forBlock (counter first last : String)
  deriving DecidableEq, Repr

namespace Header

/-- Reads what follows `For`: a name, an equals sign and two bounds with `to` in
    between, all of them not empty. -/
def parseRange? (text : List Char) : Option Header := do
  let (counter, bounds) ← cut? ['='] text
  let (first, last) ← cut? " to ".toList bounds
  let counter := trim counter
  let first := trim first
  let last := trim last
  if counter.isEmpty || !counter.all isNameChar || first.isEmpty || last.isEmpty then none
  else return .forBlock (String.ofList counter) (String.ofList first) (String.ofList last)

/-- Reads a header. -/
def parse (header : String) : Except Error Header :=
  let text := trim header.toList
  match "If ".toList.isPrefixOf? text with
  | some condition => (Condition.parse condition).map .ifBlock
  | none =>
    match "While ".toList.isPrefixOf? text with
    | some condition => (Condition.parse condition).map .whileBlock
    | none =>
      match "For ".toList.isPrefixOf? text with
      | some range =>
        match parseRange? range with
        | some header => .ok header
        | none => .error (.malformed <|
          s!"Invalid FOR header: {String.ofList text} " ++
            "(expected `For <var> = <start> to <end> \x7b`)")
      | none => .error (.malformed s!"Invalid command: {String.ofList text} \x7b")

end Header

end GraphScript
