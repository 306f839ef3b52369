import GraphScript.Decimal.Layout
import GraphScript.Json.Basic

/-!
# Writing JSON

Two texts of a JSON value: `compact` without any blanks, and `pretty` with one
item or field on a line and two blanks of indentation a level.

In strings, the double quote, the backslash and the characters below U+0020 are
escaped and nothing else. A double has the fewest digits that read back, a point
in any case, and an exponent where its magnitude is below `10 ^ (-5)` or from
`10 ^ 16` on.
-/

namespace GraphScript.Json

/-- How doubles are written. -/
def number : Decimal.Style where
  tie := .even
  positional := fun point => -5 < point && point ≤ 16
  whole := ['.', '0']

/-- The hexadecimal digit of a number below sixteen. -/
def hexDigit (n : Nat) : Char :=
  if n < 10 then Char.ofNat ('0'.toNat + n) else Char.ofNat ('a'.toNat + (n - 10))

/-- A character as it stands in a string. -/
def escape (c : Char) : List Char :=
  let n := c.toNat
  if c = '"' then ['\\', '"']
  else if c = '\\' then ['\\', '\\']
  else if n = 0x8 then ['\\', 'b']
  else if n = 0x9 then ['\\', 't']
  else if n = 0xA then ['\\', 'n']
  else if n = 0xC then ['\\', 'f']
  else if n = 0xD then ['\\', 'r']
  else if n < 0x20 then ['\\', 'u', '0', '0', hexDigit (n / 16), hexDigit (n % 16)]
  else [c]

/-- A string in its quotes. -/
def quote (s : String) : List Char :=
  '"' :: (s.toList.flatMap escape ++ ['"'])

/-- The text of a value that is neither an array nor an object. -/
def scalar : Json → List Char
  | .null => "null".toList
  | .bool b => (if b then "true" else "false").toList
  | .int n => (toString n).toList
  | .float x => number.write x
  | .str s => quote s
  | .arr _ | .obj _ => []

mutual

/-- The text of a value without blanks. -/
def compactChars : Json → List Char
  | .arr items => '[' :: (compactItems items ++ [']'])
  | .obj fields => '\x7b' :: (compactFields fields ++ ['\x7d'])
  | other => scalar other

/-- Items with commas between them. -/
def compactItems : List Json → List Char
  | [] => []
  | [item] => compactChars item
  | item :: rest => compactChars item ++ ',' :: compactItems rest

/-- Fields with commas between them. -/
def compactFields : List (String × Json) → List Char
  | [] => []
  | [(key, value)] => quote key ++ ':' :: compactChars value
  | (key, value) :: rest => quote key ++ ':' :: (compactChars value ++ ',' :: compactFields rest)

end

/-- The text of a value without blanks. -/
def compact (j : Json) : String :=
  String.ofList (compactChars j)

/-- The start of a line at a level. -/
def newLine (level : Nat) : List Char :=
  '\n' :: List.replicate (2 * level) ' '

mutual

/-- The text of a value over several lines, at a level of indentation. -/
def prettyChars (level : Nat) : Json → List Char
  | .arr [] => ['[', ']']
  | .arr (item :: rest) =>
    '[' :: (prettyItems (level + 1) (item :: rest) ++ newLine level ++ [']'])
  | .obj [] => ['\x7b', '\x7d']
  | .obj (field :: rest) =>
    '\x7b' :: (prettyFields (level + 1) (field :: rest) ++ newLine level ++ ['\x7d'])
  | other => scalar other

/-- Items, each on a line of its own. -/
def prettyItems (level : Nat) : List Json → List Char
  | [] => []
  | [item] => newLine level ++ prettyChars level item
  | item :: rest => newLine level ++ prettyChars level item ++ ',' :: prettyItems level rest

/-- Fields, each on a line of its own. -/
def prettyFields (level : Nat) : List (String × Json) → List Char
  | [] => []
  | [(key, value)] => newLine level ++ quote key ++ ':' :: ' ' :: prettyChars level value
  | (key, value) :: rest =>
    newLine level ++ quote key ++ ':' :: ' ' ::
      (prettyChars level value ++ ',' :: prettyFields level rest)

end

/-- The text of a value over several lines. -/
def pretty (j : Json) : String :=
  String.ofList (prettyChars 0 j)

end GraphScript.Json
