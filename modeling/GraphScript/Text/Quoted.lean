import GraphScript.Text.Unprintable

/-!
# Quoted texts

A text in double quotes as messages show it. Quotes and backslashes have a
backslash in front, line feeds, carriage returns, tabs and the null character
have a letter or digit of their own, and other characters that do not show are
given by their number.
-/

namespace GraphScript.Text

/-- A character between quotes. -/
def quotedChar (c : Char) : List Char :=
  if c = '"' then ['\\', '"']
  else if c = '\\' then ['\\', '\\']
  else if c = '\n' then ['\\', 'n']
  else if c = '\r' then ['\\', 'r']
  else if c = '\t' then ['\\', 't']
  else if c.toNat = 0 then ['\\', '0']
  else if isUnprintable c then
    ['\\', 'u', '\x7b'] ++ Nat.toDigits 16 c.toNat ++ ['\x7d']
  else [c]

/-- A text in quotes. -/
def quoted (s : String) : String :=
  String.ofList ('"' :: (s.toList.flatMap quotedChar ++ ['"']))

end GraphScript.Text
