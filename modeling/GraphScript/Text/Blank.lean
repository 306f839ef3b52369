/-!
# Blanks

The blanks of a text are the characters with the Unicode property `White_Space`.
Texts are lists of characters here, and two operations know about blanks:

* `trim` drops the blanks on both ends of a text (`trimStart` and `trimEnd` on
  one of them);
* `words` splits a text into its maximal runs of non-blank characters.
-/

namespace GraphScript.Text

/-- The characters with the Unicode property `White_Space`. -/
def isBlank (c : Char) : Bool :=
  let n := c.toNat
  (0x9 ≤ n && n ≤ 0xD) || n == 0x20 || n == 0x85 || n == 0xA0 || n == 0x1680 ||
    (0x2000 ≤ n && n ≤ 0x200A) || n == 0x2028 || n == 0x2029 || n == 0x202F || n == 0x205F ||
    n == 0x3000

/-- A text without its leading blanks. -/
def trimStart (text : List Char) : List Char :=
  text.dropWhile isBlank

/-- A text without its trailing blanks. -/
def trimEnd (text : List Char) : List Char :=
  (text.reverse.dropWhile isBlank).reverse

/-- A text without the blanks on its two ends. -/
def trim (text : List Char) : List Char :=
  trimEnd (trimStart text)

/-- A string without the blanks on its two ends. -/
def trimmed (s : String) : String :=
  String.ofList (trim s.toList)

/-- The words of a text: its maximal runs of non-blank characters, in order.

    A non-blank character starts a word of its own when a blank or the end
    follows, and otherwise belongs to the first word of what follows. -/
def words : List Char → List (List Char)
  | [] => []
  | c :: rest =>
    if isBlank c then words rest
    else if rest.head?.all isBlank then [c] :: words rest
    else match words rest with
      | word :: more => (c :: word) :: more
      | [] => [[c]]

/-- The words of a string. -/
def wordsOf (s : String) : List String :=
  (words s.toList).map String.ofList

end GraphScript.Text
