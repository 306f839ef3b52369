import GraphScript.Decimal.Literal
import GraphScript.Json.Reader

/-!
# Files of limits

A file of limits has a key and a value on each line, with an equals sign in
between. Lines end at a line feed, with or without a carriage return before it, and
a byte order mark may stand in front of all. Blanks and tabs around keys and values,
empty lines and comments behind `#` do not count. A key is made of ASCII letters,
digits, underscores and dashes, or stands in quotes, and comes once only. A value is

* an integer of 64 bits, in decimal or behind `0x`, `0o` or `0b` in another base;
* a decimal number with a point or an exponent that is not too large, `inf` or `nan`;
* `true` or `false`;
* a text in double quotes, with escapes behind a backslash, or in single quotes,
  without.

Between the digits of numbers there may be underscores, and a decimal integer
does not start with a zero unless it is zero.
-/

namespace GraphScript.Cli.ConfigFile

/-- The blanks within a line. -/
def isSpace (c : Char) : Bool :=
  c == ' ' || c == '\t'

/-- A line without its leading blanks. -/
def skipSpaces (text : List Char) : List Char :=
  text.dropWhile isSpace

/-- Control characters other than the tab, which may stand nowhere. -/
def isControl (c : Char) : Bool :=
  (c.toNat < 0x20 && c != '\t') || c.toNat == 0x7F

/-- Whether nothing but blanks and a comment is left of a line. -/
def isDone (text : List Char) : Bool :=
  match skipSpaces text with
  | [] => true
  | '#' :: comment => !comment.any isControl
  | _ => false

/-- The number of hexadecimal digits, if it is the number of a character. -/
def charOf? (digits : List Char) : Option Char := do
  let n ← digits.foldlM (fun n c => (Json.hexValue? c).map (16 * n + ·)) 0
  if n < 0xD800 ∨ (0xDFFF < n ∧ n < 0x110000) then some (Char.ofNat n) else none

/-- The rest of a text in double quotes, and what follows it. -/
def readBasic? : List Char → Option (List Char × List Char)
  | [] => none
  | '"' :: rest => some ([], rest)
  | '\\' :: 'u' :: a :: b :: c :: d :: rest =>
    match charOf? [a, b, c, d] with
    | none => none
    | some e => (readBasic? rest).map fun (s, after) => (e :: s, after)
  | '\\' :: 'U' :: a :: b :: c :: d :: e :: f :: g :: h :: rest =>
    match charOf? [a, b, c, d, e, f, g, h] with
    | none => none
    | some e => (readBasic? rest).map fun (s, after) => (e :: s, after)
  | '\\' :: c :: rest =>
    match if c = '/' then none else Json.unescape? c with
    | none => none
    | some e => (readBasic? rest).map fun (s, after) => (e :: s, after)
  | c :: rest =>
    if isControl c || c = '\\' then none
    else (readBasic? rest).map fun (s, after) => (c :: s, after)

/-- The rest of a text in single quotes, and what follows it. -/
def readLiteral? : List Char → Option (List Char × List Char)
  | [] => none
  | '\x27' :: rest => some ([], rest)
  | c :: rest =>
    if isControl c then none else (readLiteral? rest).map fun (s, after) => (c :: s, after)

/-- A text in quotes, and what follows it. -/
def readQuoted? : List Char → Option (List Char × List Char)
  | '"' :: rest => readBasic? rest
  | '\x27' :: rest => readLiteral? rest
  | _ => none

/-- The characters of keys without quotes. -/
def isKeyChar (c : Char) : Bool :=
  c.isAlphanum || c == '_' || c == '-'

/-- A key, and what follows it. -/
def readKey? (text : List Char) : Option (List Char × List Char) :=
  match readQuoted? text with
  | some found => some found
  | none =>
    let (key, rest) := text.span isKeyChar
    if key.isEmpty then none else some (key, rest)

/-- Digits without the underscores between them. -/
def digits? (isDigit : Char → Bool) : List Char → Option (List Char)
  | [] => none
  | [c] => if isDigit c then some [c] else none
  | c :: '_' :: rest => if isDigit c then (digits? isDigit rest).map (c :: ·) else none
  | c :: rest => if isDigit c then (digits? isDigit rest).map (c :: ·) else none

/-- The digits of a decimal integer. -/
def decimal? (text : List Char) : Option (List Char) := do
  let digits ← digits? Char.isDigit text
  if digits.head? = some '0' ∧ 1 < digits.length then none else return digits

/-- The number of digits in a base, within 63 bits. -/
def inBase? (base : Nat) (text : List Char) : Option Json := do
  let digits ← digits? (fun c => (Json.hexValue? c).any (· < base)) text
  let n := digits.foldl (fun n c => base * n + (Json.hexValue? c).getD 0) 0
  return .int (← Decimal.int64? n).toInt

/-- An integer in decimal. -/
def integer? (text : List Char) : Option Json := do
  let (negative, unsigned) := Decimal.sign text
  let n : Int := Decimal.valueOf (← decimal? unsigned)
  let n := if negative then -n else n
  return .int (← Decimal.int64? n).toInt

/-- A number with a point or an exponent. -/
def float? (text : List Char) : Option Json := do
  let (_, unsigned) := Decimal.sign text
  let (mantissa, exponent) := unsigned.span fun c => c != 'e' && c != 'E'
  let (whole, fraction) := mantissa.span (· != '.')
  let _ ← decimal? whole
  let _ ← match fraction with
    | [] => some []
    | _ :: digits => digits? Char.isDigit digits
  let _ ← match exponent with
    | [] => some []
    | _ :: digits => digits? Char.isDigit (Decimal.sign digits).2
  if fraction.isEmpty && exponent.isEmpty then none
  else
    let x ← Decimal.read? (text.filter (· != '_'))
    if x == 1.0 / 0.0 then none else return .float x

/-- A value without quotes. -/
def word? (text : List Char) : Option Json :=
  match text with
  | '0' :: 'x' :: digits => inBase? 16 digits
  | '0' :: 'o' :: digits => inBase? 8 digits
  | '0' :: 'b' :: digits => inBase? 2 digits
  | _ =>
    match String.ofList text with
    | "true" => some (.bool true)
    | "false" => some (.bool false)
    | "inf" | "+inf" => some (.float (1.0 / 0.0))
    | "-inf" => some (.float (-1.0 / 0.0))
    | "nan" | "+nan" | "-nan" => some (.float (0.0 / 0.0))
    | _ => integer? text <|> float? text

/-- A value, and what follows it. -/
def readValue? (text : List Char) : Option (Json × List Char) :=
  match text with
  | '"' :: _ | '\x27' :: _ =>
    (readQuoted? text).map fun (s, rest) => (.str (String.ofList s), rest)
  | _ =>
    let (word, rest) := text.span fun c => !isSpace c && c != '#'
    (word? word).map fun value => (value, rest)

/-- The key and the value of a line; a line without them gives nothing. -/
def readLine? (line : List Char) : Option (Option (String × Json)) :=
  if isDone line then some none
  else do
    let (key, rest) ← readKey? (skipSpaces line)
    match skipSpaces rest with
    | '=' :: rest =>
      let (value, rest) ← readValue? (skipSpaces rest)
      if isDone rest then return some (String.ofList key, value) else none
    | _ => none

/-- The lines of a file, without their ends. -/
def rows : List Char → List (List Char)
  | [] => [[]]
  | '\n' :: rest => [] :: rows rest
  | '\r' :: '\n' :: rest => [] :: rows rest
  | c :: rest =>
    match rows rest with
    | row :: more => (c :: row) :: more
    | [] => [[c]]

/-- A text without the byte order mark in front of it. -/
def withoutMark : List Char → List Char
  | '\ufeff' :: rest => rest
  | text => text

/-- The keys and values of a file. -/
def parse? (text : String) : Option (List (String × Json)) := do
  let found ← (rows (withoutMark text.toList)).mapM readLine?
  let fields := found.filterMap id
  if (fields.map (·.1)).Nodup then return fields else none

end GraphScript.Cli.ConfigFile
