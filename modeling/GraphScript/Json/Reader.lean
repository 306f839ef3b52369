import GraphScript.Decimal.Scaled
import GraphScript.Json.Basic

/-!
# Reading JSON

`parse?` reads one JSON value and nothing after it but blanks. Numbers without a
point and without an exponent are integers when they fit into 64 bits, signed or
unsigned; all other numbers are doubles, read in two rounded steps, and too large
ones are refused.

The readers of arrays and objects take a bound on the number of steps. Every two
steps read a character at least, so twice the length of the text is enough.
-/

namespace GraphScript.Json

/-- The four characters that may stand between the parts of a value. -/
def isSpace (c : Char) : Bool :=
  c == ' ' || c == '\t' || c == '\n' || c == '\r'

/-- A text without its leading spaces. -/
def skipSpaces (text : List Char) : List Char :=
  text.dropWhile isSpace

/-- The value of a hexadecimal digit. -/
def hexValue? (c : Char) : Option Nat :=
  let n := c.toNat
  if '0'.toNat ≤ n ∧ n ≤ '9'.toNat then some (n - '0'.toNat)
  else if 'a'.toNat ≤ n ∧ n ≤ 'f'.toNat then some (n - 'a'.toNat + 10)
  else if 'A'.toNat ≤ n ∧ n ≤ 'F'.toNat then some (n - 'A'.toNat + 10)
  else none

/-- The value of four hexadecimal digits. -/
def hexValue4? (a b c d : Char) : Option Nat := do
  return ((← hexValue? a) * 16 + (← hexValue? b)) * 256 + (← hexValue? c) * 16 + (← hexValue? d)

/-- The character of a letter behind a backslash. -/
def unescape? (c : Char) : Option Char :=
  match c with
  | '"' => some '"'
  | '\\' => some '\\'
  | '/' => some '/'
  | 'b' => some (Char.ofNat 0x8)
  | 'f' => some (Char.ofNat 0xC)
  | 'n' => some '\n'
  | 'r' => some '\r'
  | 't' => some '\t'
  | _ => none

/-- The rest of a string behind its opening quote, and what follows its closing
    quote. A character beyond U+FFFF may be written as a surrogate pair; a half of
    one on its own is refused. -/
def readString? : List Char → Option (List Char × List Char)
  | [] => none
  | '"' :: rest => some ([], rest)
  | '\\' :: 'u' :: a :: b :: c :: d :: rest =>
    match hexValue4? a b c d with
    | none => none
    | some n =>
      if 0xD800 ≤ n ∧ n < 0xDC00 then
        match rest with
        | '\\' :: 'u' :: a' :: b' :: c' :: d' :: rest =>
          match hexValue4? a' b' c' d' with
          | none => none
          | some m =>
            if 0xDC00 ≤ m ∧ m < 0xE000 then
              (readString? rest).map fun (s, after) =>
                (Char.ofNat (0x10000 + (n - 0xD800) * 0x400 + (m - 0xDC00)) :: s, after)
            else none
        | _ => none
      else if 0xDC00 ≤ n ∧ n < 0xE000 then none
      else (readString? rest).map fun (s, after) => (Char.ofNat n :: s, after)
  | '\\' :: c :: rest =>
    match unescape? c with
    | none => none
    | some e => (readString? rest).map fun (s, after) => (e :: s, after)
  | c :: rest =>
    if c.toNat < 0x20 || c = '\\' then none
    else (readString? rest).map fun (s, after) => (c :: s, after)

/-- The integer of a sign and digits, if it is one of 64 bits. A zero with a minus is
    none. -/
def integer? (negative : Bool) (digits : List Char) : Option Int :=
  let n := Decimal.valueOf digits
  if negative then
    if 0 < n ∧ Int64.minValue.toInt ≤ -(n : Int) then some (-(n : Int)) else none
  else if n < UInt64.size then some n else none

/-- The exponent of a number, if there is one, and what follows it. -/
def readExponent? : List Char → Option (Option Int × List Char)
  | c :: rest =>
    if c = 'e' || c = 'E' then
      let (negative, rest) := Decimal.sign rest
      let (digits, rest) := rest.span Char.isDigit
      if digits.isEmpty then none
      else
        let n : Int := Decimal.valueOf digits
        some (some (if negative then -n else n), rest)
    else some (none, c :: rest)
  | [] => some (none, [])

/-- The fraction of a number, if there is one, and what follows it. -/
def readFraction? : List Char → Option (List Char × List Char)
  | '.' :: rest =>
    let (digits, rest) := rest.span Char.isDigit
    if digits.isEmpty then none else some (digits, rest)
  | rest => some ([], rest)

/-- Whether a minus comes first, and what follows it. -/
def readMinus : List Char → Bool × List Char
  | '-' :: rest => (true, rest)
  | rest => (false, rest)

/-- What the digits of a number denote, with its sign and its exponent. -/
def numberOf? (negative : Bool) (whole fraction : List Char) (exponent : Option Int) :
    Option Json :=
  match if fraction.isEmpty && exponent.isNone then integer? negative whole else none with
  | some n => some (.int n)
  | none => (Decimal.readScaled? whole fraction (exponent.getD 0)).map fun x =>
    .float (if negative then -x else x)

/-- A number, and what follows it. -/
def readNumber? (text : List Char) : Option (Json × List Char) := do
  let (negative, unsigned) := readMinus text
  let (whole, rest) := unsigned.span Char.isDigit
  if whole.isEmpty || (whole.head? == some '0' && 1 < whole.length) then none
  else
    let (fraction, rest) ← readFraction? rest
    let (exponent, rest) ← readExponent? rest
    return (← numberOf? negative whole fraction exponent, rest)

mutual

/-- A value, and what follows it. -/
def readValue? : Nat → List Char → Option (Json × List Char)
  | 0, _ => none
  | steps + 1, text =>
    match skipSpaces text with
    | 'n' :: 'u' :: 'l' :: 'l' :: rest => some (.null, rest)
    | 't' :: 'r' :: 'u' :: 'e' :: rest => some (.bool true, rest)
    | 'f' :: 'a' :: 'l' :: 's' :: 'e' :: rest => some (.bool false, rest)
    | '"' :: rest => (readString? rest).map fun (s, after) => (.str (String.ofList s), after)
    | '[' :: rest =>
      match skipSpaces rest with
      | ']' :: after => some (.arr [], after)
      | _ => (readItems? steps rest).map fun (items, after) => (.arr items, after)
    | '\x7b' :: rest =>
      match skipSpaces rest with
      | '\x7d' :: after => some (.obj [], after)
      | _ => (readFields? steps rest).map fun (fields, after) => (.obj fields, after)
    | other => readNumber? other

/-- The items of an array up to its closing bracket, and what follows it. -/
def readItems? : Nat → List Char → Option (List Json × List Char)
  | 0, _ => none
  | steps + 1, text =>
    match readValue? steps text with
    | none => none
    | some (item, rest) =>
      match skipSpaces rest with
      | ',' :: rest => (readItems? steps rest).map fun (items, after) => (item :: items, after)
      | ']' :: after => some ([item], after)
      | _ => none

/-- The fields of an object up to its closing brace, and what follows it. -/
def readFields? : Nat → List Char → Option (List (String × Json) × List Char)
  | 0, _ => none
  | steps + 1, text =>
    match skipSpaces text with
    | '"' :: rest =>
      match readString? rest with
      | none => none
      | some (key, rest) =>
        match skipSpaces rest with
        | ':' :: rest =>
          match readValue? steps rest with
          | none => none
          | some (value, rest) =>
            match skipSpaces rest with
            | ',' :: rest => (readFields? steps rest).map fun (fields, after) =>
                ((String.ofList key, value) :: fields, after)
            | '\x7d' :: after => some ([(String.ofList key, value)], after)
            | _ => none
        | _ => none
    | _ => none

end

/-- The value that a text denotes, if it is one JSON value. -/
def parse? (text : String) : Option Json :=
  match readValue? (2 * text.length + 2) text.toList with
  | some (j, rest) => if (skipSpaces rest).isEmpty then some j else none
  | none => none

end GraphScript.Json
