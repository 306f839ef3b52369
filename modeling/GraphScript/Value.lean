import GraphScript.Decimal.Layout
import GraphScript.Text.Blank

/-!
# Node values

A node may carry a *value*: a literal as it was written, and the payload that it
denotes. The payload is found by looking at the literal alone (`Value.detect`) or
under a kind that the script asks for (`Value.ofKind`), which falls back to
detection when the literal does not fit the kind.

Detection tries, in this order: the two truth values, numbers (integers of 64
bits, other decimal literals), texts in double quotes, single characters; what is
left is a text as it stands.
-/

namespace GraphScript

open Text

/-- The kinds of values. -/
inductive Kind where
  | int
  | double
  | bool
  | char
  | string
  /-- No kind in particular. -/
  | undefined
  deriving DecidableEq, Repr

namespace Kind

/-- The name of a kind. -/
def name : Kind → String
  | .int => "int"
  | .double => "double"
  | .bool => "bool"
  | .char => "char"
  | .string => "string"
  | .undefined => "undefined"

/-- The kind that a word asks for, in any case of its ASCII letters. -/
def parse? (word : String) : Option Kind :=
  match (trimmed word).toLower with
  | "int" | "integer" => some .int
  | "double" | "float" => some .double
  | "bool" | "boolean" => some .bool
  | "char" => some .char
  | "string" | "str" => some .string
  | "undefined" => some .undefined
  | _ => none

end Kind

/-- What a literal denotes. -/
inductive Payload where
  | int (n : Int64)
  | double (x : Float)
  | bool (b : Bool)
  | char (c : Char)
  | string (s : String)
  deriving DecidableEq

namespace Payload

/-- The kind of a payload. -/
def kind : Payload → Kind
  | .int _ => .int
  | .double _ => .double
  | .bool _ => .bool
  | .char _ => .char
  | .string _ => .string

/-- The text of a payload. -/
def display : Payload → String
  | .int n => toString n.toInt
  | .double x => Decimal.display x
  | .bool b => if b then "true" else "false"
  | .char c => c.toString
  | .string s => s

end Payload

/-- A literal with what it denotes. -/
structure Value where
  /-- The literal as written. -/
  raw : String
  payload : Payload
  deriving DecidableEq

namespace Value

/-- Whether a literal has the look of a decimal number: behind an optional sign, it
    starts with a digit or a point, has a digit, and has only digits, points, signs
    and exponent letters. -/
def looksNumeric (text : List Char) : Bool :=
  let unsigned := (Decimal.sign (trim text)).2
  unsigned.any Char.isDigit &&
    unsigned.all (fun c => c.isDigit || c == '.' || c == 'e' || c == 'E' || c == '-' || c == '+') &&
    unsigned.head?.any (fun c => c.isDigit || c == '.')

/-- The number that a literal denotes. A point makes it a double, and so does a
    whole number that needs more than 64 bits. -/
def number? (text : List Char) : Option Payload :=
  let digits := trim text
  if !looksNumeric text then none
  else if digits.contains '.' then (Decimal.read? digits).map .double
  else match Decimal.readInt64? digits with
    | some n => some (.int n)
    | none => (Decimal.read? digits).map .double

/-- The text between the double quotes that start and end a literal. -/
def unquoted? : List Char → Option (List Char)
  | '"' :: rest => if rest.getLast? = some '"' then some rest.dropLast else none
  | _ => none

/-- What a literal denotes by its looks. -/
def detectPayload (raw : String) : Payload :=
  if raw = "true" then .bool true
  else if raw = "false" then .bool false
  else match number? raw.toList with
    | some number => number
    | none => match unquoted? raw.toList with
      | some inner => .string (String.ofList inner)
      | none => match raw.toList with
        | [c] => .char c
        | _ => .string raw

/-- The value of a literal by its looks. -/
def detect (raw : String) : Value where
  raw := raw
  payload := detectPayload raw

/-- What a literal denotes as a value of the given kind, if it fits the kind. -/
def coerce? (raw : String) : Kind → Option Payload
  | .undefined => none
  | .int => (Decimal.readInt64? (trim raw.toList)).map .int
  | .double =>
    if looksNumeric raw.toList then (Decimal.read? (trim raw.toList)).map .double else none
  | .bool =>
    if raw = "true" then some (.bool true)
    else if raw = "false" then some (.bool false)
    else none
  | .char => match (unquoted? raw.toList).getD raw.toList with
    | [c] => some (.char c)
    | _ => none
  | .string => some (.string (String.ofList ((unquoted? raw.toList).getD raw.toList)))

/-- The value of a literal under a kind; a literal that does not fit is taken by its
    looks. -/
def ofKind (raw : String) (kind : Kind) : Value :=
  match coerce? raw kind with
  | some payload => { raw := raw, payload := payload }
  | none => detect raw

/-- The kind of a value. -/
def kind (v : Value) : Kind :=
  v.payload.kind

/-- The text of a value: its payload and its kind. -/
def display (v : Value) : String :=
  s!"{v.payload.display} ({v.kind.name})"

end Value

end GraphScript
