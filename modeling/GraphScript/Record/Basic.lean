import GraphScript.Decimal.Literal
import GraphScript.Json.Basic

/-!
# Reading records

What the readers of records have in common. A record is an object with a value
for each of its keys, in any order and with other keys ignored, or an array of
the values in the order of the keys. A choice without data is the text of its
name, or an object that gives that name `null`.

The records of the graph in a snapshot stand among other fields and are sorted
out before they are read. There, two more forms are taken: an empty object for
the `null` of a choice, and the number of a choice for its name.
-/

namespace GraphScript

/-- Where a record stands. -/
inductive Place where
  /-- In a record of its own. -/
  | apart
  /-- In the graph of a snapshot. -/
  | snapshot
  deriving DecidableEq, Repr

namespace Json

/-- The text of a string. -/
def str? : Json → Option String
  | .str s => some s
  | _ => none

/-- The truth value of a boolean. -/
def bool? : Json → Option Bool
  | .bool b => some b
  | _ => none

/-- The natural number of an integer that 64 bits can hold. -/
def nat? : Json → Option Nat
  | .int n => if 0 ≤ n ∧ n < UInt64.size then some n.toNat else none
  | _ => none

/-- The signed integer of 64 bits of an integer. -/
def int64? : Json → Option Int64
  | .int n => Decimal.int64? n
  | _ => none

/-- The double of a number. -/
def float? : Json → Option Float
  | .int n => some (Float.ofInt n)
  | .float x => some x
  | _ => none

/-- The character of a string that has one. -/
def char? : Json → Option Char
  | .str s =>
    match s.toList with
    | [c] => some c
    | _ => none
  | _ => none

/-- The items of an array, each read in the same way. -/
def list? {α : Type} (item? : Json → Option α) : Json → Option (List α)
  | .arr items => items.mapM item?
  | _ => none

/-- What a value other than `null` denotes. -/
def optional? {α : Type} (value? : Json → Option α) : Json → Option (Option α)
  | .null => some none
  | j => (value? j).map some

/-- The name of a choice without data. -/
def choice? (place : Place) : Json → Option String
  | .str s => some s
  | .obj [(name, .null)] => some name
  | .obj [(name, .obj [])] => if place = .snapshot then some name else none
  | _ => none

/-- The name that stands for a choice among the given ones. -/
def label? (place : Place) (names : List String) : Json → Option String
  | .str s => some s
  | .int n => if place = .snapshot ∧ 0 ≤ n then names[n.toNat]? else none
  | _ => none

/-- The fields of a record with the given keys. -/
def record? (keys : List String) : Json → Option (List (String × Json))
  | .obj fields => some fields
  | .arr items => if items.length = keys.length then some (keys.zip items) else none
  | _ => none

/-- The fields of a record of which any may be missing, in an array the last ones. -/
def partialRecord? (keys : List String) : Json → Option (List (String × Json))
  | .obj fields => some fields
  | .arr items => if items.length ≤ keys.length then some (keys.zip items) else none
  | _ => none

/-- Reads a field that has to be there. -/
def required? {α : Type} (fields : List (String × Json)) (key : String)
    (value? : Json → Option α) : Option α :=
  (field? fields key).bind value?

/-- Reads a field, or takes the default if it is missing. -/
def default? {α : Type} (fields : List (String × Json)) (key : String) (default : α)
    (value? : Json → Option α) : Option α :=
  match field? fields key with
  | some j => value? j
  | none => some default

end Json

end GraphScript
