/-!
# JSON values

A JSON value with its numbers in two forms: integers, written without a point
and without an exponent, and doubles. The fields of an object stand in the order
in which they are written.
-/

namespace GraphScript

/-- A JSON value. -/
inductive Json where
  | null
  | bool (b : Bool)
  | int (n : Int)
  | float (x : Float)
  | str (s : String)
  | arr (items : List Json)
  | obj (fields : List (String × Json))

namespace Json

/-- The number of a natural number. -/
def nat (n : Nat) : Json :=
  .int n

/-- An array of texts. -/
def strings (texts : List String) : Json :=
  .arr (texts.map .str)

/-- A finite double, and `null` for the others, which JSON cannot write. -/
def double (x : Float) : Json :=
  if x.isFinite then .float x else .null

/-- The value of a field; of two fields with one key the later counts. -/
def field? (fields : List (String × Json)) (key : String) : Option Json :=
  (fields.reverse.find? fun field => field.1 == key).map (·.2)

end Json

end GraphScript
