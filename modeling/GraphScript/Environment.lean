import GraphScript.Decimal.Layout
import GraphScript.Error
import GraphScript.Expr.Reader
import GraphScript.Expr.Size

/-!
# Variables

The variables of a session with their values, in ascending order of their names.
They are shared by all blocks, and none is ever unbound.

* `Environment.evaluate` gives the value of an expression;
* `Environment.resolve` puts the value of a variable in the place of `$name`.
-/

namespace GraphScript

/-- The bindings with one more, which takes the place of an older one of its name. -/
def insertBinding (name : String) (value : Float) : List (String × Float) → List (String × Float)
  | [] => [(name, value)]
  | (other, old) :: rest =>
    if name = other then (name, value) :: rest
    else if name < other then (name, value) :: (other, old) :: rest
    else (other, old) :: insertBinding name value rest

/-- The order of bindings. -/
def Ascending (bindings : List (String × Float)) : Prop :=
  bindings.Pairwise fun a b => a.1 < b.1

theorem mem_insertBinding {name : String} {value : Float} {x : String × Float} :
    ∀ {bindings : List (String × Float)},
      x ∈ insertBinding name value bindings → x.1 = name ∨ x ∈ bindings
  | [], h => by simp_all [insertBinding]
  | (other, old) :: rest, h => by
    rw [insertBinding] at h
    split at h
    · rcases List.mem_cons.1 h with rfl | h
      · exact .inl rfl
      · exact .inr (List.mem_cons_of_mem _ h)
    · split at h
      · rcases List.mem_cons.1 h with rfl | h
        · exact .inl rfl
        · exact .inr h
      · rcases List.mem_cons.1 h with rfl | h
        · exact .inr List.mem_cons_self
        · exact (mem_insertBinding h).imp id (List.mem_cons_of_mem _)

/-- Bindings stay in ascending order. -/
theorem Ascending.insertBinding {name : String} {value : Float} :
    ∀ {bindings : List (String × Float)}, Ascending bindings →
      Ascending (insertBinding name value bindings)
  | [], _ => List.pairwise_singleton _ _
  | (other, old) :: rest, h => by
    obtain ⟨first, ascending⟩ := List.pairwise_cons.1 h
    rw [GraphScript.insertBinding]
    split
    · subst name
      exact List.pairwise_cons.2 ⟨first, ascending⟩
    · split
      · refine List.pairwise_cons.2 ⟨fun x hx => ?_, h⟩
        rcases List.mem_cons.1 hx with rfl | hx
        · assumption
        · exact String.lt_trans ‹_› (first x hx)
      · refine List.pairwise_cons.2 ⟨fun x hx => ?_, Ascending.insertBinding ascending⟩
        rcases mem_insertBinding hx with hx | hx
        · -- Neither equal to `other` nor below it, the new name is above it.
          rw [hx]
          refine Decidable.byContradiction fun above => ‹¬name = other› ?_
          exact String.le_antisymm (String.not_lt.1 above) (String.not_lt.1 ‹¬name < other›)
        · exact first x hx

/-- Variables with their values. -/
structure Environment where
  bindings : List (String × Float)
  /-- The names are in ascending order. -/
  ascending : Ascending bindings

namespace Environment

/-- No variables. -/
def empty : Environment where
  bindings := []
  ascending := List.Pairwise.nil

/-- The value of a variable. -/
def get? (env : Environment) (name : String) : Option Float :=
  env.bindings.lookup name

/-- Gives a variable a value. -/
def set (env : Environment) (name : String) (value : Float) : Environment where
  bindings := insertBinding name value env.bindings
  ascending := env.ascending.insertBinding

/-- The number of variables. -/
def size (env : Environment) : Nat :=
  env.bindings.length

/-- The variables of a list of bindings, of which later ones count. -/
def ofList (bindings : List (String × Float)) : Environment :=
  bindings.foldl (fun env (name, value) => env.set name value) empty

/-- The text of a number in names: whole numbers have no point and zero has no sign,
    so that `$i` names node `3` when `i` is three. -/
def formatNumber (value : Float) : String :=
  if value == 0.0 then "0" else Decimal.display value

/-- A word with the value of a variable in the place of `$name`; other words stay. -/
def resolve (env : Environment) (word : String) : Except Error String :=
  match word.toList with
  | '$' :: name =>
    match env.get? (String.ofList name) with
    | some value => .ok (formatNumber value)
    | none => .error (.notFound .var (String.ofList name))
  | _ => .ok word

/-- Says the same of every text that does not follow the grammar. -/
def plainReason (_ : String) : String :=
  "syntax error"

/-- The value of an expression. It has to be within the limits of size, follow the
    grammar, have a value, and that value has to be finite. What is said of a text that
    does not follow the grammar is given. -/
def evaluate (env : Environment) (syntaxReason : String → String) (source : String) :
    Except Error Float :=
  let text := Text.trim source.toList
  let invalid := Error.invalidExpression (String.ofList text)
  match Expr.excess? text with
  | some excess => .error (invalid excess.message)
  | none =>
    match Expr.parse? text with
    | none => .error (invalid (syntaxReason (String.ofList text)))
    | some e =>
      match e.eval env.get? with
      | .error (.unbound name) => .error (.notFound .var name)
      | .error .divisionByZero => .error (invalid "division by zero")
      | .ok value =>
        if value.isFinite then .ok value else .error (invalid "result is not finite")

end Environment

end GraphScript
