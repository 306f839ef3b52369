import GraphScript.Environment
import GraphScript.Graph.Checks

/-!
# Conditions

What `If` and `While` ask: one of the structural checks by its keyword, or
`CONNECTED a b`, whether an edge joins two nodes. `NOT` in front of a condition
turns it around, and two of them cancel, so that a condition read from a text has
one negation at most. A text that is no condition is kept as it is, and never
holds.
-/

namespace GraphScript

open Text

/-- The structural checks that conditions can name. -/
inductive Check where
  | hasCycle
  | isAcyclic
  | isTree
  | isForest
  | isConnected
  | isSimple
  | isRegular
  | isComplete
  | isBipartite
  deriving DecidableEq, Repr

namespace Check

/-- The keyword of a check. -/
def keyword : Check → String
  | .hasCycle => "HAS_CYCLE"
  | .isAcyclic => "IS_ACYCLIC"
  | .isTree => "IS_TREE"
  | .isForest => "IS_FOREST"
  | .isConnected => "IS_CONNECTED"
  | .isSimple => "IS_SIMPLE"
  | .isRegular => "IS_REGULAR"
  | .isComplete => "IS_COMPLETE"
  | .isBipartite => "IS_BIPARTITE"

/-- All checks. -/
def all : List Check :=
  [.hasCycle, .isAcyclic, .isTree, .isForest, .isConnected, .isSimple, .isRegular, .isComplete,
    .isBipartite]

/-- The check with a keyword. -/
def parse? (word : String) : Option Check :=
  all.find? (·.keyword == word)

/-- Whether a graph passes a check. -/
def holds (g : Graph) : Check → Bool
  | .hasCycle => !g.isAcyclic
  | .isAcyclic => g.isAcyclic
  | .isTree => g.isTree
  | .isForest => g.isForest
  | .isConnected => g.isConnected
  | .isSimple => g.isSimple
  | .isRegular => g.isRegular
  | .isComplete => g.isComplete
  | .isBipartite => g.isBipartite

end Check

/-- A condition. -/
inductive Condition where
  | check (asked : Check)
  /-- Whether an edge joins two nodes; each may be given by a variable. -/
  | connected (a b : String)
  | not (condition : Condition)
  /-- A text that is no condition. -/
  | unknown (text : String)
  deriving DecidableEq, Repr

namespace Condition

/-- Takes the negations off the front of a text. -/
def stripNots (negated : Bool) : List Char → Bool × List Char
  | 'N' :: 'O' :: 'T' :: ' ' :: rest => stripNots (!negated) rest
  | c :: rest => if isBlank c then stripNots negated rest else (negated, c :: rest)
  | [] => (negated, [])

/-- Reads a condition that does not start with a negation. -/
def parsePositive (text : List Char) : Except Error Condition :=
  match Check.parse? (String.ofList text) with
  | some found => .ok (.check found)
  | none =>
    match "CONNECTED ".toList.isPrefixOf? text with
    | none => .ok (.unknown (String.ofList text))
    | some operands =>
      match (words operands).map String.ofList with
      | [a, b] => .ok (.connected a b)
      | _ => .error (.malformed s!"CONNECTED expects two nodes: {String.ofList text}")

/-- Reads a condition. -/
def parse (text : List Char) : Except Error Condition :=
  let (negated, positive) := stripNots false (trim text)
  match parsePositive positive with
  | .ok condition => .ok (if negated then .not condition else condition)
  | .error error => .error error

/-- Whether a condition holds of a graph; fails only for an unbound variable. -/
def evaluate (g : Graph) (env : Environment) : Condition → Except Error Bool
  | .check asked => .ok (asked.holds g)
  | .connected a b =>
    match env.resolve a with
    | .error error => .error error
    | .ok a =>
      match env.resolve b with
      | .error error => .error error
      | .ok b => .ok (g.adjacent a b)
  | .not condition =>
    match condition.evaluate g env with
    | .error error => .error error
    | .ok holds => .ok (!holds)
  | .unknown _ => .ok false

end Condition

end GraphScript
