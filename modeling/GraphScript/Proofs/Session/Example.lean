import GraphScript.Proofs.Script.Pruning
import GraphScript.Proofs.Session.Resemblance

/-!
# The bundled example

What `Initialize` plays is fixed, so all there is to know of it can be worked out, and this is
done in one place (`example_evaluation`): reading so long a text takes its time.

What it is under other limits than those it was worked out for follows from the general
theory. The text is read without failures where one level of blocks is allowed, so under any
other ceiling it is pruned at most (`items_exampleText`). All its statements are local, so
`Initialize` leaves the other graphs alone and stays with the current one
(`playExample_keepsOthers`).
-/

namespace GraphScript

/-- The items of the example, where its blocks are allowed. -/
def exampleItems : List Item :=
  (Assembly.ofTokens 1 (Token.ofLines 1 (exampleLines.map String.toList))).finish

/-- The example at a depth, in a fresh session that allows one level of blocks. -/
def exampleRun (depth : Nat) : Run :=
  runItems (playExample 0) depth exampleItems
    { session := Session.new { maxBlockDepth := 1 }, summary := {} }

set_option maxRecDepth 100000 in
/-- What is worked out of the example: its lines have no line feeds, it is read without
    failures, its statements are local, none of its blocks is a `While`, at both depths no value
    is lacking, and the graphs at the two depths have different numbers of edges. -/
theorem example_evaluation :
    (∀ line ∈ exampleLines.map String.toList, '\n' ∉ line) ∧
      Item.diagnosticsOf exampleItems = [] ∧
      (∀ text ∈ Item.textsOf exampleItems, (Statement.ofText text).IsLocal) ∧
      (∀ item ∈ Item.partsOf exampleItems, item.isWhile = false) ∧
      (∀ d ∈ (exampleRun 0).summary.diagnostics,
        d.code ≠ "pen/error/not-found" ∧ d.code ≠ "pen/error/invalid-expression") ∧
      (∀ d ∈ (exampleRun 1).summary.diagnostics,
        d.code ≠ "pen/error/not-found" ∧ d.code ≠ "pen/error/invalid-expression") ∧
      (exampleRun 0).session.graph.edges.length = 46 ∧
      (exampleRun 1).session.graph.edges.length = 42 := by
  decide +kernel

/-! ### The script -/

theorem scan_exampleText :
    Token.scan exampleText = Token.ofLines 1 (exampleLines.map String.toList) := by
  rw [Token.scan, exampleText, String.toList_ofList, Text.lines_unlines example_evaluation.1]

/-- Under any ceiling, the example is pruned at most. -/
theorem items_exampleText (ceiling : Nat) :
    (Script.parse exampleText ceiling).items = Item.pruneAll ceiling 0 exampleItems := by
  rw [Script.parse_eq, scan_exampleText]
  exact Assembly.finish_ofTokens_prune example_evaluation.2.1

/-- The blocks of the example stand outside of all others. -/
theorem below_exampleItems : Item.Below 1 0 exampleItems :=
  (Assembly.Nested.ofTokens 1 _).finish

theorem items_exampleText_of_pos {ceiling : Nat} (h : 0 < ceiling) :
    (Script.parse exampleText ceiling).items = exampleItems := by
  rw [items_exampleText, Item.pruneAll_of_below (below_exampleItems.raise h)]

theorem exampleText_isLocal (ceiling : Nat) :
    ∀ text ∈ Item.textsOf (Script.parse exampleText ceiling).items,
      (Statement.ofText text).IsLocal := by
  intro text htext
  rw [items_exampleText] at htext
  exact example_evaluation.2.2.1 text (Item.textsOf_pruneAll_subset ceiling 0 _ htext)

/-- `Initialize` empties the current graph and runs the example. -/
theorem playExample_succ (replays depth : Nat) (s : Session) :
    ((playExample (replays + 1) depth).run.run s).2 =
      (runItems (playExample replays) depth (Script.parse exampleText s.config.maxBlockDepth).items
        { session := s.emptied, summary := {} }).session := by
  rw [playExample, Action.run_modify, Session.emptied]

/-! ### Other graphs -/

theorem Store.KeepsOthers.reset (s : Store) : s.KeepsOthers s.reset :=
  .setCurrent s rfl

/-- Playing the example leaves the other graphs alone. -/
theorem playExample_keepsOthers (replays depth : Nat) (s : Session) :
    s.store.KeepsOthers ((playExample replays depth).run.run s).2.store := by
  cases replays with
  | zero => exact .reset s.store
  | succ replays =>
    have hitems := runItems_keepsOthers (exampleText_isLocal s.config.maxBlockDepth)
      (playExample replays) depth { session := s.emptied, summary := {} }
    rw [playExample_succ]
    exact (Store.KeepsOthers.reset s.store).trans hitems

end GraphScript
