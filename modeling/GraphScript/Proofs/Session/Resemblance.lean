import GraphScript.Proofs.Session.Failures
import GraphScript.Proofs.Session.Locality

/-!
# Sessions that resemble each other

What local statements do depends on little: on the current graph up to its name, and on the
variables that they ask for. A session *resembles* another one if it has the same current graph
under a name of its own and binds all variables of the other to the same values; it may bind
more, and may tell of expressions that it cannot read in other words (`Session.Resembles`).

* `Action.Tracks`: two actions end alike in sessions that resemble each other, unless the second
  lacks a value: a variable is unbound, or an expression is invalid. Then the first may go on where
  the second cannot, or fail in other words.
* `Statement.carryOut_tracks`: local statements do.
* `runItems_follows`: so do runs of local statements, at depths and under limits that admit the
  same blocks. A value that is lacking is told in the summary and stays there, so it is enough
  to look for it at the end.
-/

namespace GraphScript

/-! ### Names of graphs -/

namespace Graph

/-- The graph under another name. -/
def renamed (name : String) (g : Graph) : Graph :=
  { g with name := name }

/-- The change does not look at the name of the graph, and keeps it. -/
def IgnoresName {α : Type} (change : Graph → Except Error α × Graph) : Prop :=
  ∀ name g, change (g.renamed name) = ((change g).1, (change g).2.renamed name)

/-- Operations check nodes and edges only. Here and below, the checks come out the same under both
    names. -/
theorem addNode_ignoresName (id : String) (value : Option Value) :
    IgnoresName (addNode · id value) := by
  intro name g
  dsimp only [addNode]
  change (if g.contains id = true then _ else _) = _
  split_ifs <;> rfl

theorem removeNode_ignoresName (id : String) : IgnoresName (removeNode · id) := by
  intro name g
  have hindex : (g.renamed name).findIndex? id = g.findIndex? id := rfl
  dsimp only [removeNode]
  rw [hindex]
  cases g.findIndex? id with
  | none => rfl
  | some index => rfl

theorem connect_ignoresName (source target : String) (weight : Option Float) :
    IgnoresName (connect · source target weight) := by
  intro name g
  dsimp only [connect]
  change (if (!g.contains source || !g.contains target) = true then _ else
    if (g.edges.any fun e => e.source == source && e.target == target) = true then _ else _) = _
  split
  · rfl
  · split_ifs <;> rfl

theorem removeEdges_ignoresName (source target : String) :
    IgnoresName (removeEdges · source target) := by
  intro name g
  have hedges : (g.renamed name).edges = g.edges := rfl
  dsimp only [removeEdges]
  rw [hedges]
  split_ifs <;> rfl

theorem isolate_ignoresName (id : String) : IgnoresName (isolate · id) := by
  intro name g
  dsimp only [isolate]
  change (if g.contains id = true then _ else _) = _
  split_ifs <;> rfl

theorem setColor_ignoresName (id color : String) : IgnoresName (setColor · id color) := by
  intro name g
  have hindex : (g.renamed name).findIndex? id = g.findIndex? id := rfl
  dsimp only [setColor]
  rw [hindex]
  cases g.findIndex? id with
  | none => rfl
  | some index => rfl

theorem subdivide_ignoresName (source target id : String) :
    IgnoresName (subdivide · source target id) := by
  intro name g
  have hedges : (g.renamed name).edges = g.edges := rfl
  dsimp only [subdivide]
  rw [hedges]
  cases g.edges.find? (·.joins source target) with
  | none => rfl
  | some edge =>
    dsimp only
    change (if g.contains id = true then _ else _) = _
    split_ifs <;> rfl

theorem contract_ignoresName (a b : String) : IgnoresName (contract · a b) := by
  intro name g
  dsimp only [contract]
  change (if (!g.adjacent a b) = true then _ else if g.contains (a ++ b) = true then _ else _) = _
  split_ifs <;> rfl

end Graph

/-! ### Variables -/

/-- The failures that tell of a value that is lacking. -/
inductive Error.LacksValue : Error → Prop
  | unbound (x : String) : LacksValue (.notFound .var x)
  | invalid (expression reason : String) : LacksValue (.invalidExpression expression reason)

/-- The outcomes are equal, unless a value is lacking in the second. Of the first nothing is asked
    then. -/
def Agrees {α : Type} (own reference : Except Error α) : Prop :=
  own = reference ∨ ∃ e : Error, e.LacksValue ∧ reference = .error e

/-- The variables of the second environment have the same values in the first. -/
def Environment.Extends (env env' : Environment) : Prop :=
  ∀ x value, env'.get? x = some value → env.get? x = some value

namespace Environment.Extends

variable {env env' : Environment}

/-- What is set in both has the same value in both. -/
theorem set (h : env.Extends env') (name : String) (value : Float) :
    (env.set name value).Extends (env'.set name value) := by
  intro x v hv
  rw [get?_set] at hv ⊢
  split at hv
  · rwa [if_pos ‹_›]
  · rw [if_neg ‹_›]
    exact h x v hv

/-- Where more is bound an expression does the same, unless it asks for a variable that was not
    bound. -/
theorem eval (h : env.Extends env') (e : Expr) :
    e.eval env.get? = e.eval env'.get? ∨ ∃ x, e.eval env'.get? = .error (.unbound x) := by
  induction e with
  | number x => exact .inl rfl
  | var name =>
    cases hvalue : env'.get? name with
    | none => exact .inr ⟨name, by rw [Expr.eval, hvalue]⟩
    | some value => exact .inl (by rw [Expr.eval, Expr.eval, hvalue, h name value hvalue])
  | negate operand ih =>
    obtain heq | ⟨x, hx⟩ := ih
    · exact .inl (by rw [Expr.eval, Expr.eval, heq])
    · exact .inr ⟨x, by rw [Expr.eval, hx]⟩
  | binary op left right ihLeft ihRight =>
    obtain hleft | ⟨x, hx⟩ := ihLeft
    · -- The right operand is looked at only if the left one has a value.
      cases hvalue : left.eval env'.get? with
      | error failure => exact .inl (by rw [Expr.eval, Expr.eval, hleft, hvalue])
      | ok value =>
        obtain hright | ⟨x, hx⟩ := ihRight
        · exact .inl (by rw [Expr.eval, Expr.eval, hleft, hright])
        · exact .inr ⟨x, by rw [Expr.eval, hvalue, hx]⟩
    · exact .inr ⟨x, by rw [Expr.eval, hx]⟩

theorem resolve (h : env.Extends env') (word : String) :
    Agrees (env.resolve word) (env'.resolve word) := by
  rw [Environment.resolve, Environment.resolve]
  split
  · rename_i name _
    cases hvalue : env'.get? (String.ofList name) with
    | none => exact .inr ⟨_, .unbound _, rfl⟩
    | some value => exact .inl (by rw [h _ value hvalue])
  · exact .inl rfl

/-- The words for expressions that cannot be read may differ. -/
theorem evaluate (h : env.Extends env') (syntaxReason syntaxReason' : String → String)
    (source : String) :
    Agrees (env.evaluate syntaxReason source) (env'.evaluate syntaxReason' source) := by
  rw [Environment.evaluate, Environment.evaluate]
  cases Expr.excess? (Text.trim source.toList) with
  | some excess => exact .inl rfl
  | none =>
    cases Expr.parse? (Text.trim source.toList) with
    | none => exact .inr ⟨_, .invalid _ _, rfl⟩
    | some e =>
      dsimp only
      obtain heq | ⟨x, hx⟩ := h.eval e
      · exact .inl (by rw [heq])
      · exact .inr ⟨_, .unbound x, by rw [hx]⟩

/-- Neither the name of the graph nor further variables matter to a condition. -/
theorem evaluateCondition (h : env.Extends env') (name : String) (g : Graph)
    (condition : Condition) :
    Agrees (condition.evaluate (g.renamed name) env) (condition.evaluate g env') := by
  induction condition with
  | check asked =>
    have hcheck : asked.holds (g.renamed name) = asked.holds g := by cases asked <;> rfl
    exact .inl (by rw [Condition.evaluate, Condition.evaluate, hcheck])
  | connected a b =>
    rw [Condition.evaluate, Condition.evaluate]
    obtain ha | ⟨e, hlacks, he⟩ := h.resolve a
    · cases hvalue : env'.resolve a with
      | error e => exact .inl (by rw [ha, hvalue])
      | ok id =>
        obtain hb | ⟨e, hlacks, he⟩ := h.resolve b
        · exact .inl (by rw [ha, hb, hvalue]; rfl)
        · exact .inr ⟨e, hlacks, by rw [he]⟩
    · exact .inr ⟨e, hlacks, by rw [he]⟩
  | not condition ih =>
    rw [Condition.evaluate, Condition.evaluate]
    obtain heq | ⟨e, hlacks, he⟩ := ih
    · exact .inl (by rw [heq])
    · exact .inr ⟨e, hlacks, by rw [he]⟩
  | unknown text => exact .inl rfl

end Environment.Extends

/-! ### Actions -/

section

variable (name : String) (c c' : Config)

/-- The session has the current graph of the other under a name of its own, and its variables.
    The limits of both are given. -/
structure Session.Resembles (s r : Session) : Prop where
  graph : s.graph = r.graph.renamed name
  env : s.env.Extends r.env
  config : s.config = c
  config' : r.config = c'

/-- How an action ends in two sessions: alike, unless a value is lacking in the second. -/
inductive Action.Alike {α : Type} : Except Error α × Session → Except Error α × Session → Prop
  | same {s r : Session} (answer : Except Error α) (h : s.Resembles name c c' r) :
      Alike (answer, s) (answer, r)
  | lacking (outcome : Except Error α × Session) {e : Error} (h : e.LacksValue) (r : Session) :
      Alike outcome (.error e, r)

/-- From sessions that resemble each other, the actions end alike. -/
def Action.Tracks {α : Type} (a b : Action α) : Prop :=
  ∀ s r : Session, s.Resembles name c c' r → Alike name c c' (a.run.run s) (b.run.run r)

end

section

variable {name : String} {c c' : Config}

namespace Session.Resembles

variable {s r : Session}

/-- The current graphs are exchanged for one and the same, each under its name. -/
theorem setGraph (h : s.Resembles name c c' r) (g : Graph) :
    (s.setGraph (g.renamed name)).Resembles name c c' (r.setGraph g) :=
  ⟨rfl, h.env, h.config, h.config'⟩

theorem setVariable (h : s.Resembles name c c' r) (x : String) (value : Float) :
    Session.Resembles name c c' { s with env := s.env.set x value }
      { r with env := r.env.set x value } :=
  ⟨h.graph, h.env.set x value, h.config, h.config'⟩

end Session.Resembles

namespace Action.Tracks

variable {α β : Type} {a b : Action α} {f f' : α → Action β}

theorem pure (x : α) : Tracks name c c' (pure x) (pure x) :=
  fun _ _ h => .same (.ok x) h

theorem throw (e : Error) : Tracks name c c' (throw e : Action α) (throw e) :=
  fun _ _ h => .same (.error e) h

/-- If the first actions end alike, so do the sequences: with the same result the others take over
    from sessions that resemble each other. -/
theorem bind (hab : Tracks name c c' a b) (hf : ∀ x, Tracks name c c' (f x) (f' x)) :
    Tracks name c c' (a >>= f) (b >>= f') := by
  intro s r h
  have hfirst := hab s r h
  rw [run_bind, run_bind]
  generalize a.run.run s = outcome at *
  generalize b.run.run r = outcome' at *
  cases hfirst with
  | lacking _ hlacks r' =>
    -- The second action stops here, so nothing has to be known of the first.
    exact .lacking _ hlacks r'
  | same answer hafter =>
    cases answer with
    | error e => exact .same _ hafter
    | ok x => exact hf x _ _ hafter

/-- Outcomes that agree can be told apart only where a value is lacking. -/
theorem ofExcept {own : Session → Except Error α}
    (h : ∀ s r : Session, s.Resembles name c c' r → Agrees (own s) (own r)) :
    Tracks name c c' (get >>= fun s => ofExcept (own s)) (get >>= fun s => ofExcept (own s)) := by
  intro s r hsr
  have hown : ∀ s : Session,
      (get >>= fun s => Action.ofExcept (own s) : Action α).run.run s = (own s, s) := by
    intro s
    rw [run_bind]
    change (Action.ofExcept (own s)).run.run s = _
    cases own s <;> rfl
  rw [hown, hown]
  obtain heq | ⟨e, hlacks, he⟩ := h s r hsr
  · rw [heq]
    exact .same _ hsr
  · rw [he]
    exact .lacking _ hlacks r

theorem resolve (word : String) : Tracks name c c' (resolve word) (resolve word) :=
  ofExcept fun _ _ h => h.env.resolve word

theorem evaluate (source : String) : Tracks name c c' (evaluate source) (evaluate source) :=
  ofExcept fun s r h => h.env.evaluate s.syntaxReason r.syntaxReason source

/-- What follows a look at the graph sees it under the two names. -/
theorem graph {f f' : Graph → Action β}
    (h : ∀ g, Tracks name c c' (f (g.renamed name)) (f' g)) :
    Tracks name c c' (Action.graph >>= f) (Action.graph >>= f') := by
  intro s r hsr
  change Alike name c c' ((f s.graph).run.run s) ((f' r.graph).run.run r)
  rw [hsr.graph]
  exact h r.graph s r hsr

theorem update {change change' : Session → Session}
    (h : ∀ s r : Session, s.Resembles name c c' r →
      (change s).Resembles name c c' (change' r)) :
    Tracks name c c' (modify change) (modify change') :=
  fun s r hsr => .same (.ok ()) (h s r hsr)

/-- Changes that ignore the name lead from alike graphs to alike graphs. -/
theorem modifyGraph (change : Graph → Graph)
    (h : ∀ g, change (g.renamed name) = (change g).renamed name) :
    Tracks name c c' (modify fun s => s.setGraph (change s.graph))
      (modify fun s => s.setGraph (change s.graph)) :=
  update fun s r hsr => by
    rw [hsr.graph, h]
    exact hsr.setGraph _

/-- The graph is written back whether the change is refused or not. -/
theorem changeGraph {change : Graph → Except Error α × Graph} (h : Graph.IgnoresName change) :
    Tracks name c c' (changeGraph change) (changeGraph change) := by
  intro s r hsr
  rw [run_changeGraph, run_changeGraph, hsr.graph, h]
  exact .same _ (hsr.setGraph _)

end Action.Tracks

/-! ### Statements -/

namespace Statement

open GraphScript.Action

variable (st : Statement)

/-- The words of a statement are the same in both sessions. -/
theorem tracks_word {β : Type} (family : String) (position : Nat) {f f' : String → Action β}
    (h : ∀ word, st.words[position]? = some word → Tracks name c c' (f word) (f' word)) :
    Tracks name c c' (st.word family position >>= f) (st.word family position >>= f') := by
  rw [word]
  split
  · exact h _ ‹_›
  · exact Tracks.throw _

theorem tracks_resolved (family : String) (position : Nat) :
    Tracks name c c' (st.resolved family position) (st.resolved family position) :=
  st.tracks_word family position fun word _ => .resolve word

theorem tracks_expect (family : String) (position : Nat) (expected : String) :
    Tracks name c c' (st.expect family position expected) (st.expect family position expected) := by
  refine st.tracks_word family position fun word _ => ?_
  split
  · exact .throw _
  · exact .pure _

theorem tracks_splitKind (tokens : List String) :
    Tracks name c c' (st.splitKind tokens) (st.splitKind tokens) := by
  rw [splitKind]
  split
  · exact .pure _
  · exact .throw _
  · split
    · exact .pure _
    · exact .throw _

/-- A literal of one word may ask for a variable. -/
theorem tracks_nodeValue (tokens : List String) :
    Tracks name c c' (st.nodeValue tokens) (st.nodeValue tokens) := by
  refine (st.tracks_splitKind tokens).bind fun (literal, kind) => ?_
  dsimp only
  split
  · exact .throw _
  · exact (Tracks.resolve _).bind fun raw => .pure _
  · exact .pure _

theorem tracks_createNode : Tracks name c c' st.createNode st.createNode := by
  refine (st.tracks_resolved _ _).bind fun id => ?_
  split
  · exact (Tracks.changeGraph (Graph.addNode_ignoresName id none)).bind fun _ => .pure _
  · refine (st.tracks_nodeValue _).bind fun value => ?_
    exact (Tracks.changeGraph (Graph.addNode_ignoresName id (some value))).bind fun _ => .pure _
  · exact .throw _

theorem pair_words {first second : String} (hfirst : st.words.head? = some first)
    (hsecond : st.words[1]? = some second) : [first, second] <+: st.words := by
  rcases hwords : st.words with _ | ⟨a, _ | ⟨b, rest⟩⟩ <;> simp_all

theorem tracks_create (hverb : st.words.head? = some "Create") (h : st.IsLocal) :
    Tracks name c c' st.create st.create := by
  refine st.tracks_word _ _ fun word hword => ?_
  split
  · -- A local statement makes no graph.
    exact absurd (st.pair_words hverb hword) h.noCreate
  · exact st.tracks_createNode
  · exact .throw _

theorem tracks_use (hverb : st.words.head? = some "Use") (h : st.IsLocal) :
    Tracks name c c' st.use st.use := by
  have hword : st.words[1]? ≠ some "GRAPH" := fun hword => h.noUse (st.pair_words hverb hword)
  -- The statement does not come to the name of a graph.
  have hexpect : st.expect "USE" 1 "GRAPH" = throw (st.invalid "USE") := by
    rw [expect, word]
    cases hsecond : st.words[1]? with
    | none => rfl
    | some second =>
      have hne : (second != "GRAPH") = true := bne_iff_ne.2 fun heq => hword (heq ▸ hsecond)
      change (if (second != "GRAPH") = true then _ else _) = _
      rw [if_pos hne]
  rw [use, hexpect]
  exact .throw _

theorem tracks_letVariable : Tracks name c c' st.letVariable st.letVariable := by
  refine st.tracks_word _ _ fun x _ => ?_
  dsimp only
  split
  · exact .throw _
  · refine (st.tracks_expect _ _ _).bind fun _ => ?_
    refine st.tracks_word _ _ fun _ _ => ?_
    refine (Tracks.evaluate _).bind fun value => ?_
    exact (Tracks.update fun s r h => h.setVariable x value).bind fun _ => .pure _

theorem tracks_set : Tracks name c c' st.set st.set := by
  refine st.tracks_word _ _ fun word _ => ?_
  split
  · exact (Tracks.modifyGraph (·.setBackground _) fun _ => rfl).bind fun _ => .pure _
  · exact (Tracks.modifyGraph ({ · with directed := st.affirms 2 }) fun _ => rfl).bind
      fun _ => .pure _
  · exact (Tracks.modifyGraph ({ · with weighted := st.affirms 2 }) fun _ => rfl).bind
      fun _ => .pure _
  · refine (st.tracks_resolved _ _).bind fun id => ?_
    refine st.tracks_word _ _ fun color _ => ?_
    exact (Tracks.changeGraph (Graph.setColor_ignoresName id color)).bind fun _ => .pure _
  · exact .throw _

/-- A weight may ask for variables. -/
theorem tracks_weight? (weighted : Bool) :
    Tracks name c c' (st.weight? weighted) (st.weight? weighted) := by
  rw [weight?]
  split
  · refine st.tracks_word _ _ fun source _ => ?_
    exact (Tracks.evaluate _).bind fun value => .pure _
  · exact .pure _

/-- Whether there are weights is asked of the graph, and its name is not. -/
theorem tracks_connect : Tracks name c c' st.connect st.connect := by
  refine st.tracks_word _ _ fun _ _ => ?_
  refine (st.tracks_resolved _ _).bind fun source => ?_
  refine (st.tracks_resolved _ _).bind fun target => ?_
  refine Tracks.graph fun g => ?_
  refine (st.tracks_weight? g.weighted).bind fun weight => ?_
  refine (Tracks.changeGraph (Graph.connect_ignoresName source target weight)).bind fun _ => ?_
  change Tracks name c c' (if g.weighted = true then _ else _) (if g.weighted = true then _ else _)
  split
  · exact .pure _
  · exact .pure _

theorem tracks_remove : Tracks name c c' st.remove st.remove := by
  refine st.tracks_word _ _ fun word _ => ?_
  split
  · refine (st.tracks_resolved _ _).bind fun id => ?_
    exact (Tracks.changeGraph (Graph.removeNode_ignoresName id)).bind fun _ => .pure _
  · refine st.tracks_word _ _ fun _ _ => ?_
    refine (st.tracks_resolved _ _).bind fun source => ?_
    refine (st.tracks_resolved _ _).bind fun target => ?_
    exact (Tracks.changeGraph (Graph.removeEdges_ignoresName source target)).bind
      fun _ => .pure _
  · exact .throw _

theorem tracks_isolate : Tracks name c c' st.isolate st.isolate := by
  refine (st.tracks_expect _ _ _).bind fun _ => ?_
  refine (st.tracks_resolved _ _).bind fun id => ?_
  exact (Tracks.changeGraph (Graph.isolate_ignoresName id)).bind fun _ => .pure _

/-- Paths do not depend on the name of the graph. -/
theorem tracks_traverse : Tracks name c c' st.traverse st.traverse := by
  refine (st.tracks_resolved _ _).bind fun start => ?_
  refine Tracks.graph fun g => ?_
  have hvisited : (g.renamed name).reachable start = g.reachable start := rfl
  dsimp only
  rw [hvisited]
  split
  · exact .throw _
  · exact (Tracks.modifyGraph (·.markTraversed _) fun _ => rfl).bind fun _ => .pure _

theorem tracks_color : Tracks name c c' st.color st.color := by
  refine (st.tracks_expect _ _ _).bind fun _ => ?_
  exact Tracks.graph fun g => .pure _

theorem tracks_subdivide : Tracks name c c' st.subdivide st.subdivide := by
  refine st.tracks_word _ _ fun _ _ => ?_
  refine (st.tracks_resolved _ _).bind fun source => ?_
  refine (st.tracks_resolved _ _).bind fun target => ?_
  refine (st.tracks_resolved _ _).bind fun id => ?_
  exact (Tracks.changeGraph (Graph.subdivide_ignoresName source target id)).bind
    fun _ => .pure _

theorem tracks_contract : Tracks name c c' st.contract st.contract := by
  refine (st.tracks_resolved _ _).bind fun a => ?_
  refine (st.tracks_resolved _ _).bind fun b => ?_
  exact (Tracks.changeGraph (Graph.contract_ignoresName a b)).bind fun _ => .pure _

theorem tracks_partition : Tracks name c c' partition partition :=
  Tracks.graph fun _ => .pure _

theorem tracks_getDegree : Tracks name c c' st.getDegree st.getDegree := by
  refine (st.tracks_resolved _ _).bind fun id => ?_
  refine Tracks.graph fun g => ?_
  change Tracks name c c' (if (!g.contains id) = true then _ else _)
    (if (!g.contains id) = true then _ else _)
  split
  · exact .throw _
  · exact .pure _

theorem tracks_getPath : Tracks name c c' st.getPath st.getPath := by
  refine (st.tracks_resolved _ _).bind fun start => ?_
  refine (st.tracks_resolved _ _).bind fun target => ?_
  refine Tracks.graph fun g => ?_
  have hweighted : (g.renamed name).weighted = g.weighted := rfl
  have hcheapest : (g.renamed name).cheapestPath? start target = g.cheapestPath? start target := rfl
  have hshortest : (g.renamed name).shortestPath? start target = g.shortestPath? start target := rfl
  simp only [hweighted, hcheapest, hshortest]
  split
  · exact .throw _
  · exact .pure _

theorem tracks_getAnswer : Tracks name c c' st.getAnswer st.getAnswer := by
  refine st.tracks_word _ _ fun word _ => ?_
  split
  · exact st.tracks_getDegree
  · exact Tracks.graph fun _ => .pure _
  · exact st.tracks_getPath
  · exact Tracks.graph fun _ => .pure _
  · exact Tracks.graph fun _ => .pure _
  · exact .throw _

theorem tracks_reset : Tracks name c c' reset reset :=
  (Tracks.modifyGraph Graph.reset fun _ => rfl).bind fun _ => .pure _

/-- Local statements end alike in sessions that resemble each other, whatever `Initialize` does. -/
theorem carryOut_tracks (h : st.IsLocal) (replay replay' : Action String) :
    Tracks name c c' (st.carryOut replay) (st.carryOut replay') := by
  rw [carryOut, carryOut]
  split
  · exact absurd ‹_› h.noExample
  · exact tracks_reset
  · exact st.tracks_create ‹_› h
  · exact st.tracks_use ‹_› h
  · exact st.tracks_letVariable
  · exact st.tracks_set
  · exact st.tracks_connect
  · exact st.tracks_remove
  · exact st.tracks_isolate
  · exact st.tracks_traverse
  · exact st.tracks_color
  · exact st.tracks_subdivide
  · exact st.tracks_contract
  · exact tracks_partition
  · exact st.tracks_getAnswer
  · exact .throw _

end Statement

/-! ### Runs -/

/-- Whether the block runs as long as a condition holds. -/
def Header.isWhile : Header → Bool
  | .whileBlock _ => true
  | .ifBlock _ | .forBlock .. => false

/-- Whether the item is a block that runs as long as a condition holds. -/
def Item.isWhile : Item → Bool
  | .block _ header _ => header.isWhile
  | .statement .. | .broken .. => false

/-- The summary tells of a value that was lacking. -/
def Run.Lacks (run : Run) : Prop :=
  ∃ line, ∃ e : Error, e.LacksValue ∧ Diagnostic.ofError line e ∈ run.summary.diagnostics

/-- Diagnostics are never taken back. -/
theorem Records.lacks {run run' : Run} {log : List Outcome} (h : Records run log run')
    (hlacks : run.Lacks) : run'.Lacks := by
  obtain ⟨line, e, hvalue, hmem⟩ := hlacks
  refine ⟨line, e, hvalue, ?_⟩
  rw [Records] at h
  rw [h, Summary.diagnostics_foldl_record]
  exact List.mem_append_left _ hmem

theorem lacks_fail (run : Run) (line : Nat) {e : Error} (h : e.LacksValue) :
    (run.fail line e).Lacks :=
  ⟨line, e, h, List.mem_append_right _ (List.mem_singleton_self _)⟩

/-- What is told of a lacking value is not taken back by blocks. -/
theorem lacks_composes : Composes fun run (_ : List Unit) run' => run.Lacks → run'.Lacks where
  nil _ h := h
  append h hmore hlacks := hmore (h hlacks)
  count _ _ h := h

/-- The session of the first run resembles that of the second, unless the second lacks a
    value. -/
def Run.Follows (name : String) (c c' : Config) (own reference : Run) : Prop :=
  own.session.Resembles name c c' reference.session ∨ reference.Lacks

namespace Run.Follows

variable {own reference : Run}

theorem setVariable (h : own.Follows name c c' reference) (x : String) (value : Float) :
    (own.setVariable x value).Follows name c c' (reference.setVariable x value) :=
  h.imp (·.setVariable x value) id

/-- A failure is counted, and the sessions go on as they are. -/
theorem perform (h : own.session.Resembles name c c' reference.session) (line : Nat)
    {a b : Action String} (hab : a.Tracks name c c' b) :
    (own.perform line a).Follows name c c' (reference.perform line b) := by
  have houtcome := hab _ _ h
  rw [Run.perform, Run.perform]
  generalize a.run.run own.session = outcome at *
  generalize b.run.run reference.session = outcome' at *
  cases houtcome with
  | same answer hafter => cases answer <;> exact .inl hafter
  | lacking _ hlacks r => exact .inr (lacks_fail reference line hlacks)

theorem holds (h : own.session.Resembles name c c' reference.session) (condition : Condition) :
    Agrees (own.holds condition) (reference.holds condition) := by
  rw [Run.holds, Run.holds, h.graph]
  exact h.env.evaluateCondition name _ condition

theorem evaluate (h : own.session.Resembles name c c' reference.session) (source : String) :
    Agrees (own.session.evaluate source) (reference.session.evaluate source) :=
  h.env.evaluate own.session.syntaxReason reference.session.syntaxReason source

variable {body body' : Run → Run}

/-- The counters are set to the same numbers. -/
theorem countLoop
    (hbody : ∀ own reference : Run, own.Follows name c c' reference →
      (body own).Follows name c c' (body' reference))
    (counter : String) (first : Float) (more step : Nat) (h : own.Follows name c c' reference) :
    (GraphScript.countLoop counter first body more step own).Follows name c c'
      (GraphScript.countLoop counter first body' more step reference) := by
  induction more generalizing step own reference with
  | zero => exact h
  | succ more ih => exact ih (step + 1) (hbody _ _ (h.setVariable counter _))

/-- The two loops make the same rounds, up to the one after which a value is lacking. -/
theorem whileLoop
    (hbody : ∀ own reference : Run, own.Follows name c c' reference →
      (body own).Follows name c c' (body' reference))
    (hlacks : ∀ run : Run, run.Lacks → (body' run).Lacks) (condition : Condition) (more : Nat)
    (h : own.session.Resembles name c c' reference.session) :
    (GraphScript.whileLoop (·.holds condition) body more own).2.Follows name c c'
        (GraphScript.whileLoop (·.holds condition) body' more reference).2 ∨
      ∃ e : Error, e.LacksValue ∧
        (GraphScript.whileLoop (·.holds condition) body' more reference).1 = .error e := by
  induction more generalizing own reference with
  | zero => exact .inl (.inl h)
  | succ more ih =>
    rw [GraphScript.whileLoop, GraphScript.whileLoop]
    obtain heq | ⟨e, hvalue, he⟩ := holds h condition
    · rw [heq]
      split
      · obtain hround | hround := hbody _ _ (.inl h)
        · exact ih hround
        · -- The rest of the second loop keeps the diagnostic, whatever the first one does.
          exact .inl (.inr (@Composes.whileLoop Unit _ _ (fun _ => []) lacks_composes hlacks
            (·.holds condition) more _ hround))
      · exact .inl (.inl h)
    · exact .inr ⟨e, hvalue, by rw [he]⟩

/-- Blocks that are both turned away, or both not. -/
theorem runBlock
    (hbody : ∀ own reference : Run, own.Follows name c c' reference →
      (body own).Follows name c c' (body' reference))
    (hlacks : ∀ run : Run, run.Lacks → (body' run).Lacks) {header : Header} {depth depth' : Nat}
    (hdepth : c.maxBlockDepth ≤ depth ↔ c'.maxBlockDepth ≤ depth')
    (hlimit : header.isWhile = true → c.whileIterationLimit = c'.whileIterationLimit)
    (h : own.session.Resembles name c c' reference.session) :
    (GraphScript.runBlock header depth body own).2.Follows name c c'
        (GraphScript.runBlock header depth' body' reference).2 ∨
      ∃ e : Error, e.LacksValue ∧
        (GraphScript.runBlock header depth' body' reference).1 = .error e := by
  unfold GraphScript.runBlock
  rw [h.config, h.config']
  by_cases hceiling : c'.maxBlockDepth ≤ depth'
  · rw [if_pos hceiling, if_pos (hdepth.2 hceiling)]
    exact .inl (.inl h)
  · rw [if_neg hceiling, if_neg (mt hdepth.1 hceiling)]
    cases header with
    | ifBlock condition =>
      dsimp only
      obtain heq | ⟨e, hvalue, he⟩ := holds h condition
      · rw [heq]
        split
        · exact .inl (.inl h)
        · exact .inl (hbody _ _ (.inl h))
        · exact .inl (.inl h)
      · exact .inr ⟨e, hvalue, by rw [he]⟩
    | whileBlock condition =>
      have hloop := whileLoop hbody hlacks condition c'.whileIterationLimit h
      dsimp only
      rw [hlimit rfl]
      generalize GraphScript.whileLoop (·.holds condition) body c'.whileIterationLimit own =
        outcome at *
      generalize GraphScript.whileLoop (·.holds condition) body' c'.whileIterationLimit
        reference = outcome' at *
      obtain ⟨answer, run⟩ := outcome
      obtain ⟨answer', run'⟩ := outcome'
      obtain hruns | ⟨e, hvalue, he⟩ := hloop
      · cases answer <;> cases answer' <;> exact .inl hruns
      · obtain rfl : answer' = _ := he
        exact .inr ⟨e, hvalue, rfl⟩
    | forBlock counter first last =>
      dsimp only
      obtain hfirst | ⟨e, hvalue, he⟩ := evaluate h first
      · rw [hfirst]
        cases reference.session.evaluate first with
        | error e => exact .inl (.inl h)
        | ok first =>
          dsimp only
          obtain hlast | ⟨e, hvalue, he⟩ := evaluate h last
          · rw [hlast]
            cases reference.session.evaluate last with
            | error e => exact .inl (.inl h)
            | ok last => exact .inl (countLoop hbody counter first _ 0 (.inl h))
          · exact .inr ⟨e, hvalue, by rw [he]⟩
      · exact .inr ⟨e, hvalue, by rw [he]⟩

end Run.Follows

/-- At the two depths, the two limits turn away the same blocks, and if there are loops with a
    limit of rounds among them, it is the same. -/
def Item.EnteredAlike (c c' : Config) (depth depth' : Nat) (items : List Item) : Prop :=
  ∀ n line header body, Inside items n (.block line header body) →
    (c.maxBlockDepth ≤ depth + n ↔ c'.maxBlockDepth ≤ depth' + n) ∧
      (header.isWhile = true → c.whileIterationLimit = c'.whileIterationLimit)

namespace Item.EnteredAlike

variable {depth depth' : Nat} {items more : List Item}

theorem mono (h : EnteredAlike c c' depth depth' more) (hsubset : items ⊆ more) :
    EnteredAlike c c' depth depth' items :=
  fun n line header body hblock => h n line header body (hblock.mono hsubset)

/-- Within a block, both depths are one more. -/
theorem body {line : Nat} {header : Header} {body : List Item}
    (h : EnteredAlike c c' depth depth' items) (hblock : .block line header body ∈ items) :
    EnteredAlike c c' (depth + 1) (depth' + 1) body := by
  intro n line' header' body' hinside
  have hentered := h _ _ _ _ (.within hblock hinside)
  rwa [Nat.add_right_comm depth 1 n, Nat.add_right_comm depth' 1 n]

end Item.EnteredAlike

mutual

/-- Runs of local statements go alike in sessions that resemble each other. -/
theorem runItems_follows (replay replay' : Nat → Action String) (depth depth' : Nat) :
    ∀ (items : List Item) (own reference : Run),
    (∀ text ∈ Item.textsOf items, (Statement.ofText text).IsLocal) →
    Item.EnteredAlike c c' depth depth' items → own.Follows name c c' reference →
    (runItems replay depth items own).Follows name c c' (runItems replay' depth' items reference)
  | [], own, reference, _, _, h => by
    rw [runItems, runItems]
    exact h
  | item :: rest, own, reference, hlocal, hblocks, h => by
    rw [Item.textsOf, List.forall_mem_append] at hlocal
    rw [runItems, runItems]
    exact runItems_follows replay replay' depth depth' rest _ _ hlocal.2
      (hblocks.mono (List.subset_cons_self item rest))
      (runItem_follows replay replay' depth depth' item own reference hlocal.1
        (hblocks.mono (List.cons_subset_cons item (List.nil_subset rest))) h)

theorem runItem_follows (replay replay' : Nat → Action String) (depth depth' : Nat) :
    ∀ (item : Item) (own reference : Run),
    (∀ text ∈ item.texts, (Statement.ofText text).IsLocal) →
    Item.EnteredAlike c c' depth depth' [item] → own.Follows name c c' reference →
    (runItem replay depth item own).Follows name c c' (runItem replay' depth' item reference)
  | .statement line text, own, reference, hlocal, _, h => by
    obtain hresembles | hlacks := h
    · have hstatement := hlocal text (by rw [Item.texts]; exact List.mem_singleton_self _)
      rw [runItem, runItem]
      exact .perform hresembles line (Statement.carryOut_tracks _ hstatement _ _)
    · exact .inr ((runItem_records replay' depth' _ reference).lacks hlacks)
  | .block line header body, own, reference, hlocal, hblocks, h => by
    obtain hresembles | hlacks := h
    · rw [Item.texts] at hlocal
      obtain ⟨hdepth, hlimit⟩ := hblocks 0 line header body (.top (List.mem_singleton_self _))
      have hblock := Run.Follows.runBlock
        (fun own reference => runItems_follows replay replay' (depth + 1) (depth' + 1) body own
          reference hlocal (hblocks.body (List.mem_singleton_self _)))
        (fun run => (runItems_records replay' (depth' + 1) body run).lacks) hdepth hlimit hresembles
      rw [runItem, runItem]
      generalize runBlock header depth (runItems replay (depth + 1) body) own = outcome at *
      generalize runBlock header depth' (runItems replay' (depth' + 1) body) reference =
        outcome' at *
      obtain ⟨answer, run⟩ := outcome
      obtain ⟨answer', run'⟩ := outcome'
      obtain hruns | ⟨e, hvalue, he⟩ := hblock
      · -- Failures are told in the summaries and leave the sessions alone.
        have hfail : ∀ e, run'.Lacks → (run'.fail line e).Lacks := fun e =>
          (records_fail run' (.block line header body) e).lacks
        cases answer' with
        | error e =>
          have hfailed := hruns.imp id (hfail e)
          cases answer <;> exact hfailed
        | ok _ => cases answer <;> exact hruns
      · obtain rfl : answer' = _ := he
        exact .inr (lacks_fail run' line hvalue)
    · exact .inr ((runItem_records replay' depth' _ reference).lacks hlacks)
  | .broken line error, own, reference, _, _, h => by
    rw [runItem, runItem]
    exact h.imp id (records_fail reference (.broken line error) error).lacks

end

end

end GraphScript
