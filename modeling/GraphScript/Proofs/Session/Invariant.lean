import GraphScript.Proofs.Graph.WellFormed
import Mathlib.Data.List.TakeDrop

/-!
# Invariants of sessions

A property of sessions is *invariant* when the changes that statements make keep it, and
setting the counter of a `For` does. Whatever is run then keeps it (`Invariant.run`): the
items of a script one after the other, the bodies of its blocks as often as they are
repeated, and the example that `Initialize` plays.

The sessions that scripts can lead to are the `Reachable` ones, between two runs and within a
run. So an invariant that holds of a new session holds of all of them (`Invariant.reachable`).

* `Session.graphs_wellFormed`: all graphs of a reachable session are well formed.
-/

namespace GraphScript

/-- The action keeps a property of sessions, whether it succeeds or fails. -/
def Action.Keeps {α : Type} (P : Session → Prop) (a : Action α) : Prop :=
  ∀ s, P s → P (a.run.run s).2

theorem Action.Keeps.modify {α : Type} {P : Session → Prop} {f : Session → Session} (x : α)
    (h : ∀ s, P s → P (f s)) : Keeps P (do modify f; return x) :=
  fun s hs => h s hs

namespace Session

/-- The property survives every change that a statement makes, and counting. -/
structure Invariant (P : Session → Prop) : Prop where
  change : ∀ {st : Statement} {s s' : Session}, s.Change st s' → P s → P s'
  count : ∀ {s : Session} (name : String) (value : Float), P s →
    P { s with env := s.env.set name value }

/-- The sessions that running texts leads to from a new one: between two runs, and within a
    run after a statement or the step of a counter. -/
inductive Reachable (config : Config) : Session → Prop
  | new (syntaxReason : String → String) : Reachable config (Session.new config syntaxReason)
  | run {s} (source : String) (h : Reachable config s) : Reachable config (s.run source).session
  | statement {s} (text : String) (depth : Nat) (h : Reachable config s) :
      Reachable config ((dispatch text depth).run.run s).2
  | count {s} (name : String) (value : Float) (h : Reachable config s) :
      Reachable config { s with env := s.env.set name value }

variable {P : Session → Prop}

theorem Invariant.carryOut (hP : Invariant P) (st : Statement) {replay : Action String}
    (hreplay : replay.Keeps P) : (st.carryOut replay).Keeps P := by
  intro s hs
  by_cases hverb : st.words.head? = some "Initialize"
  · rw [st.carryOut_initialize replay hverb]
    exact hreplay s hs
  · obtain ⟨message, s', hrun, hchange⟩ | ⟨e, hrun⟩ := Action.yields_iff.1
      (st.carryOut_yields (s := s) replay hverb)
    · rw [hrun]
      exact hP.change hchange hs
    · rw [hrun]
      exact hs

/-! ### Loops -/

theorem countLoop_keeps (hP : Invariant P) {counter : String} {first : Float} {body : Run → Run}
    (hbody : ∀ run, P run.session → P (body run).session) :
    ∀ (more step : Nat) (run : Run), P run.session →
      P (countLoop counter first body more step run).session
  | 0, _, _, hrun => hrun
  | more + 1, step, _, hrun =>
    countLoop_keeps hP hbody more (step + 1) _ (hbody _ (hP.count counter _ hrun))

theorem whileLoop_keeps (holds : Run → Except Error Bool) {body : Run → Run}
    (hbody : ∀ run, P run.session → P (body run).session) :
    ∀ (more : Nat) (run : Run), P run.session → P (whileLoop holds body more run).2.session
  | 0, _, hrun => hrun
  | more + 1, run, hrun => by
    rw [whileLoop]
    split
    · exact whileLoop_keeps holds hbody more _ (hbody run hrun)
    · exact hrun

theorem runBlock_keeps (hP : Invariant P) {body : Run → Run}
    (hbody : ∀ run, P run.session → P (body run).session) (header : Header) (depth : Nat)
    (run : Run) (hrun : P run.session) : P (runBlock header depth body run).2.session := by
  unfold runBlock
  split
  · exact hrun
  · -- `If`, `While` and `For`, in this order.
    split
    · split
      · exact hrun
      · exact hbody run hrun
      · exact hrun
    · rename_i condition
      have hloop := whileLoop_keeps (·.holds condition) hbody
        run.session.config.whileIterationLimit run hrun
      generalize whileLoop (·.holds condition) body run.session.config.whileIterationLimit run =
        outcome at *
      rcases outcome with ⟨_ | _, run'⟩ <;> exact hloop
    · split
      · exact hrun
      · split
        · exact hrun
        · exact countLoop_keeps hP hbody _ _ _ hrun

/-! ### Items -/

mutual

theorem runItems_keeps (hP : Invariant P) {replay : Nat → Action String}
    (hreplay : ∀ depth, (replay depth).Keeps P) (depth : Nat) :
    ∀ (items : List Item) (run : Run), P run.session →
      P (runItems replay depth items run).session
  | [], _, hrun => hrun
  | item :: rest, run, hrun => by
    rw [runItems]
    exact runItems_keeps hP hreplay depth rest _ (runItem_keeps hP hreplay depth item run hrun)

theorem runItem_keeps (hP : Invariant P) {replay : Nat → Action String}
    (hreplay : ∀ depth, (replay depth).Keeps P) (depth : Nat) :
    ∀ (item : Item) (run : Run), P run.session → P (runItem replay depth item run).session
  | .statement line text, run, hrun => by
    have hkeeps := hP.carryOut (Statement.ofText text) (hreplay depth) run.session hrun
    rw [runItem, Run.perform]
    generalize ((Statement.ofText text).carryOut (replay depth)).run.run run.session = outcome at *
    rcases outcome with ⟨_ | _, s'⟩ <;> exact hkeeps
  | .block line header body, run, hrun => by
    have hkeeps := runBlock_keeps hP (runItems_keeps hP hreplay (depth + 1) body) header depth run
      hrun
    rw [runItem]
    generalize runBlock header depth (runItems replay (depth + 1) body) run = outcome at *
    rcases outcome with ⟨_ | _, run'⟩ <;> exact hkeeps
  | .broken line error, run, hrun => by
    rw [runItem]
    exact hrun

end

/-! ### Runs -/

theorem Invariant.reset (hP : Invariant P) {s : Session} (hs : P s) :
    P { s with store := s.store.reset } :=
  hP.change (Change.graph .reset : s.Change (Statement.ofText "Reset") _) hs

/-- The example may in turn ask for the example; the induction is on how often. -/
theorem Invariant.playExample (hP : Invariant P) :
    ∀ replays depth : Nat, (GraphScript.playExample replays depth).Keeps P := by
  intro replays
  induction replays with
  | zero =>
    intro depth
    rw [GraphScript.playExample]
    exact Action.Keeps.modify _ fun s hs => hP.reset hs
  | succ replays ih =>
    intro depth
    rw [GraphScript.playExample]
    exact Action.Keeps.modify _ fun s hs => runItems_keeps hP ih depth _ _ (hP.reset hs)

theorem Invariant.dispatch (hP : Invariant P) (text : String) (depth : Nat) :
    (Session.dispatch text depth).Keeps P :=
  hP.carryOut (Statement.ofText text) (hP.playExample 1 depth)

/-- Running a text keeps an invariant. -/
theorem Invariant.run (hP : Invariant P) (source : String) {s : Session} (hs : P s) :
    P (s.run source).session :=
  runItems_keeps hP (hP.playExample 1) 0 _ { session := s, summary := {} } hs

/-- An invariant of new sessions is one of all sessions that scripts lead to. -/
theorem Invariant.reachable (hP : Invariant P) {config : Config}
    (hnew : ∀ syntaxReason, P (Session.new config syntaxReason)) {s : Session}
    (h : Reachable config s) : P s := by
  induction h with
  | new syntaxReason => exact hnew syntaxReason
  | run source _ ih => exact hP.run source ih
  | statement text depth _ ih => exact hP.dispatch text depth _ ih
  | count name value _ ih => exact hP.count name value ih

/-- Nothing that is run touches the limits. -/
theorem config_invariant (config : Config) : Invariant fun s => s.config = config where
  change hchange hs := by cases hchange <;> exact hs
  count _ _ hs := hs

/-! ### All graphs -/

theorem graphs_use {store store' : Store} {name : String} {graph : Graph}
    (h : store.use name = (.ok graph, store')) : store'.graphs = store.graphs := by
  rw [Store.use] at h
  split at h
  · rename_i earlier graph later hspan
    cases h
    rw [List.span_eq_takeWhile_dropWhile, Prod.mk.injEq] at hspan
    rw [Store.graphs, ← hspan.1, ← hspan.2, List.takeWhile_append_dropWhile]
  · cases h

theorem graphs_create {store store' : Store} {name : String}
    (h : store.create name = (.ok (), store')) :
    store'.graphs = store.graphs ++ [Graph.empty name] := by
  obtain ⟨-, rfl⟩ := Store.create_eq_ok_iff.1 h
  simp [Store.graphs]

theorem mem_graphs_setCurrent {store : Store} {g g' : Graph}
    (h : g' ∈ (store.setCurrent g).graphs) : g' = g ∨ g' ∈ store.graphs := by
  simp only [Store.setCurrent, Store.graphs, List.mem_append, List.mem_cons] at h ⊢
  tauto

theorem graph_mem_graphs (s : Session) : s.graph ∈ s.store.graphs := by
  simp [Session.graph, Store.graphs]

/-- What every change keeps of the current graph is kept of all graphs, if it holds of the
    graphs that are created. -/
theorem Invariant.graphs {Q : Graph → Prop} (hempty : ∀ name, Q (Graph.empty name))
    (hkeeps : ∀ {named : String → Prop} {g g' : Graph}, g.Change named g' → Q g → Q g') :
    Invariant fun s => ∀ g ∈ s.store.graphs, Q g where
  change := by
    intro st s s' hchange hs g hg
    cases hchange with
    | same => exact hs g hg
    | graph hgraph =>
      rcases mem_graphs_setCurrent hg with rfl | hg
      · exact hkeeps hgraph (hs s.graph s.graph_mem_graphs)
      · exact hs g hg
    | create _ hcreate =>
      rw [graphs_create hcreate, List.mem_append, List.mem_singleton] at hg
      rcases hg with hg | rfl
      · exact hs g hg
      · exact hempty _
    | use _ huse => exact hs g (graphs_use huse ▸ hg)
    | bind => exact hs g hg
  count _ _ hs := hs

theorem Reachable.graphs {Q : Graph → Prop} (hempty : ∀ name, Q (Graph.empty name))
    (hkeeps : ∀ {named : String → Prop} {g g' : Graph}, g.Change named g' → Q g → Q g')
    {config : Config} {s : Session} (h : Reachable config s) : ∀ g ∈ s.store.graphs, Q g := by
  have hnew (syntaxReason : String → String) :
      ∀ g ∈ (Session.new config syntaxReason).store.graphs, Q g := fun g hg => by
    rw [List.mem_singleton.1 hg]
    exact hempty _
  exact (Invariant.graphs hempty hkeeps).reachable hnew h

/-- All graphs are well formed, the current one and the others. -/
def GraphsWellFormed (s : Session) : Prop :=
  ∀ g ∈ s.store.graphs, g.WellFormed

theorem graphsWellFormed_new (config : Config) (syntaxReason : String → String) :
    GraphsWellFormed (Session.new config syntaxReason) := by
  intro g hg
  rw [List.mem_singleton.1 hg]
  exact Graph.wellFormed_empty _

theorem graphsWellFormed_invariant : Invariant GraphsWellFormed :=
  Invariant.graphs Graph.wellFormed_empty fun hchange h => h.change hchange

/-- Whatever scripts are run, and at every point of a run, all graphs are well formed: their
    ids are distinct, their edges end at nodes, and their weights are finite and not negative.
    So the search for a cheapest path is never refused for a negative weight. -/
theorem graphs_wellFormed {config : Config} {s : Session} (h : Reachable config s) :
    ∀ g ∈ s.store.graphs, g.WellFormed ∧ g.edges.any (fun e => e.weight < 0.0) = false := by
  intro g hg
  have hwell := graphsWellFormed_invariant.reachable (graphsWellFormed_new config) h g hg
  exact ⟨hwell, hwell.no_negative_weight⟩

/-- Two texts in one session; the second contracts an edge in a loop. -/
theorem graphs_wellFormed_two_runs :
    let config : Config := { maxBlockDepth := 2 }
    let first := (Session.new config).run
      "Set WEIGHTED true. Create Node a. Create Node b. Connect a To b WEIGHT 2 / 3."
    let second := first.session.run "For i = 1 to 3 { Contract a b. Initialize. }"
    Reachable config second.session ∧ ∀ g ∈ second.session.store.graphs,
      g.WellFormed ∧ g.edges.any (fun e => e.weight < 0.0) = false :=
  have h := .run _ (.run _ (.new _))
  ⟨h, graphs_wellFormed h⟩

end Session

end GraphScript
