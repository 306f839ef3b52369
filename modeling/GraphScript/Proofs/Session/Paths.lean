import GraphScript.Proofs.Graph.CheapestPath
import GraphScript.Proofs.Graph.Components
import GraphScript.Proofs.Session.Invariant

/-!
# Paths in weighted graphs

`Get PATH` looks for a cheapest path in a weighted graph. A way to a slot is kept when its cost is
less than that of a slot without any, which is infinite. So it is not only a matter of where edges
lead: the weights of all edges are finite, but their sum along a walk may be too large for a finite
double, and such a walk is never taken.

* `Session.getPath_weighted_iff`: where directions do not matter, `Get PATH` finds a path between
  two nodes when they are in one component and some walk between them has a finite cost.
* `Session.getPath_fails_in_component`: two nodes of one component without a path, as both edges
  between them cost more than half of the largest finite double.
-/

namespace GraphScript

namespace Statement

open GraphScript.Action

variable (st : Statement) {s : Session} {first second start target : String}

theorem carryOut_getPath (replay : Action String) {rest : List String}
    (h : st.words = "Get" :: "PATH" :: rest) : st.carryOut replay = st.getPath := by
  have hverb : st.words.head? = some "Get" := by rw [h]; rfl
  have hword : st.word "GET" 1 = pure "PATH" := by simp [word, h]
  simp only [carryOut, hverb, getAnswer, hword, pure_bind]

theorem getPath_weighted (hweighted : s.graph.weighted = true)
    (hfirst : st.words[2]? = some first) (hstart : s.env.resolve first = .ok start)
    (hsecond : st.words[3]? = some second) (htarget : s.env.resolve second = .ok target) :
    (∃ message, (st.getPath.run.run s).1 = .ok message) ↔
      ∃ path, s.graph.cheapestPath? start target = some path := by
  have hgraph : Action.graph.run.run s = (.ok s.graph, s) := rfl
  simp only [getPath, run_bind, st.run_resolved hfirst hstart, st.run_resolved hsecond htarget,
    hgraph, hweighted, if_true]
  cases s.graph.cheapestPath? start target with
  | none => exact iff_of_false (by rintro ⟨_, h⟩; cases h) (by simp)
  | some path => exact iff_of_true ⟨_, rfl⟩ ⟨path, rfl⟩

end Statement

namespace Session

/-- In every session that scripts lead to whose graph is weighted and undirected, `Get PATH`
    succeeds for two nodes exactly when they are in one component and some walk between them has a
    finite cost. As long as no sum of weights is too large for a finite double, it is thus a matter
    of the components alone. -/
theorem getPath_weighted_iff {config : Config} {s : Session} (h : Reachable config s)
    (hweighted : s.graph.weighted = true) (hundirected : s.graph.directed = false)
    {text first second a b : String} {rest : List String}
    (hwords : Text.wordsOf text = "Get" :: "PATH" :: first :: second :: rest)
    (hfirst : s.env.resolve first = .ok a) (hsecond : s.env.resolve second = .ok b)
    (ha : a ∈ s.graph.ids) (hb : b ∈ s.graph.ids) (depth : ℕ) :
    (∃ message, ((dispatch text depth).run.run s).1 = .ok message) ↔
      (∃ c ∈ s.graph.components, a ∈ c ∧ b ∈ c) ∧
        ∃ path cost, s.graph.Walk false a b path cost ∧ cost.isFinite = true := by
  have hwell : s.graph.WellFormed :=
    h.graphs Graph.wellFormed_empty (fun hchange hwell => hwell.change hchange) s.graph
      s.graph_mem_graphs
  obtain ⟨origin, horigin⟩ := Graph.exists_slot? ha
  obtain ⟨goal, hgoal⟩ := Graph.exists_slot? hb
  set st := Statement.ofText text with hst
  have hdispatch : dispatch text depth = st.getPath := st.carryOut_getPath _ hwords
  have hword : st.words[2]? = some first ∧ st.words[3]? = some second := by
    simp [hst, Statement.ofText, hwords]
  rw [hdispatch, st.getPath_weighted hweighted hword.1 hfirst hword.2 hsecond,
    Graph.exists_cheapestPath?_iff hwell.weights horigin hgoal, hundirected,
    Graph.exists_component_iff hwell.ids_nodup ha]
  constructor
  · rintro ⟨path, cost, hwalk, hlt⟩
    obtain ⟨steps, hroute⟩ := hwalk.route
    exact ⟨⟨path, steps, hroute⟩, path, cost, hwalk,
      (Frontier.lt_unreached_iff (hwalk.isAmount hwell.weights)).1 hlt⟩
  · rintro ⟨-, path, cost, hwalk, hfinite⟩
    exact ⟨path, cost, hwalk, (Frontier.lt_unreached_iff (hwalk.isAmount hwell.weights)).2 hfinite⟩

/-- Two edges in a row, each with the weight `2 ^ 1023`, lead from `a` to `c`. -/
def costlyText : String :=
  "Set WEIGHTED true. Let w = 65536. For i = 1 to 5 { Let w = $w * $w. }
Let w = $w * ($w / 2).
Create Node a. Create Node b. Create Node c.
Connect a To b WEIGHT $w. Connect b To c WEIGHT $w."

/-- All that is asked of the session of these edges, in one evaluation. -/
theorem costly_evaluation :
    let s := ((Session.new {}).run costlyText).session
    (s.graph.weighted = true ∧ s.graph.directed = false ∧ s.graph.ids = ["a", "b", "c"] ∧
      s.graph.components = [["a", "b", "c"]]) ∧
    (s.env.resolve "a" = .ok "a" ∧ s.env.resolve "b" = .ok "b") ∧
    (∃ e ∈ s.graph.edges, e.source = "a" ∧ e.target = "b" ∧ (0.0 + e.weight).isFinite = true) ∧
    ((dispatch "Get PATH a c" 0).run.run s).1 = .error (.rejected "No path found from a to c.") := by
  decide +kernel

/-- One of the two edges is not too much, and it can be taken backwards. -/
theorem getPath_weighted_iff_single :
    let s := ((Session.new {}).run costlyText).session
    (Reachable {} s ∧ s.graph.weighted = true ∧ s.graph.directed = false ∧
      "b" ∈ s.graph.ids ∧ "a" ∈ s.graph.ids) ∧
      ∃ message, ((dispatch "Get PATH b a" 2).run.run s).1 = .ok message := by
  intro s
  have hreach : Reachable {} s := .run _ (.new _)
  obtain ⟨⟨hweighted, hundirected, hids, hcomponents⟩, ⟨ha, hb⟩, ⟨e, he, hsource, htarget, hfinite⟩,
    -⟩ := costly_evaluation
  have hmem : "b" ∈ s.graph.ids ∧ "a" ∈ s.graph.ids := by simp [s, hids]
  have hwords : Text.wordsOf "Get PATH b a" = ["Get", "PATH", "b", "a"] := by decide +kernel
  have hwalk : s.graph.Walk false "b" "a" ["b", "a"] (0.0 + e.weight) :=
    .step (.start hmem.1) he (.inr ⟨rfl, htarget, hsource⟩) hmem.2
  have hpath := getPath_weighted_iff hreach hweighted hundirected hwords hb ha hmem.1 hmem.2 2
  refine ⟨⟨hreach, hweighted, hundirected, hmem⟩, hpath.2 ⟨?_, _, _, hwalk, hfinite⟩⟩
  rw [hcomponents]
  decide

/-- Together the two edges cost `2 ^ 1024`, which is infinite as a double. So no path is found
    between two nodes of one component. -/
theorem getPath_fails_in_component :
    let s := ((Session.new {}).run costlyText).session
    (Reachable {} s ∧ s.graph.weighted = true ∧ s.graph.directed = false ∧
      "a" ∈ s.graph.ids ∧ "c" ∈ s.graph.ids) ∧
      (∃ c ∈ s.graph.components, "a" ∈ c ∧ "c" ∈ c) ∧
      ¬∃ message, ((dispatch "Get PATH a c" 0).run.run s).1 = .ok message := by
  intro s
  obtain ⟨⟨hweighted, hundirected, hids, hcomponents⟩, -, -, hfails⟩ := costly_evaluation
  refine ⟨⟨.run _ (.new _), hweighted, hundirected, by simp [s, hids], by simp [s, hids]⟩, ?_, ?_⟩
  · rw [hcomponents]
    decide
  · rintro ⟨message, hfound⟩
    rw [hfails] at hfound
    cases hfound

end Session

end GraphScript
