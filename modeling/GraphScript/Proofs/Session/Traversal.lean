import GraphScript.Proofs.Graph.Distance
import GraphScript.Proofs.Session.Effect

/-!
# Traversals

A traversal visits what is reachable from a node, nearest first, and then flags the nodes whose ids
it has visited, and no others. The flags that earlier traversals have left are taken back, and
nothing else in the session changes (`Session.traverse_flags_joined`).
-/

namespace GraphScript

/-- The node with the flag of a traversal set where something holds, and otherwise as it was. -/
def Node.Flagged (visited : Prop) (old new : Node) : Prop :=
  new = { old with traversed := new.traversed } ∧ (new.traversed = true ↔ visited)

theorem Graph.forall₂_markTraversed (g : Graph) (visited : List String) :
    List.Forall₂ (fun old new => Node.Flagged (old.id ∈ visited) old new) g.nodes
      (g.markTraversed visited).nodes := by
  rw [markTraversed, List.forall₂_map_right_iff, List.forall₂_same]
  exact fun node _ => ⟨rfl, List.contains_iff_mem⟩

namespace Statement

open GraphScript.Action

variable (st : Statement) {s : Session} {word start : String}

theorem carryOut_traverse (replay : Action String) (h : st.words.head? = some "Traverse") :
    st.carryOut replay = st.traverse := by
  simp only [carryOut, h]

/-- A traversal succeeds from a node only, and then flags what is reachable from there. -/
theorem yields_traverse_flags : Yields st.traverse s fun _ s' => ∃ word start,
    st.words[1]? = some word ∧ s.env.resolve word = .ok start ∧ start ∈ s.graph.ids ∧
      s' = s.setGraph (s.graph.markTraversed (s.graph.reachable start)) := by
  have hresolved : Reads (st.resolved "TRAVERSE" 1) s fun start =>
      ∃ word, st.words[1]? = some word ∧ s.env.resolve word = .ok start :=
    (st.reads_word _ _).bind fun word hword =>
      (Reads.resolve word).mono fun _ _ ⟨hs, hstart⟩ => ⟨hs, word, hword, hstart⟩
  refine hresolved.bind fun start ⟨word, hword, hstart⟩ => ?_
  refine Reads.graph.bind fun g hg => ?_
  subst hg
  dsimp only
  split
  · exact Yields.throw _
  · rename_i hvisited
    -- From what is no node, nothing is reachable.
    have hmem : start ∈ s.graph.ids := by
      by_contra hnot
      exact hvisited (by rw [Graph.reachable_of_not_mem hnot]; rfl)
    exact (Yields.modify ⟨word, start, hword, hstart, hmem, rfl⟩).answer

theorem run_traverse (hword : st.words[1]? = some word) (hstart : s.env.resolve word = .ok start)
    (hmem : start ∈ s.graph.ids) : ∃ message, st.traverse.run.run s =
      (.ok message, s.setGraph (s.graph.markTraversed (s.graph.reachable start))) := by
  -- A node is reachable from itself, so the check for an empty list lets it pass.
  have hvisited : ¬(s.graph.reachable start).isEmpty = true := by
    rw [List.isEmpty_iff]
    intro hnil
    have hhead := Graph.head?_reachable hmem
    rw [hnil] at hhead
    cases hhead
  rw [traverse, run_bind, st.run_resolved hword hstart]
  dsimp only
  rw [run_bind]
  change ∃ message, (if (s.graph.reachable start).isEmpty = true then _ else _ :
    Action String).run.run s = _
  rw [if_neg hvisited]
  exact ⟨_, rfl⟩

end Statement

namespace Session

/-- What is reachable from a node are the nodes that some route leads to from there, taking edges in
    either direction: each of them once, the node itself first, and nearer ones before those that
    are farther away. `Traverse` succeeds when its word stands for a node; then it sets the flags
    of those nodes, clears those of all others, and changes nothing else in the session. -/
theorem traverse_flags_joined :
    (∀ (g : Graph) (start : String), start ∈ g.ids →
      (∀ id, id ∈ g.reachable start ↔ ∃ path steps, g.Route start id path steps) ∧
      (g.reachable start).Nodup ∧ (g.reachable start).head? = some start ∧
      (g.reachable start).Pairwise fun a b => g.distance start a ≤ g.distance start b) ∧
    ∀ (s : Session) (text : String) (depth : ℕ),
      (Text.wordsOf text).head? = some "Traverse" →
      let outcome := (dispatch text depth).run.run s
      ((∃ message, outcome.1 = .ok message) ↔ ∃ word start, (Text.wordsOf text)[1]? = some word ∧
        s.env.resolve word = .ok start ∧ start ∈ s.graph.ids) ∧
      ∀ word start, (Text.wordsOf text)[1]? = some word → s.env.resolve word = .ok start →
        start ∈ s.graph.ids → ∃ nodes, outcome.2 = s.setGraph { s.graph with nodes := nodes } ∧
          List.Forall₂ (fun old new =>
            Node.Flagged (∃ path steps, s.graph.Route start old.id path steps) old new)
            s.graph.nodes nodes := by
  refine ⟨fun g start hstart => ⟨fun _ => Graph.mem_reachable_iff, g.nodup_reachable start,
    Graph.head?_reachable hstart, g.pairwise_distance_reachable start⟩, ?_⟩
  intro s text depth hverb outcome
  have houtcome : outcome = (Statement.ofText text).traverse.run.run s :=
    congrArg (fun action : Action String => action.run.run s)
      ((Statement.ofText text).carryOut_traverse _ hverb)
  refine ⟨⟨?_, ?_⟩, fun word start hword hresolve hstart => ?_⟩
  · rintro ⟨message, hmessage⟩
    obtain ⟨_, _, hrun, word, start, hword, hresolve, hstart, -⟩ | ⟨e, hrun⟩ :=
      Action.yields_iff.1 ((Statement.ofText text).yields_traverse_flags (s := s))
    · exact ⟨word, start, hword, hresolve, hstart⟩
    · rw [houtcome, hrun] at hmessage
      cases hmessage
  · rintro ⟨word, start, hword, hresolve, hstart⟩
    obtain ⟨message, hrun⟩ := (Statement.ofText text).run_traverse hword hresolve hstart
    exact ⟨message, by rw [houtcome, hrun]⟩
  · obtain ⟨message, hrun⟩ := (Statement.ofText text).run_traverse hword hresolve hstart
    refine ⟨(s.graph.markTraversed (s.graph.reachable start)).nodes, ?_, ?_⟩
    · rw [houtcome, hrun]
      rfl
    · exact (s.graph.forall₂_markTraversed _).imp fun _ _ hflagged =>
        ⟨hflagged.1, hflagged.2.trans Graph.mem_reachable_iff⟩

/-- The loop and the edges between `b` and `c` there and back lead to no node twice. The flag that
    `e` has from an earlier traversal goes, and no edge leads to `e` from a node. -/
theorem traverse_flags_joined_stale :
    let g : Graph := { Graph.empty "main" with
      nodes := [Node.new "a" none, Node.new "b" none, Node.new "c" none, Node.new "d" none,
        { Node.new "e" none with traversed := true }]
      edges := [⟨"b", "b", 1.0⟩, ⟨"b", "c", 1.0⟩, ⟨"c", "b", 1.0⟩, ⟨"c", "d", 1.0⟩, ⟨"a", "b", 1.0⟩,
        ⟨"x", "e", 1.0⟩] }
    let s : Session := (Session.new {}).setGraph g
    let outcome := (dispatch "Traverse d" 2).run.run s
    g.reachable "d" = ["d", "c", "b", "a"] ∧ g.distance "d" "c" ≤ g.distance "d" "b" ∧
      (¬∃ path steps, g.Route "d" "e" path steps) ∧ (∃ message, outcome.1 = .ok message) ∧
      ∃ nodes, outcome.2 = s.setGraph { g with nodes := nodes } ∧
        nodes.map (·.traversed) = [true, true, true, true, false] := by
  intro g s outcome
  have hreachable : g.reachable "d" = ["d", "c", "b", "a"] := by decide +kernel
  obtain ⟨hlisted, htraverse⟩ := traverse_flags_joined
  obtain ⟨hroutes, -, -, hdistance⟩ := hlisted g "d" (by decide)
  obtain ⟨hsucceeds, hflags⟩ := htraverse s "Traverse d" 2 (by decide +kernel)
  have hword : (Text.wordsOf "Traverse d")[1]? = some "d" := by decide +kernel
  obtain ⟨nodes, hsession, -⟩ := hflags "d" "d" hword (by decide +kernel) (by decide)
  have hnodes : outcome.2.graph.nodes.map (·.traversed) = [true, true, true, true, false] := by
    decide +kernel
  simp only [hreachable] at hroutes hdistance
  rw [hsession] at hnodes
  refine ⟨hreachable, ?_, fun hroute => ?_,
    hsucceeds.2 ⟨"d", "d", hword, by decide +kernel, by decide⟩, nodes, hsession, hnodes⟩
  · exact List.rel_of_pairwise_cons (List.pairwise_cons.1 hdistance).2 (by simp)
  · exact absurd ((hroutes "e").2 hroute) (by decide)

end Session

end GraphScript
