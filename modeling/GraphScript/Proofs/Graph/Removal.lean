import GraphScript.Proofs.Graph.Pairs
import GraphScript.Proofs.Graph.WellFormed

/-!
# Removing a node

A node goes together with the edges at it, so the other nodes lose edges as well. An edge that is
at two distinct nodes joins them (`Edge.touches_and_touches`), and what a node loses is therefore
the edges between it and the removed one, in both directions and with all parallel ones
(`degree_withoutEdgesAt`). Loops take no part in this: those at the removed node are at no other
node, and the others stay.
-/

namespace GraphScript

/-- The edges at both of two distinct nodes are the edges that join them. -/
theorem Edge.touches_and_touches (e : Edge) {a b : String} (hne : a ≠ b) :
    (e.touches a && e.touches b) = e.joins a b := by
  rw [Bool.eq_iff_iff, Bool.and_eq_true, touches_iff, touches_iff, joins_iff]
  exact Sym2.mem_and_mem_iff hne

namespace Graph

variable (g : Graph) (u v : String)

theorem edges_withoutEdgesAt :
    (g.withoutEdgesAt v).edges = g.edges.filter fun e => e.source ≠ v ∧ e.target ≠ v := by
  rw [withoutEdgesAt]
  refine List.filter_congr fun e _ => ?_
  rw [Bool.eq_iff_iff]
  simp [Edge.touches]

theorem degree_withoutEdgesAt_self : (g.withoutEdgesAt v).degree v = 0 := by
  refine List.countP_eq_zero.2 fun e he => ?_
  simpa using (List.mem_filter.1 he).2

/-- What another node loses is the edges that join the two. -/
theorem degree_withoutEdgesAt {u v : String} (hne : u ≠ v) :
    g.degree u = (g.withoutEdgesAt v).degree u + g.edges.countP (·.joins u v) := by
  calc g.degree u
      = (g.edges.filter (·.touches v)).countP (·.touches u) + (g.withoutEdgesAt v).degree u :=
        List.countP_eq_countP_filter_add g.edges (·.touches u) (·.touches v)
    _ = g.edges.countP (·.joins u v) + (g.withoutEdgesAt v).degree u := by
        rw [List.countP_filter]
        simp only [Edge.touches_and_touches _ hne]
    _ = _ := Nat.add_comm _ _

/-- Where ids are distinct, every node can be removed. It goes with its edges, which are as many as
    its degree says; the other edges stay in their order, and every other id is left with as many
    edges fewer as joined it with the node. -/
theorem removeNode_drops_degrees {g : Graph} (hids : g.ids.Nodup) {v : String} (hv : v ∈ g.ids) :
    ∃ g', g.removeNode v = (.ok (g.degree v), g') ∧
      g'.edges = g.edges.filter (fun e => e.source ≠ v ∧ e.target ≠ v) ∧
      g.edges.length = g'.edges.length + g.degree v ∧
      (∀ u, u ∈ g'.ids ↔ u ∈ g.ids ∧ u ≠ v) ∧
      g'.degree v = 0 ∧
      ∀ u, u ≠ v → g.degree u = g'.degree u + g.edges.countP (·.joins u v) := by
  refine ⟨_, removeNode_of_mem hv, edges_withoutEdgesAt g v, length_withoutEdgesAt g v, fun u => ?_,
    degree_withoutEdgesAt_self g v, fun u hne => degree_withoutEdgesAt g hne⟩
  rw [ids_eraseP, hids.mem_erase_iff, and_comm]

/-- A node with a loop, with edges in both directions and a parallel one to a first node, with one
    edge to a second, and with one to an id that no node has. A loop at the first node stays. -/
theorem removeNode_drops_degrees_parallel :
    let g : Graph := { Graph.empty "main" with
      nodes := ["a", "v", "b", "c"].map (Node.new · none)
      edges := [⟨"a", "v", 1.0⟩, ⟨"v", "v", 1.0⟩, ⟨"a", "a", 2.0⟩, ⟨"v", "a", 3.0⟩, ⟨"a", "v", 4.0⟩,
        ⟨"b", "v", 1.0⟩, ⟨"c", "b", 5.0⟩, ⟨"v", "x", 1.0⟩] }
    (g.ids.Nodup ∧ "v" ∈ g.ids) ∧ ∃ g', g.removeNode "v" = (.ok 6, g') ∧
      g'.edges = [⟨"a", "a", 2.0⟩, ⟨"c", "b", 5.0⟩] ∧
      g.degree "a" = 4 ∧ g'.degree "a" = 1 ∧ g'.degree "b" = 1 ∧ g'.degree "c" = 1 ∧
      g'.degree "x" = 0 := by
  intro g
  have hids : g.ids.Nodup := by decide
  have hv : "v" ∈ g.ids := by decide
  obtain ⟨g', hremove, hedges, -, -, -, hdegree⟩ := removeNode_drops_degrees hids hv
  have hdrop (u : String) (hne : u ≠ "v") {before joined : ℕ} (hbefore : g.degree u = before)
      (hjoined : g.edges.countP (·.joins u "v") = joined) : g'.degree u = before - joined := by
    have := hdegree u hne
    omega
  exact ⟨⟨hids, hv⟩, g', hremove, hedges, rfl, hdrop "a" (by decide) rfl rfl,
    hdrop "b" (by decide) rfl rfl, hdrop "c" (by decide) rfl rfl, hdrop "x" (by decide) rfl rfl⟩

end Graph

end GraphScript
