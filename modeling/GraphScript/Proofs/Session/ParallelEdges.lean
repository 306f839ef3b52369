import GraphScript.Proofs.Graph.Contraction
import GraphScript.Proofs.Session.Trace

/-!
# Parallel edges

`Connect` refuses a second edge from one node to another, and a subdivision leads its edges
through a new node. So parallel edges should never come up. But a contraction moves the edges
of both nodes to the new one and does not look whether two of them become parallel.

* `Session.parallel_edges_iff`: a history of runs is free of parallel edges at all points
  exactly when no contraction in it merges two nodes that share a neighbour in the same
  direction.
* `Session.contraction_makes_parallel_edges`: a script with such a contraction.
-/

namespace GraphScript

namespace Graph

/-- The ends of the edges, in the order of the edges. -/
def arcs (g : Graph) : List (String × String) :=
  g.edges.map fun e => (e.source, e.target)

/-- Edges lead from both nodes to a third one, or from a third one to both. -/
def SharedNeighbor (g : Graph) (a b : String) : Prop :=
  a ≠ b ∧ ∃ x, x ≠ a ∧ x ≠ b ∧
    ((a, x) ∈ g.arcs ∧ (b, x) ∈ g.arcs ∨ (x, a) ∈ g.arcs ∧ (x, b) ∈ g.arcs)

variable {g g' : Graph}

theorem mem_ids_of_mem_arcs (h : g.WellFormed) {source target : String}
    (harc : (source, target) ∈ g.arcs) : source ∈ g.ids ∧ target ∈ g.ids := by
  obtain ⟨e, he, heq⟩ := List.mem_map.1 harc
  cases heq
  exact h.ends_mem e he

/-! ### Contractions -/

theorem arcs_contract {a b merged : String} (h : g.contract a b = (.ok merged, g')) :
    g'.arcs = (g.arcs.filter fun arc =>
        !((arc.1 == a || arc.1 == b) && (arc.2 == a || arc.2 == b))).map
      fun arc => (mergedEnd a b merged arc.1, mergedEnd a b merged arc.2) := by
  obtain ⟨-, -, -, rfl⟩ := contract_eq_ok_iff.1 h
  simp only [arcs, List.map_map, List.filter_map]
  rfl

theorem SharedNeighbor.of_sources {a b source source' x : String}
    (hsource : source = a ∨ source = b) (hsource' : source' = a ∨ source' = b)
    (hne : source ≠ source') (hx : x ≠ a ∧ x ≠ b)
    (harc : (source, x) ∈ g.arcs) (harc' : (source', x) ∈ g.arcs) : g.SharedNeighbor a b := by
  rcases hsource with rfl | rfl
  · obtain rfl : source' = b := hsource'.resolve_left hne.symm
    exact ⟨hne, x, hx.1, hx.2, .inl ⟨harc, harc'⟩⟩
  · obtain rfl : source' = a := hsource'.resolve_right hne.symm
    exact ⟨hne.symm, x, hx.1, hx.2, .inl ⟨harc', harc⟩⟩

theorem SharedNeighbor.of_targets {a b target target' x : String}
    (htarget : target = a ∨ target = b) (htarget' : target' = a ∨ target' = b)
    (hne : target ≠ target') (hx : x ≠ a ∧ x ≠ b)
    (harc : (x, target) ∈ g.arcs) (harc' : (x, target') ∈ g.arcs) : g.SharedNeighbor a b := by
  rcases htarget with rfl | rfl
  · obtain rfl : target' = b := htarget'.resolve_left hne.symm
    exact ⟨hne, x, hx.1, hx.2, .inr ⟨harc, harc'⟩⟩
  · obtain rfl : target' = a := htarget'.resolve_right hne.symm
    exact ⟨hne.symm, x, hx.1, hx.2, .inr ⟨harc', harc⟩⟩

/-- If the two nodes share a neighbour, a contraction makes edges parallel. -/
theorem SharedNeighbor.not_nodup {a b merged : String} (hshared : g.SharedNeighbor a b)
    (h : g.contract a b = (.ok merged, g')) : ¬g'.arcs.Nodup := by
  intro hnodup
  rw [arcs_contract h] at hnodup
  have hinj := List.inj_on_of_nodup_map hnodup
  obtain ⟨hab, x, hxa, hxb, ⟨ha, hb⟩ | ⟨ha, hb⟩⟩ := hshared
  · have heq := hinj (List.mem_filter.2 ⟨ha, by simp [hxa, hxb]⟩)
      (List.mem_filter.2 ⟨hb, by simp [hxa, hxb]⟩)
      (by rw [mergedEnd_of_mem (.inl rfl), mergedEnd_of_mem (.inr rfl)])
    exact hab (congrArg Prod.fst heq)
  · have heq := hinj (List.mem_filter.2 ⟨ha, by simp [hxa, hxb]⟩)
      (List.mem_filter.2 ⟨hb, by simp [hxa, hxb]⟩)
      (by rw [mergedEnd_of_mem (.inl rfl), mergedEnd_of_mem (.inr rfl)])
    exact hab (congrArg Prod.snd heq)

/-- If they do not, it does not. -/
theorem arcs_nodup_contract {a b merged : String} (hwell : g.WellFormed) (hnodup : g.arcs.Nodup)
    (h : g.contract a b = (.ok merged, g')) (hshared : ¬g.SharedNeighbor a b) :
    g'.arcs.Nodup := by
  have hne : ∀ {id : String}, id ∈ g.ids → id ≠ merged := (contracts_of_contract h).2.ne_new
  rw [arcs_contract h, List.nodup_map_iff_inj_on (hnodup.filter _)]
  rintro ⟨source, target⟩ harc ⟨source', target'⟩ harc' heq
  obtain ⟨harc, hkept⟩ := List.mem_filter.1 harc
  obtain ⟨harc', hkept'⟩ := List.mem_filter.1 harc'
  obtain ⟨hsource, htarget⟩ := mem_ids_of_mem_arcs hwell harc
  obtain ⟨hsource', htarget'⟩ := mem_ids_of_mem_arcs hwell harc'
  obtain ⟨heqSource, heqTarget⟩ := Prod.mk.injEq .. ▸ heq
  -- An edge that is kept does not have both of its ends among the two nodes.
  simp only [Bool.not_eq_true', Bool.and_eq_false_iff, Bool.or_eq_false_iff,
    beq_eq_false_iff_ne] at hkept hkept'
  by_contra hdiff
  rcases mergedEnd_inj (hne hsource) (hne hsource') heqSource with rfl | ⟨hpair, hpair'⟩
  · rcases mergedEnd_inj (hne htarget) (hne htarget') heqTarget with rfl | ⟨hpair, hpair'⟩
    · exact hdiff rfl
    · -- Both lead from one node to the two that are merged, which is thus a neighbour of both.
      have htargets : target ≠ target' := fun heq => hdiff (heq ▸ rfl)
      exact hshared (.of_targets hpair hpair' htargets (by tauto) harc harc')
  · rcases mergedEnd_inj (hne htarget) (hne htarget') heqTarget with rfl | ⟨htarget, -⟩
    · have hsources : source ≠ source' := fun heq => hdiff (heq ▸ rfl)
      exact hshared (.of_sources hpair hpair' hsources (by tauto) harc harc')
    · tauto

/-! ### Other changes -/

/-- Dropping edges makes none of them parallel. -/
theorem arcs_nodup_of_sublist (hnodup : g.arcs.Nodup) (h : g'.edges.Sublist g.edges) :
    g'.arcs.Nodup :=
  hnodup.sublist (h.map _)

theorem arcs_connect {source target : String} {weight : Option Float}
    (h : g.connect source target weight = (.ok (), g')) :
    g'.arcs = g.arcs ++ [(source, target)] ∧ (source, target) ∉ g.arcs := by
  obtain ⟨-, -, hedge, -, rfl⟩ := connect_eq_ok_iff.1 h
  refine ⟨by simp [arcs], fun harc => ?_⟩
  obtain ⟨e, he, heq⟩ := List.mem_map.1 harc
  exact hedge e he (Prod.mk.inj heq)

/-- The edges of a subdivision end at a new node, where no other edge does. -/
theorem arcs_nodup_subdivide {source target id : String} (hwell : g.WellFormed)
    (hnodup : g.arcs.Nodup) (h : g.subdivide source target id = (.ok (), g')) : g'.arcs.Nodup := by
  obtain ⟨edge, hfind, hid, rfl⟩ := subdivide_eq_ok_iff.1 h
  obtain ⟨hsource, htarget⟩ := hwell.ends_mem edge (List.mem_of_find?_eq_some hfind)
  have hold : { g with edges := g.edges.eraseP (·.joins source target) }.arcs.Nodup :=
    arcs_nodup_of_sublist hnodup List.eraseP_sublist
  have hends : ∀ arc ∈ { g with edges := g.edges.eraseP (·.joins source target) }.arcs,
      arc.1 ≠ id ∧ arc.2 ≠ id := by
    rintro ⟨source', target'⟩ harc
    have hmem := List.Sublist.subset (List.eraseP_sublist.map _) harc
    obtain ⟨hsource', htarget'⟩ := mem_ids_of_mem_arcs hwell hmem
    exact ⟨fun h => hid (h ▸ hsource'), fun h => hid (h ▸ htarget')⟩
  have hne : edge.source ≠ id := fun h => hid (h ▸ hsource)
  have hnew : [(edge.source, id), (id, edge.target)].Nodup := by
    simp [hne]
  rw [arcs, List.map_append]
  refine List.Nodup.append hold hnew fun arc harc hmem => ?_
  rcases List.mem_pair.1 hmem with rfl | rfl
  · exact (hends _ harc).2 rfl
  · exact (hends _ harc).1 rfl

/-- Whatever a statement does to a graph without parallel edges, it has none after that,
    unless two nodes are contracted that share a neighbour. -/
theorem arcs_nodup_change {named : String → Prop} (hwell : g.WellFormed) (hnodup : g.arcs.Nodup)
    (hchange : g.Change named g') :
    g'.arcs.Nodup ∨ ∃ a b merged, g.contract a b = (.ok merged, g') ∧ g.SharedNeighbor a b := by
  cases hchange with
  | @contract a b _ merged _ _ hcontract =>
    by_cases hshared : g.SharedNeighbor a b
    · exact .inr ⟨a, b, merged, hcontract, hshared⟩
    · exact .inl (arcs_nodup_contract hwell hnodup hcontract hshared)
  | addNode _ _ hadd =>
    obtain ⟨-, rfl⟩ := addNode_eq_ok_iff.1 hadd
    exact .inl hnodup
  | removeNode hremove =>
    obtain ⟨-, rfl, -⟩ := removeNode_eq_ok_iff.1 hremove
    exact .inl (arcs_nodup_of_sublist hnodup List.filter_sublist)
  | connect _ hconnect =>
    obtain ⟨harcs, hnew⟩ := arcs_connect hconnect
    rw [harcs]
    exact .inl (List.Nodup.append hnodup (List.nodup_singleton _) (by simpa using hnew))
  | removeEdges hremove =>
    obtain ⟨-, rfl, -⟩ := removeEdges_eq_ok_iff.1 hremove
    exact .inl (arcs_nodup_of_sublist hnodup List.filter_sublist)
  | isolate hisolate =>
    obtain ⟨-, rfl, -⟩ := isolate_eq_ok_iff.1 hisolate
    exact .inl (arcs_nodup_of_sublist hnodup List.filter_sublist)
  | setColor hset =>
    obtain ⟨index, -, rfl⟩ := setColor_eq_ok_iff.1 hset
    exact .inl hnodup
  | setBackground | setDirected | setWeighted | markTraversed => exact .inl hnodup
  | subdivide _ hsubdivide => exact .inl (arcs_nodup_subdivide hwell hnodup hsubdivide)
  | reset => exact .inl List.nodup_nil

end Graph

/-! ### Histories -/

/-- No graph has two edges from the same node to the same node. -/
def Session.NoParallelEdges (s : Session) : Prop :=
  ∀ g ∈ s.store.graphs, g.arcs.Nodup

/-- The statement contracts two nodes of the current graph that share a neighbour. -/
def Event.MergesNeighbors (e : Event) : Prop :=
  ∃ a b g merged, e.before.graph.contract a b = (.ok merged, g) ∧
    e.after = e.before.setGraph g ∧ e.before.graph.SharedNeighbor a b

theorem Event.MergesNeighbors.parallel {e : Event} (h : e.MergesNeighbors) :
    ¬e.after.NoParallelEdges := by
  obtain ⟨a, b, g, merged, hcontract, hafter, hshared⟩ := h
  intro hnone
  have hcurrent : g ∈ e.after.store.graphs := by
    simp [hafter, Session.setGraph, Store.setCurrent, Store.graphs]
  exact hshared.not_nodup hcontract (hnone g hcurrent)

namespace Session

theorem NoParallelEdges.change {st : Statement} {s s' : Session} (hs : s.NoParallelEdges)
    (hwell : s.GraphsWellFormed) (hchange : s.Change st s')
    (hmerge : ¬Event.MergesNeighbors { before := s, statement := st, after := s' }) :
    s'.NoParallelEdges := by
  cases hchange with
  | same => exact hs
  | @graph after hgraph =>
    have hcurrent : s.graph ∈ s.store.graphs := by simp [Session.graph, Store.graphs]
    intro g hg
    rcases mem_graphs_setCurrent hg with rfl | hg
    · rcases Graph.arcs_nodup_change (hwell _ hcurrent) (hs _ hcurrent) hgraph with
        hnodup | ⟨a, b, merged, hcontract, hshared⟩
      · exact hnodup
      · exact absurd ⟨a, b, _, merged, hcontract, rfl, hshared⟩ hmerge
    · exact hs g hg
  | create _ hcreate =>
    intro g hg
    rw [graphs_create hcreate, List.mem_append, List.mem_singleton] at hg
    rcases hg with hg | rfl
    · exact hs g hg
    · exact List.nodup_nil
  | use _ huse => exact fun g hg => hs g (graphs_use huse ▸ hg)
  | bind => exact hs

/-- Whatever scripts are run, no graph has parallel edges after any of the statements that are
    carried out, nor at the end, if and only if none of the statements contracts two nodes that
    share a neighbour. -/
theorem parallel_edges_iff {config : Config} {events : List Event} {s : Session}
    (h : History config events s) :
    ((∀ e ∈ events, e.after.NoParallelEdges) ∧ s.NoParallelEdges) ↔
      ∀ e ∈ events, ¬e.MergesNeighbors := by
  constructor
  · rintro ⟨hnone, -⟩ e he hmerge
    exact hmerge.parallel (hnone e he)
  · intro hmerge
    obtain ⟨syntaxReason, hchain⟩ := h.chain
    have hnew : (Session.new config syntaxReason).NoParallelEdges := fun g hg => by
      rw [List.mem_singleton.1 hg]
      exact List.nodup_nil
    -- That graphs are well formed goes along: an edge to a new node is new because of it.
    obtain ⟨hevents, hend⟩ := hchain.keeps
      (P := fun s => s.GraphsWellFormed ∧ s.NoParallelEdges)
      (fun e he hchange ⟨hwell, hnone⟩ => ⟨graphsWellFormed_invariant.change hchange hwell,
        hnone.change hwell hchange (hmerge e he)⟩)
      (fun s name value hs => hs) ⟨graphsWellFormed_new config syntaxReason, hnew⟩
    exact ⟨fun e he => (hevents e he).2, hend.2⟩

/-- Both ends of an edge lead to a third node; then the edge is contracted. -/
def triangleScript : String :=
  "Create Node a. Create Node b. Create Node x. " ++
  "Connect a To b. Connect a To x. Connect b To x. Contract a b."

theorem arcs_triangle :
    ((Session.new {}).run triangleScript).session.graph.arcs = [("ab", "x"), ("ab", "x")] := by
  decide +kernel

theorem not_noParallelEdges_of_arcs {s : Session} {arc : String × String}
    (h : s.graph.arcs = [arc, arc]) : ¬s.NoParallelEdges := by
  intro hnone
  have hcurrent := hnone s.graph (by simp [Session.graph, Store.graphs])
  rw [h] at hcurrent
  simp at hcurrent

/-- In the history of that script there is a contraction of nodes that share a neighbour. -/
theorem parallel_edges_iff_triangle :
    let s := Session.new {}
    let events := [] ++ s.trace triangleScript
    History {} events (s.run triangleScript).session ∧ ∃ e ∈ events, e.MergesNeighbors := by
  intro s events
  have hhistory : History {} events (s.run triangleScript).session :=
    .run triangleScript (.new _)
  refine ⟨hhistory, ?_⟩
  by_contra hnone
  have hend := ((parallel_edges_iff hhistory).2 fun e he hmerge => hnone ⟨e, he, hmerge⟩).2
  exact not_noParallelEdges_of_arcs arcs_triangle hend

/-- A script can leave parallel edges behind. -/
theorem contraction_makes_parallel_edges :
    let s := ((Session.new {}).run triangleScript).session
    Reachable {} s ∧ ¬s.NoParallelEdges :=
  ⟨.run _ (.new _), not_noParallelEdges_of_arcs arcs_triangle⟩

end Session

end GraphScript
