import GraphScript.Proofs.Graph.Components
import GraphScript.Proofs.Graph.WellFormed

/-!
# Subdivisions

A subdivision puts a new node on an edge: the edge goes, and two edges by way of the new node come
(`Subdivides`). Which edge goes is told by `exists_subdivides`: the first that joins the two nodes.

Old nodes are joined as before (`Subdivides.joined_iff`). Where the old edge was taken, the two new
ones lead the same way round; the other way, the new node is taken for an end of the old edge. So
the components are as many as before, and as there is one node more and one edge more, so is what
the checks for cycles and connectedness count (`subdivide_keeps_shape`).
-/

namespace GraphScript.Graph

/-- A node is put on an edge that lies between others. -/
structure Subdivides (g : Graph) (id : String) (before : List Edge) (edge : Edge)
    (after : List Edge) (g' : Graph) : Prop where
  edges_old : g.edges = before ++ edge :: after
  new : id ∉ g.ids
  ids_eq : g'.ids = g.ids ++ [id]
  edges_eq : g'.edges = before ++ after ++
    [{ source := edge.source, target := id, weight := Edge.defaultWeight },
     { source := id, target := edge.target, weight := Edge.defaultWeight }]

variable {g g' : Graph} {a b id : String} {before after : List Edge} {edge e : Edge}

/-- A subdivision takes the first edge that joins the two nodes. -/
theorem exists_subdivides (h : g.subdivide a b id = (.ok (), g')) : ∃ before edge after,
    (∀ e ∈ before, e.joins a b = false) ∧ edge.joins a b = true ∧
      g.Subdivides id before edge after g' := by
  obtain ⟨edge, hfind, hnew, rfl⟩ := subdivide_eq_ok_iff.1 h
  obtain ⟨hjoins, before, after, hedges, hbefore⟩ := List.find?_eq_some_iff_append.1 hfind
  have hbefore' : ∀ e ∈ before, e.joins a b = false := by simpa using hbefore
  have herase : (before ++ edge :: after).eraseP (·.joins a b) = before ++ after := by
    rw [List.eraseP_append_right _ (by simpa using hbefore'),
      List.eraseP_cons_of_pos (p := (Edge.joins · a b)) hjoins]
  refine ⟨before, edge, after, hbefore', hjoins, hedges, hnew, ids_append g.nodes id none, ?_⟩
  dsimp only
  rw [hedges, herase]

/-- One node in the place of another, and all others as they are. -/
def retract (id source other : String) : String :=
  if other = id then source else other

theorem retract_new (id source : String) : retract id source id = source :=
  if_pos rfl

namespace Subdivides

variable (h : g.Subdivides id before edge after g')

include h

theorem mem_edges_iff : e ∈ g.edges ↔ e ∈ before ++ after ∨ e = edge := by
  simp only [h.edges_old, List.mem_append, List.mem_cons]
  tauto

theorem mem_edges_of_mem (he : e ∈ before ++ after) : e ∈ g.edges :=
  h.mem_edges_iff.2 (.inl he)

theorem edge_mem : edge ∈ g.edges :=
  h.mem_edges_iff.2 (.inr rfl)

theorem mem_ids_iff {other : String} : other ∈ g'.ids ↔ other ∈ g.ids ∨ other = id := by
  rw [h.ids_eq, List.mem_append, List.mem_singleton]

theorem mem_ids {other : String} (hother : other ∈ g.ids) : other ∈ g'.ids :=
  h.mem_ids_iff.2 (.inl hother)

theorem new_mem : id ∈ g'.ids :=
  h.mem_ids_iff.2 (.inr rfl)

theorem ids_nodup (hids : g.ids.Nodup) : g'.ids.Nodup := by
  rw [h.ids_eq, ← List.concat_eq_append]
  exact hids.concat h.new

theorem length_nodes : g'.nodes.length = g.nodes.length + 1 := by
  have hlength := congrArg List.length h.ids_eq
  rwa [ids, ids, List.length_append, List.length_map, List.length_map] at hlength

theorem length_edges : g'.edges.length = g.edges.length + 1 := by
  rw [h.edges_eq, h.edges_old]
  simp only [List.length_append, List.length_cons, List.length_nil]
  omega

theorem ne_new {other : String} (hother : other ∈ g.ids) : other ≠ id :=
  fun heq => h.new (heq ▸ hother)

theorem retract_old {source other : String} (hother : other ∈ g.ids) :
    retract id source other = other :=
  if_neg (h.ne_new hother)

section

variable (hends : g.NoMissingEnds)

include hends

/-- The two halves end where the edge did, and at the new node. -/
theorem noMissingEnds : g'.NoMissingEnds := by
  obtain ⟨hsource, htarget⟩ := hends edge h.edge_mem
  rw [NoMissingEnds, h.edges_eq]
  intro e he
  rcases List.mem_append.1 he with he | he
  · obtain ⟨hsource, htarget⟩ := hends e (h.mem_edges_of_mem he)
    exact ⟨h.mem_ids hsource, h.mem_ids htarget⟩
  · rcases List.mem_pair.1 he with rfl | rfl
    exacts [⟨h.mem_ids hsource, h.new_mem⟩, ⟨h.new_mem, h.mem_ids htarget⟩]

/-! ### Joined nodes -/

theorem joined_source : g'.Joined edge.source id := by
  have hsource := h.mem_ids (hends edge h.edge_mem).1
  exact Joined.of_edge (e := ⟨edge.source, id, Edge.defaultWeight⟩) (by simp [h.edges_eq]) hsource
    h.new_mem

theorem joined_target : g'.Joined id edge.target := by
  have htarget := h.mem_ids (hends edge h.edge_mem).2
  exact Joined.of_edge (e := ⟨id, edge.target, Edge.defaultWeight⟩) (by simp [h.edges_eq]) h.new_mem
    htarget

/-- A way over the edge becomes one over the new node. -/
theorem joined (hjoined : g.Joined a b) : g'.Joined a b := by
  refine hjoined.map (f := fun other => other) (fun _ => h.mem_ids) fun e he hsource htarget => ?_
  -- Only the edge that goes needs the detour by way of the new node.
  rcases h.mem_edges_iff.1 he with he | rfl
  · refine Joined.of_edge ?_ (h.mem_ids hsource) (h.mem_ids htarget)
    rw [h.edges_eq]
    exact List.mem_append_left _ he
  · exact (h.joined_source hends).trans (h.joined_target hends)

/-- Old nodes are joined as before. -/
theorem joined_iff (ha : a ∈ g.ids) (hb : b ∈ g.ids) : g'.Joined a b ↔ g.Joined a b := by
  refine ⟨fun hjoined => ?_, h.joined hends⟩
  obtain ⟨hsource, htarget⟩ := hends edge h.edge_mem
  -- The new node is taken for the source of the old edge.
  have hmap : g.Joined (retract id edge.source a) (retract id edge.source b) := by
    refine hjoined.map (fun other hother => ?_) fun e he _ _ => ?_
    · rcases h.mem_ids_iff.1 hother with hother | rfl
      · rwa [h.retract_old hother]
      · rwa [retract_new]
    · rw [h.edges_eq] at he
      rcases List.mem_append.1 he with he | he
      · have he := h.mem_edges_of_mem he
        obtain ⟨hsource, htarget⟩ := hends e he
        rw [h.retract_old hsource, h.retract_old htarget]
        exact .of_edge he hsource htarget
      · rcases List.mem_pair.1 he with rfl | rfl
        · rw [h.retract_old hsource, retract_new]
          exact .refl hsource
        · rw [h.retract_old htarget, retract_new]
          exact .of_edge h.edge_mem hsource htarget
  rwa [h.retract_old ha, h.retract_old hb] at hmap

/-- The new node joins the component of the edge. -/
theorem length_components (hids : g.ids.Nodup) :
    g'.components.length = g.components.length := by
  refine length_components_eq hids (h.ids_nodup hids) (fun other => other) (fun _ => h.mem_ids)
    (fun a ha b hb => h.joined_iff hends ha hb) fun b hb => ?_
  rcases h.mem_ids_iff.1 hb with hb | rfl
  · exact ⟨b, hb, .refl (h.mem_ids hb)⟩
  · exact ⟨edge.source, (hends edge h.edge_mem).1, h.joined_source hends⟩

/-! ### Checks -/

/-- The new node makes up for the new edge, as the check for cycles counts. -/
theorem isAcyclic_eq (hids : g.ids.Nodup) : g'.isAcyclic = g.isAcyclic := by
  rw [Bool.eq_iff_iff, isAcyclic_iff_length, isAcyclic_iff_length, length_links hends,
    length_links (h.noMissingEnds hends), h.length_components hends hids, h.length_nodes,
    h.length_edges]
  omega

theorem isConnected_eq (hids : g.ids.Nodup) : g'.isConnected = g.isConnected := by
  rw [Bool.eq_iff_iff, isConnected_iff_length hids, isConnected_iff_length (h.ids_nodup hids),
    h.length_components hends hids]

/-! ### Degrees -/

theorem degree_new : g'.degree id = 2 := by
  have hrest : (before ++ after).countP (·.touches id) = 0 := by
    refine List.countP_eq_zero.2 fun e he => ?_
    obtain ⟨hsource, htarget⟩ := hends e (h.mem_edges_of_mem he)
    simp [Edge.touches, h.ne_new hsource, h.ne_new htarget]
  rw [degree, h.edges_eq, List.countP_append, hrest]
  simp [Edge.touches]

end

/-- An old node has one of the new edges for each end of the old edge there. A loop was counted
    once. -/
theorem degree_old {other : String} (hother : other ∈ g.ids) : g'.degree other =
    g.degree other + if edge.source = other ∧ edge.target = other then 1 else 0 := by
  have hne : id ≠ other := (h.ne_new hother).symm
  rw [degree, degree, h.edges_eq, h.edges_old]
  simp only [List.countP_append, List.countP_cons, List.countP_nil, Edge.touches, beq_iff_eq,
    Bool.or_eq_true, hne, or_false, false_or]
  -- The other edges count alike on both sides, so it is about the two ends of the old edge.
  split_ifs <;> grind

end Subdivides

/-- A subdivision keeps the shape, where ids are distinct and no edge has a missing end: there are
    cycles if there were, all is connected if it was, and the components are as many. The first
    edge that joins the two nodes gives way to two edges at the new node, and all others stay, in
    their order and with their weights. Old nodes keep their degrees, unless the edge was a loop:
    it counted once, and the two edges in its place count twice. -/
theorem subdivide_keeps_shape (hids : g.ids.Nodup) (hends : g.NoMissingEnds)
    (h : g.subdivide a b id = (.ok (), g')) :
    (g'.isAcyclic = g.isAcyclic ∧ g'.isConnected = g.isConnected ∧
      g'.components.length = g.components.length) ∧
    g'.degree id = 2 ∧
    ∃ before replaced after, g.edges = before ++ replaced :: after ∧
      (∀ e ∈ before, e.joins a b = false) ∧ replaced.joins a b = true ∧
      g'.edges = before ++ after ++
        [⟨replaced.source, id, Edge.defaultWeight⟩, ⟨id, replaced.target, Edge.defaultWeight⟩] ∧
      ∀ other ∈ g.ids, g'.degree other = g.degree other +
        if replaced.source = other ∧ replaced.target = other then 1 else 0 := by
  obtain ⟨before, edge, after, hbefore, hjoins, hsub⟩ := exists_subdivides h
  exact ⟨⟨hsub.isAcyclic_eq hends hids, hsub.isConnected_eq hends hids,
    hsub.length_components hends hids⟩, hsub.degree_new hends, before, edge, after, hsub.edges_old,
    hbefore, hjoins, hsub.edges_eq, fun _ => hsub.degree_old⟩

/-- Of the two edges between `a` and `b` the first one goes, which has the other direction. Then the
    loop at `c` goes, and the degree of `c` is one more. There are cycles all along. -/
theorem subdivide_keeps_shape_loop :
    let g : Graph := { Graph.empty "main" with
      nodes := ["a", "b", "c"].map (Node.new · none)
      edges := [⟨"b", "a", 2.0⟩, ⟨"a", "b", 3.0⟩, ⟨"c", "c", 4.0⟩] }
    let once : Graph := { g with
      nodes := g.nodes ++ [Node.new "m" none]
      edges := [⟨"a", "b", 3.0⟩, ⟨"c", "c", 4.0⟩, ⟨"b", "m", 1.0⟩, ⟨"m", "a", 1.0⟩] }
    let twice : Graph := { g with
      nodes := once.nodes ++ [Node.new "n" none]
      edges := [⟨"a", "b", 3.0⟩, ⟨"b", "m", 1.0⟩, ⟨"m", "a", 1.0⟩, ⟨"c", "n", 1.0⟩,
        ⟨"n", "c", 1.0⟩] }
    (g.subdivide "a" "b" "m" = (.ok (), once) ∧ once.subdivide "c" "c" "n" = (.ok (), twice)) ∧
      twice.isAcyclic = g.isAcyclic ∧ twice.isConnected = g.isConnected ∧
      twice.components.length = 2 ∧ twice.degree "n" = 2 ∧
      twice.degree "c" = once.degree "c" + 1 := by
  intro g once twice
  have honce : g.subdivide "a" "b" "m" = (.ok (), once) := by rfl
  have htwice : once.subdivide "c" "c" "n" = (.ok (), twice) := by rfl
  obtain ⟨⟨hacyclic, hconnected, hcomponents⟩, -⟩ :=
    subdivide_keeps_shape (by decide) (by decide) honce
  obtain ⟨⟨hacyclic', hconnected', hcomponents'⟩, hdegree, before, replaced, after, hedges, hbefore,
    hjoins, -, hold⟩ := subdivide_keeps_shape (by decide) (by decide) htwice
  have hloop : replaced.source = "c" ∧ replaced.target = "c" := by
    simpa [Edge.joins] using hjoins
  have hcount : g.components.length = 2 := by decide +kernel
  refine ⟨⟨honce, htwice⟩, hacyclic'.trans hacyclic, hconnected'.trans hconnected,
    hcomponents'.trans (hcomponents.trans hcount), hdegree, ?_⟩
  rw [hold "c" (by decide), if_pos hloop]

end GraphScript.Graph
