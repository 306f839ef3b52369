import GraphScript.Proofs.Graph.Subdivision

/-!
# Contractions

A contraction makes one node of two adjacent ones: the two ids go, a new one comes, and the edges
move along, except for those between the two (`Contracts`). So the graph is the quotient by the map
that takes the two nodes to the new one (`mergedEnd`).

The two nodes are joined before, so that nodes are joined after when they were before
(`Contracts.joined_iff`), and the components are as many. A cycle cannot come up: one edge goes at
least and one node at most, whereas a graph never has more nodes than edges and components
(`length_nodes_le`), and without a cycle it has as many (`contract_quotient`).
-/

namespace GraphScript.Graph

variable {g g' : Graph} {a b merged id : String} {e : Edge}

/-! ### Ends of edges -/

/-- What a contraction makes of an end of an edge. -/
def mergedEnd (a b merged id : String) : String :=
  if id == a || id == b then merged else id

theorem mergedEnd_of_mem (h : id = a ∨ id = b) : mergedEnd a b merged id = merged := by
  simp [mergedEnd, h]

theorem mergedEnd_of_ne (h : ¬(id = a ∨ id = b)) : mergedEnd a b merged id = id := by
  simp [mergedEnd, h]

/-- The new id is not one of the old ones, so only the two nodes become one. -/
theorem mergedEnd_inj {id' : String} (hid : id ≠ merged) (hid' : id' ≠ merged)
    (h : mergedEnd a b merged id = mergedEnd a b merged id') :
    id = id' ∨ (id = a ∨ id = b) ∧ (id' = a ∨ id' = b) := by
  by_cases hpair : id = a ∨ id = b
  · by_cases hpair' : id' = a ∨ id' = b
    · exact .inr ⟨hpair, hpair'⟩
    · rw [mergedEnd_of_mem hpair, mergedEnd_of_ne hpair'] at h
      exact absurd h.symm hid'
  · by_cases hpair' : id' = a ∨ id' = b
    · rw [mergedEnd_of_ne hpair, mergedEnd_of_mem hpair'] at h
      exact absurd h hid
    · rw [mergedEnd_of_ne hpair, mergedEnd_of_ne hpair'] at h
      exact .inl h

/-! ### The two graphs -/

/-- Two adjacent nodes are merged into a new one, which takes over their edges to others. -/
structure Contracts (g : Graph) (a b merged : String) (g' : Graph) : Prop where
  adjacent : ∃ e ∈ g.edges, e.joins a b = true
  new : merged ∉ g.ids
  ids_eq : g'.ids = (g.ids.filter fun id => !(id == a || id == b)) ++ [merged]
  edges_eq : g'.edges = (g.edges.filter fun e =>
      !((e.source == a || e.source == b) && (e.target == a || e.target == b))).map
    fun e => ⟨mergedEnd a b merged e.source, mergedEnd a b merged e.target, e.weight⟩

theorem contracts_of_contract (h : g.contract a b = (.ok merged, g')) :
    merged = a ++ b ∧ g.Contracts a b merged g' := by
  have hids := ids_contract h
  obtain ⟨hadjacent, hmerged, hnew, rfl⟩ := contract_eq_ok_iff.1 h
  exact ⟨hmerged, List.any_eq_true.1 hadjacent, hnew, hids, rfl⟩

namespace Contracts

variable (h : g.Contracts a b merged g')

include h

theorem mem_ids_iff : id ∈ g'.ids ↔ (id ∈ g.ids ∧ ¬(id = a ∨ id = b)) ∨ id = merged := by
  simp [h.ids_eq]

theorem new_mem : merged ∈ g'.ids :=
  h.mem_ids_iff.2 (.inr rfl)

theorem mergedEnd_mem (hid : id ∈ g.ids) : mergedEnd a b merged id ∈ g'.ids := by
  by_cases hpair : id = a ∨ id = b
  · rw [mergedEnd_of_mem hpair]
    exact h.new_mem
  · rw [mergedEnd_of_ne hpair]
    exact h.mem_ids_iff.2 (.inl ⟨hid, hpair⟩)

theorem ne_new (hid : id ∈ g.ids) : id ≠ merged :=
  fun heq => h.new (heq ▸ hid)

theorem retract_old (hid : id ∈ g.ids) : retract merged a id = id :=
  if_neg (h.ne_new hid)

theorem ids_nodup (hids : g.ids.Nodup) : g'.ids.Nodup := by
  rw [h.ids_eq, ← List.concat_eq_append]
  exact (hids.filter _).concat fun hmem => h.new (List.mem_filter.1 hmem).1

/-- Two nodes go at most, and one comes. -/
theorem length_nodes (hids : g.ids.Nodup) : g.nodes.length ≤ g'.nodes.length + 1 := by
  have hpair : (g.ids.filter fun id => id == a || id == b).length ≤ [a, b].length := by
    refine (hids.filter _).length_le_of_subset fun id hid => ?_
    simpa using (List.mem_filter.1 hid).2
  have hlength := congrArg List.length h.ids_eq
  have hsplit := List.length_eq_length_filter_add (l := g.ids) fun id => id == a || id == b
  rw [List.length_append] at hlength
  simp only [ids, List.length_map, List.length_cons, List.length_nil] at hpair hlength hsplit ⊢
  omega

/-- One edge between the two nodes goes at least. -/
theorem length_edges : g'.edges.length + 1 ≤ g.edges.length := by
  obtain ⟨e, he, hjoins⟩ := h.adjacent
  rw [h.edges_eq, List.length_map, Nat.succ_le_iff, List.length_filter_lt_length_iff_exists]
  refine ⟨e, he, ?_⟩
  simp only [Edge.joins, Bool.or_eq_true, Bool.and_eq_true, beq_iff_eq] at hjoins
  obtain ⟨rfl, rfl⟩ | ⟨rfl, rfl⟩ := hjoins <;> simp

/-! ### Joined nodes -/

theorem joined {x y : String} (hjoined : g.Joined x y) :
    g'.Joined (mergedEnd a b merged x) (mergedEnd a b merged y) := by
  refine hjoined.map (fun _ => h.mergedEnd_mem) fun e he hsource htarget => ?_
  by_cases hinside : (e.source = a ∨ e.source = b) ∧ (e.target = a ∨ e.target = b)
  · rw [mergedEnd_of_mem hinside.1, mergedEnd_of_mem hinside.2]
    exact .refl h.new_mem
  · refine Joined.of_edge (e := ⟨_, _, e.weight⟩) ?_ (h.mergedEnd_mem hsource)
      (h.mergedEnd_mem htarget)
    rw [h.edges_eq]
    exact List.mem_map_of_mem (List.mem_filter.2 ⟨he, by simpa [← not_or, ← not_and_or] using hinside⟩)

section

variable (hends : g.NoMissingEnds)

include hends

theorem noMissingEnds : g'.NoMissingEnds := by
  rw [NoMissingEnds, h.edges_eq, List.forall_mem_map]
  intro e he
  obtain ⟨hsource, htarget⟩ := hends e (List.mem_filter.1 he).1
  exact ⟨h.mergedEnd_mem hsource, h.mergedEnd_mem htarget⟩

theorem joined_pair : g.Joined a b := by
  obtain ⟨e, he, hjoins⟩ := h.adjacent
  have hjoined := Joined.of_edge he (hends e he).1 (hends e he).2
  simp only [Edge.joins, Bool.or_eq_true, Bool.and_eq_true, beq_iff_eq] at hjoins
  obtain ⟨rfl, rfl⟩ | ⟨rfl, rfl⟩ := hjoins
  exacts [hjoined, hjoined.symm]

/-- A node is joined to the one that it is taken for when the new node is taken for the first of
    the two. -/
theorem joined_retract (hid : id ∈ g.ids) :
    g.Joined id (retract merged a (mergedEnd a b merged id)) := by
  have hpair := h.joined_pair hends
  by_cases hmem : id = a ∨ id = b
  · rw [mergedEnd_of_mem hmem, retract_new]
    rcases hmem with rfl | rfl
    exacts [.refl hid, hpair.symm]
  · rw [mergedEnd_of_ne hmem, h.retract_old hid]
    exact .refl hid

/-- Nodes are joined after a contraction when they were before. -/
theorem joined_iff {x y : String} (hx : x ∈ g.ids) (hy : y ∈ g.ids) :
    g'.Joined (mergedEnd a b merged x) (mergedEnd a b merged y) ↔ g.Joined x y := by
  refine ⟨fun hjoined => ?_, h.joined⟩
  have hmap : g.Joined (retract merged a (mergedEnd a b merged x))
      (retract merged a (mergedEnd a b merged y)) := by
    refine hjoined.map (fun id hid => ?_) fun e he _ _ => ?_
    · rcases h.mem_ids_iff.1 hid with ⟨hid, -⟩ | rfl
      · rwa [h.retract_old hid]
      · rw [retract_new]
        exact (h.joined_pair hends).mem_ids.1
    · -- An edge of the quotient is one of the graph, with its ends moved.
      rw [h.edges_eq] at he
      obtain ⟨old, hold, rfl⟩ := List.mem_map.1 he
      have hold := (List.mem_filter.1 hold).1
      obtain ⟨hsource, htarget⟩ := hends old hold
      exact ((h.joined_retract hends hsource).symm.trans (.of_edge hold hsource htarget)).trans
        (h.joined_retract hends htarget)
  exact ((h.joined_retract hends hx).trans hmap).trans (h.joined_retract hends hy).symm

theorem length_components (hids : g.ids.Nodup) :
    g'.components.length = g.components.length := by
  refine length_components_eq hids (h.ids_nodup hids) (mergedEnd a b merged)
    (fun _ => h.mergedEnd_mem) (fun x hx y hy => h.joined_iff hends hx hy) fun y hy => ?_
  rcases h.mem_ids_iff.1 hy with ⟨hid, hpair⟩ | rfl
  · refine ⟨y, hid, ?_⟩
    rw [mergedEnd_of_ne hpair]
    exact .refl hy
  · refine ⟨a, (h.joined_pair hends).mem_ids.1, ?_⟩
    rw [mergedEnd_of_mem (.inl rfl)]
    exact .refl hy

/-! ### Checks -/

theorem isConnected_eq (hids : g.ids.Nodup) : g'.isConnected = g.isConnected := by
  rw [Bool.eq_iff_iff, isConnected_iff_length hids, isConnected_iff_length (h.ids_nodup hids),
    h.length_components hends hids]

/-- At least one edge and at most one node less, and the nodes are never more than edges and
    components. -/
theorem isAcyclic (hids : g.ids.Nodup) (hacyclic : g.isAcyclic = true) : g'.isAcyclic = true := by
  have hnodes := h.length_nodes hids
  have hedges := h.length_edges
  have hle := g'.length_nodes_le
  rw [isAcyclic_iff_length, length_links hends] at hacyclic
  rw [length_links (h.noMissingEnds hends), h.length_components hends hids] at hle
  rw [isAcyclic_iff_length, length_links (h.noMissingEnds hends), h.length_components hends hids]
  omega

end

end Contracts

/-- A contraction is the quotient of the graph by the pair, where ids are distinct and no edge has a
    missing end. All edges but those within the pair stay, in their order and with their weights,
    and an end in the pair becomes the new node. Nodes are joined as before, so the components are
    as many and all is connected if it was, and there is no cycle if there was none. -/
theorem contract_quotient (hids : g.ids.Nodup) (hends : g.NoMissingEnds)
    (h : g.contract a b = (.ok merged, g')) :
    (merged = a ++ b ∧
      g'.edges = (g.edges.filter fun e =>
          !((e.source == a || e.source == b) && (e.target == a || e.target == b))).map
        fun e => ⟨mergedEnd a b merged e.source, mergedEnd a b merged e.target, e.weight⟩) ∧
    (∀ x ∈ g.ids, ∀ y ∈ g.ids,
      g'.Joined (mergedEnd a b merged x) (mergedEnd a b merged y) ↔ g.Joined x y) ∧
    g'.components.length = g.components.length ∧ g'.isConnected = g.isConnected ∧
    (g.isAcyclic = true → g'.isAcyclic = true) := by
  obtain ⟨hmerged, hcontracts⟩ := contracts_of_contract h
  exact ⟨⟨hmerged, hcontracts.edges_eq⟩, fun x hx y hy => hcontracts.joined_iff hends hx hy,
    hcontracts.length_components hends hids, hcontracts.isConnected_eq hends hids,
    hcontracts.isAcyclic hends hids⟩

/-- A contraction in the middle of a path, next to a node apart, and then one of a loop at that node,
    which leaves no cycle where there was one. -/
theorem contract_quotient_path :
    let g : Graph := { Graph.empty "main" with
      nodes := ["a", "b", "c", "d", "e"].map (Node.new · none)
      edges := [⟨"c", "a", 2.0⟩, ⟨"b", "a", 3.0⟩, ⟨"b", "d", 4.0⟩] }
    let once : Graph := { g with
      nodes := ["c", "d", "e", "ab"].map (Node.new · none)
      edges := [⟨"c", "ab", 2.0⟩, ⟨"ab", "d", 4.0⟩] }
    let looped : Graph := { once with edges := ⟨"e", "e", 5.0⟩ :: once.edges }
    let twice : Graph := { once with nodes := ["c", "d", "ab", "ee"].map (Node.new · none) }
    (g.contract "a" "b" = (.ok "ab", once) ∧ g.isAcyclic = true ∧ once.isAcyclic = true ∧
      once.components.length = g.components.length ∧ once.Joined "c" "d") ∧
    looped.contract "e" "e" = (.ok "ee", twice) ∧ ¬looped.isAcyclic = true ∧
      twice.isAcyclic = true ∧ twice.isConnected = looped.isConnected := by
  intro g once looped twice
  have honce : g.contract "a" "b" = (.ok "ab", once) := by rfl
  have htwice : looped.contract "e" "e" = (.ok "ee", twice) := by rfl
  have hacyclic : g.isAcyclic = true := by decide
  obtain ⟨-, hjoined, hcomponents, -, hkeeps⟩ := contract_quotient (by decide) (by decide) honce
  obtain ⟨-, -, -, hconnected, -⟩ := contract_quotient (by decide) (by decide) htwice
  have hroute : g.Joined "c" "d" :=
    ((Joined.of_edge (e := ⟨"c", "a", 2.0⟩) (by simp [g]) (by decide) (by decide)).trans
      (Joined.of_edge (e := ⟨"b", "a", 3.0⟩) (by simp [g]) (by decide) (by decide)).symm).trans
      (.of_edge (e := ⟨"b", "d", 4.0⟩) (by simp [g]) (by decide) (by decide))
  exact ⟨⟨honce, hacyclic, hkeeps hacyclic, hcomponents,
    (hjoined "c" (by decide) "d" (by decide)).2 hroute⟩, htwice, by decide, by decide, hconnected⟩

end GraphScript.Graph
