import GraphScript.Proofs.Graph.Forest
import GraphScript.Proofs.Graph.Route
import Mathlib.Combinatorics.Enumerative.DoubleCounting

/-!
# Components

What is reachable from a node are the nodes that it is joined to, each once and the node itself
first (`mem_reachable_iff`, `nodup_reachable`, `head?_reachable`). The components are what is
reachable from the nodes of the leaders, the *first* nodes of their classes (`components_eq`).
Every node is joined to one of these, and to no other, so the components are the classes of joined
nodes (`components_partition`), and two graphs with the same classes, up to a map of the nodes, have
as many components (`length_components_eq`).

Where ids are repeated, a component may begin at a slot that its id does not stand for, so for
components the ids have to be distinct.
-/

namespace GraphScript.Graph

open Adjacency

variable {g : Graph} {a b first first' : String} {origin : ℕ}

/-! ### What is reachable -/

theorem getD_ids_of_slot? {slot : ℕ} (h : g.slot? a = some slot) :
    (undirected g).ids.getD slot "" = a := by
  simp [undirected, build, slot?_eq_some h]

theorem reachable_of_slot? (h : g.slot? a = some origin) :
    g.reachable a = (undirected g).names (((undirected g).search origin).map (·.slot)) := by
  rw [reachable_eq, h, Option.map_some, Option.getD_some]

theorem reachable_of_not_mem (h : a ∉ g.ids) : g.reachable a = [] := by
  rw [reachable_eq, slot?_eq_none_iff.2 h, Option.map_none, Option.getD_none]

/-- Every slot that the search from the slot of a node visits is the slot of a node. -/
theorem exists_slot?_of_mem_search (h : g.slot? a = some origin) {slot : ℕ}
    (hslot : slot ∈ ((undirected g).search origin).map (·.slot)) : ∃ id, g.slot? id = some slot := by
  obtain ⟨v, hv, rfl⟩ := List.mem_map.1 hslot
  obtain ⟨cost, hway⟩ := (g.search_explores g.weightAt (slot?_lt h)).ways v
    (List.mem_append_left _ hv)
  exact hway.exists_slot? h v.slot List.mem_cons_self

theorem mem_reachable_iff : b ∈ g.reachable a ↔ g.Joined a b := by
  by_cases ha : a ∈ g.ids
  · obtain ⟨origin, horigin⟩ := exists_slot? ha
    rw [reachable_of_slot? horigin, names, List.mem_map]
    constructor
    · rintro ⟨slot, hslot, rfl⟩
      obtain ⟨id, hid⟩ := exists_slot?_of_mem_search horigin hslot
      rw [getD_ids_of_slot? hid]
      exact (joined_iff_connected horigin hid).2 ((mem_search_iff (slot?_lt horigin)).1 hslot)
    · intro hjoined
      obtain ⟨slot, hslot⟩ := exists_slot? hjoined.mem_ids.2
      exact ⟨slot, (mem_search_iff (slot?_lt horigin)).2
        ((joined_iff_connected horigin hslot).1 hjoined), getD_ids_of_slot? hslot⟩
  · rw [reachable_of_not_mem ha]
    exact iff_of_false List.not_mem_nil fun hjoined => ha hjoined.mem_ids.1

theorem nodup_reachable (g : Graph) (a : String) : (g.reachable a).Nodup := by
  by_cases ha : a ∈ g.ids
  · obtain ⟨origin, horigin⟩ := exists_slot? ha
    rw [reachable_of_slot? horigin]
    exact nodup_names (nodup_search (slot?_lt horigin)) fun _ =>
      exists_slot?_of_mem_search horigin
  · rw [reachable_of_not_mem ha]
    exact List.nodup_nil

theorem head?_reachable (ha : a ∈ g.ids) : (g.reachable a).head? = some a := by
  obtain ⟨origin, horigin⟩ := exists_slot? ha
  have hsize : (undirected g).size = g.nodes.length := size_build
  obtain ⟨rest, hsearch⟩ := exists_search_eq_cons (hsize ▸ slot?_lt horigin)
  rw [reachable_of_slot? horigin, hsearch, names, List.map_cons, List.map_cons, List.head?_cons,
    getD_ids_of_slot? horigin]

/-! ### First nodes -/

/-- The nodes of the leaders, in order. -/
noncomputable def firsts (g : Graph) : List String :=
  (undirected g).names g.leaders

theorem firsts_sublist (g : Graph) : g.firsts.Sublist g.ids := by
  -- The leaders are some of all slots, in the same order.
  have hids : (undirected g).names (List.range g.nodes.length) = g.ids := by
    refine List.ext_getElem (by simp [names, ids]) fun i hi hi' => ?_
    simp [names, undirected, build, List.getElem?_eq_getElem hi']
  rw [firsts, ← hids]
  exact List.filter_sublist.map _

section

variable (hids : g.ids.Nodup)

include hids

theorem slot?_of_leader {leader : ℕ} (h : leader ∈ g.leaders) :
    g.slot? ((undirected g).ids.getD leader "") = some leader := by
  have hlt : leader < g.ids.length := by
    simpa [ids] using (mem_leaders.1 h).1
  exact slot?_of_getElem? hids (by simp [undirected, build, hlt])

theorem mem_firsts_iff : a ∈ g.firsts ↔ ∃ leader ∈ g.leaders, g.slot? a = some leader := by
  rw [firsts, names, List.mem_map]
  constructor
  · rintro ⟨leader, hleader, rfl⟩
    exact ⟨leader, hleader, slot?_of_leader hids hleader⟩
  · rintro ⟨leader, hleader, hslot⟩
    exact ⟨leader, hleader, getD_ids_of_slot? hslot⟩

/-- A component is what is reachable from its first node. -/
theorem components_eq : g.components = g.firsts.map g.reachable := by
  rw [components_eq_searches, searches_eq, firsts, names, List.map_map, List.map_map]
  refine List.map_congr_left fun leader hleader => ?_
  exact (reachable_of_slot? (slot?_of_leader hids hleader)).symm

theorem exists_first (ha : a ∈ g.ids) : ∃ first ∈ g.firsts, g.Joined first a := by
  obtain ⟨slot, hslot⟩ := exists_slot? ha
  obtain ⟨leader, hleader, hconnected⟩ := exists_leader (slot?_lt hslot)
  have hfirst := slot?_of_leader hids hleader
  exact ⟨_, (mem_firsts_iff hids).2 ⟨leader, hleader, hfirst⟩,
    (joined_iff_connected hfirst hslot).2 hconnected⟩

theorem first_unique (h : first ∈ g.firsts) (h' : first' ∈ g.firsts)
    (hjoined : g.Joined first first') : first = first' := by
  obtain ⟨leader, hleader, hslot⟩ := (mem_firsts_iff hids).1 h
  obtain ⟨leader', hleader', hslot'⟩ := (mem_firsts_iff hids).1 h'
  obtain rfl := leader_unique hleader hleader' ((joined_iff_connected hslot hslot').1 hjoined)
  exact slot?_inj hslot hslot'

/-- A first node comes before all others that it is joined to. -/
theorem idxOf_first_le (h : first ∈ g.firsts) (hjoined : g.Joined first b) :
    g.ids.idxOf first ≤ g.ids.idxOf b := by
  have hidx {id : String} {slot : ℕ} (hslot : g.slot? id = some slot) : g.ids.idxOf id = slot := by
    obtain ⟨hlt, rfl⟩ := List.getElem?_eq_some_iff.1 (slot?_eq_some hslot)
    exact hids.idxOf_getElem slot hlt
  obtain ⟨leader, hleader, hfirst⟩ := (mem_firsts_iff hids).1 h
  obtain ⟨slot, hslot⟩ := exists_slot? hjoined.mem_ids.2
  rw [hidx hfirst, hidx hslot]
  by_contra hlt
  exact (mem_leaders.1 hleader).2 slot (not_le.1 hlt)
    ((joined_iff_connected hfirst hslot).1 hjoined).symm

/-- Components do not overlap, as a node in two of them would join their first nodes. -/
theorem nodup_flatten_components : g.components.flatten.Nodup := by
  rw [components_eq hids, ← List.flatMap_def, List.nodup_flatMap]
  refine ⟨fun first _ => g.nodup_reachable first, ?_⟩
  refine (hids.sublist g.firsts_sublist).imp_of_mem fun h h' hne id hid hid' => hne ?_
  rw [mem_reachable_iff] at hid hid'
  exact first_unique hids h h' (hid.trans hid'.symm)

theorem mem_flatten_components_iff : a ∈ g.components.flatten ↔ a ∈ g.ids := by
  rw [components_eq hids, ← List.flatMap_def, List.mem_flatMap]
  constructor
  · rintro ⟨first, -, ha⟩
    exact (mem_reachable_iff.1 ha).mem_ids.2
  · intro ha
    obtain ⟨first, hfirst, hjoined⟩ := exists_first hids ha
    exact ⟨first, hfirst, mem_reachable_iff.2 hjoined⟩

theorem exists_component_iff (ha : a ∈ g.ids) :
    (∃ c ∈ g.components, a ∈ c ∧ b ∈ c) ↔ g.Joined a b := by
  simp only [components_eq hids, List.mem_map, exists_exists_and_eq_and, mem_reachable_iff]
  constructor
  · rintro ⟨first, -, hjoined, hjoined'⟩
    exact hjoined.symm.trans hjoined'
  · intro hjoined
    obtain ⟨first, hfirst, hjoined'⟩ := exists_first hids ha
    exact ⟨first, hfirst, hjoined', hjoined'.trans hjoined⟩

theorem filterMap_head?_components : g.components.filterMap List.head? = g.firsts := by
  rw [components_eq hids, List.filterMap_map]
  conv_rhs => rw [← List.filterMap_some (l := g.firsts)]
  exact List.filterMap_congr fun first hfirst => head?_reachable (g.firsts_sublist.subset hfirst)

/-- There is one first node in each component. -/
theorem card_firsts : g.firsts.toFinset.card = g.components.length := by
  rw [List.toFinset_card_of_nodup (hids.sublist g.firsts_sublist), components_eq hids,
    List.length_map]

/-- Two graphs have as many components if some map of the nodes keeps nodes joined, or not joined,
    and leads to a node of each component. -/
theorem length_components_eq {g' : Graph} (hids' : g'.ids.Nodup) (f : String → String)
    (hf : ∀ a ∈ g.ids, f a ∈ g'.ids)
    (hjoined : ∀ a ∈ g.ids, ∀ b ∈ g.ids, g'.Joined (f a) (f b) ↔ g.Joined a b)
    (honto : ∀ b ∈ g'.ids, ∃ a ∈ g.ids, g'.Joined (f a) b) :
    g'.components.length = g.components.length := by
  have hmem {h : Graph} {first : String} (hfirst : first ∈ h.firsts.toFinset) :
      first ∈ h.firsts ∧ first ∈ h.ids :=
    ⟨List.mem_toFinset.1 hfirst, h.firsts_sublist.subset (List.mem_toFinset.1 hfirst)⟩
  rw [← card_firsts hids, ← card_firsts hids']
  -- A first node is paired with the one that it is joined to on the other side.
  apply le_antisymm
  · refine Finset.card_le_card_of_forall_subsingleton (fun b a => g'.Joined (f a) b) ?_ ?_
    · intro b hb
      obtain ⟨a, ha, hab⟩ := honto b (hmem hb).2
      obtain ⟨first, hfirst, hjoin⟩ := exists_first hids ha
      have hmap := (hjoined first hjoin.mem_ids.1 a ha).2 hjoin
      exact ⟨first, List.mem_toFinset.2 hfirst, hmap.trans hab⟩
    · rintro a - b ⟨hb, hab⟩ b' ⟨hb', hab'⟩
      exact first_unique hids' (hmem hb).1 (hmem hb').1 (hab.symm.trans hab')
  · refine Finset.card_le_card_of_forall_subsingleton (fun a b => g'.Joined (f a) b) ?_ ?_
    · intro a ha
      obtain ⟨first, hfirst, hjoin⟩ := exists_first hids' (hf a (hmem ha).2)
      exact ⟨first, List.mem_toFinset.2 hfirst, hjoin.symm⟩
    · rintro b - a ⟨ha, hab⟩ a' ⟨ha', hab'⟩
      have hmap := (hjoined a (hmem ha).2 a' (hmem ha').2).1 (hab.trans hab'.symm)
      exact first_unique hids (hmem ha).1 (hmem ha').1 hmap

end

/-- The components are a partition of the nodes into classes of joined ones: together they have every
    node once, and two nodes are in one component when a route joins them. Their first nodes are in
    the order of the nodes, and each component has the earliest of its nodes first and is what is
    reachable from there. -/
theorem components_partition (hids : g.ids.Nodup) :
    g.components.flatten.Perm g.ids ∧
    (∀ a ∈ g.ids, ∀ b ∈ g.ids, (∃ c ∈ g.components, a ∈ c ∧ b ∈ c) ↔
      ∃ path steps, g.Route a b path steps) ∧
    (g.components.filterMap List.head?).Sublist g.ids ∧
    (∀ c ∈ g.components, ∃ first, c.head? = some first ∧ c = g.reachable first ∧
      ∀ b ∈ c, g.ids.idxOf first ≤ g.ids.idxOf b) := by
  refine ⟨?_, fun a ha b _ => exists_component_iff hids ha, ?_, ?_⟩
  · exact (List.perm_ext_iff_of_nodup (nodup_flatten_components hids) hids).2 fun _ =>
      mem_flatten_components_iff hids
  · rw [filterMap_head?_components hids]
    exact g.firsts_sublist
  · rw [components_eq hids, List.forall_mem_map]
    intro first hfirst
    exact ⟨first, head?_reachable (g.firsts_sublist.subset hfirst), rfl, fun b hb =>
      idxOf_first_le hids hfirst (mem_reachable_iff.1 hb)⟩

/-- Two components whose nodes alternate, one with a loop and one with an edge there and back, and
    a node apart. The last edge ends nowhere. -/
theorem components_partition_alternating :
    let g : Graph := { Graph.empty "main" with
      nodes := ["d", "a", "c", "b", "e"].map (Node.new · none)
      edges := [⟨"c", "d", 1.0⟩, ⟨"b", "a", 1.0⟩, ⟨"a", "b", 1.0⟩, ⟨"c", "c", 1.0⟩, ⟨"e", "f", 1.0⟩] }
    g.ids.Nodup ∧ g.components = [["d", "c"], ["a", "b"], ["e"]] ∧
      g.components.flatten.Perm g.ids ∧ (∃ path steps, g.Route "a" "b" path steps) ∧
      ¬∃ path steps, g.Route "a" "c" path steps := by
  intro g
  have hids : g.ids.Nodup := by decide
  have hcomponents : g.components = [["d", "c"], ["a", "b"], ["e"]] := by decide +kernel
  obtain ⟨hperm, hclasses, -, -⟩ := components_partition hids
  have hjoined := hclasses "a" (by decide) "b" (by decide)
  have hapart := hclasses "a" (by decide) "c" (by decide)
  rw [hcomponents] at hjoined hapart
  refine ⟨hids, hcomponents, hperm, hjoined.1 (by decide), fun hroute => ?_⟩
  exact absurd (hapart.2 hroute) (by decide)

end GraphScript.Graph
