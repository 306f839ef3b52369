import GraphScript.Proofs.Double.Sum
import GraphScript.Proofs.Graph.Operations
import GraphScript.Proofs.Session.Effect
import Mathlib.Data.List.Nodup

/-!
# Well-formed graphs

A graph is well formed when its ids are distinct, its edges end at its nodes, and its weights
are finite and not negative. An empty graph is, and every change that a statement makes keeps
it so (`WellFormed.change`).

Most changes drop edges, or leave ids and edges as they are. The others add a node that was
not there, add an edge between nodes that are, or, in a contraction, rename the ends of the
edges along with the nodes.
-/

namespace GraphScript

/-- A weight that edges may have. -/
def SoundWeight (w : Float) : Prop :=
  w.isFinite = true ∧ 0.0 ≤ w

instance (w : Float) : Decidable (SoundWeight w) :=
  inferInstanceAs (Decidable (_ ∧ _))

theorem soundWeight_default : SoundWeight Edge.defaultWeight :=
  ⟨rfl, by decide⟩

/-- Of the finite doubles, those that are not below zero are from zero up. -/
theorem soundWeight_of_not_lt {w : Float} (hfin : w.isFinite = true) (h : ¬w < 0.0) :
    SoundWeight w := by
  have hnan := Double.isNaN_of_isFinite hfin
  rw [Double.lt_iff_units hnan rfl, not_lt] at h
  exact ⟨hfin, (Double.le_iff_units rfl hnan).2 h⟩

theorem SoundWeight.not_lt {w : Float} (h : SoundWeight w) : ¬w < 0.0 := by
  have hnan := Double.isNaN_of_isFinite h.1
  rw [Double.lt_iff_units hnan rfl, Int.not_lt]
  exact (Double.le_iff_units rfl hnan).1 h.2

namespace Graph

/-- A list keeps what a modification keeps of each item. -/
theorem map_modify {α β : Type} {f : α → α} {g : α → β} (h : ∀ a, g (f a) = g a)
    {l : List α} {index : Nat} : (l.modify index f).map g = l.map g := by
  refine List.ext_getElem? fun i => ?_
  simp only [List.getElem?_map, List.getElem?_modify]
  split_ifs
  · cases l[i]? with
    | none => rfl
    | some a => exact congrArg some (h a)
  · simp

/-- Distinct ids, edges between nodes, and weights that are finite and not negative. -/
structure WellFormed (g : Graph) : Prop where
  ids_nodup : g.ids.Nodup
  ends_mem : ∀ e ∈ g.edges, e.source ∈ g.ids ∧ e.target ∈ g.ids
  weights : ∀ e ∈ g.edges, SoundWeight e.weight

variable {g g' : Graph}

theorem ids_append (nodes : List Node) (id : String) (value : Option Value) :
    ids { g with nodes := nodes ++ [Node.new id value] } =
      ids { g with nodes := nodes } ++ [id] := by
  simp [ids, Node.new]

theorem ids_eraseP (id : String) :
    ({ g with nodes := g.nodes.eraseP (·.id == id) }.withoutEdgesAt id).ids = g.ids.erase id := by
  rw [ids, ids, List.erase_eq_eraseP', List.eraseP_map]
  rfl

/-- A contraction drops the ids of the pair and puts the new one behind the others. -/
theorem ids_contract {a b merged : String} (h : g.contract a b = (.ok merged, g')) :
    g'.ids = (g.ids.filter fun id => !(id == a || id == b)) ++ [merged] := by
  obtain ⟨-, -, -, rfl⟩ := contract_eq_ok_iff.1 h
  simp only [ids, List.map_append, List.filter_map]
  rfl

theorem wellFormed_empty (name : String) : (empty name).WellFormed :=
  ⟨List.nodup_nil, fun _ he => absurd he List.not_mem_nil, fun _ he => absurd he List.not_mem_nil⟩

namespace WellFormed

/-- Only ids and edges matter, and edges may be dropped. -/
theorem of_subset (h : g.WellFormed) (hids : g'.ids = g.ids) (hedges : g'.edges ⊆ g.edges) :
    g'.WellFormed := by
  refine ⟨hids ▸ h.ids_nodup, fun e he => ?_, fun e he => h.weights e (hedges he)⟩
  rw [hids]
  exact h.ends_mem e (hedges he)

/-- A node with a new id can be added. -/
theorem append_node (h : g.WellFormed) {id : String} (hid : id ∉ g.ids) (value : Option Value) :
    { g with nodes := g.nodes ++ [Node.new id value] }.WellFormed := by
  have hids := ids_append (g := g) g.nodes id value
  refine ⟨?_, fun e he => ?_, h.weights⟩
  · rw [hids]
    exact List.Nodup.append h.ids_nodup (List.nodup_singleton id) (by simpa using hid)
  · rw [hids]
    obtain ⟨hsource, htarget⟩ := h.ends_mem e he
    exact ⟨List.mem_append_left _ hsource, List.mem_append_left _ htarget⟩

/-- Edges between nodes, with sound weights, can be added. -/
theorem append_edges {more : List Edge} (h : g.WellFormed)
    (hends : ∀ e ∈ more, e.source ∈ g.ids ∧ e.target ∈ g.ids)
    (hweights : ∀ e ∈ more, SoundWeight e.weight) :
    { g with edges := g.edges ++ more }.WellFormed := by
  refine ⟨h.ids_nodup, fun e he => ?_, fun e he => ?_⟩
  · rcases List.mem_append.1 he with he | he
    exacts [h.ends_mem e he, hends e he]
  · rcases List.mem_append.1 he with he | he
    exacts [h.weights e he, hweights e he]

/-- A node can be removed with the edges at it. -/
theorem erase_node (h : g.WellFormed) (id : String) :
    ({ g with nodes := g.nodes.eraseP (·.id == id) }.withoutEdgesAt id).WellFormed := by
  have hids := ids_eraseP (g := g) id
  have hkept : ∀ {other : String}, other ∈ g.ids → other ≠ id → other ∈ g.ids.erase id :=
    fun hother hne => (List.mem_erase_of_ne hne).2 hother
  refine ⟨hids ▸ h.ids_nodup.erase id, fun e he => ?_, fun e he => ?_⟩
  · obtain ⟨he, htouch⟩ := List.mem_filter.1 he
    obtain ⟨hsource, htarget⟩ := h.ends_mem e he
    simp only [Edge.touches, Bool.not_eq_true', Bool.or_eq_false_iff, beq_eq_false_iff_ne] at htouch
    rw [hids]
    exact ⟨hkept hsource htouch.1, hkept htarget htouch.2⟩
  · exact h.weights e (List.mem_filter.1 he).1

theorem addNode {id : String} {value : Option Value} (h : g.WellFormed)
    (hadd : g.addNode id value = (.ok (), g')) : g'.WellFormed := by
  obtain ⟨hnew, rfl⟩ := addNode_eq_ok_iff.1 hadd
  exact h.append_node hnew value

theorem removeNode {id : String} {count : Nat} (h : g.WellFormed)
    (hremove : g.removeNode id = (.ok count, g')) : g'.WellFormed := by
  obtain ⟨-, rfl, -⟩ := removeNode_eq_ok_iff.1 hremove
  exact h.erase_node id

theorem connect {source target : String} {weight : Option Float} (h : g.WellFormed)
    (hweight : ∀ w, weight = some w → w.isFinite = true)
    (hconnect : g.connect source target weight = (.ok (), g')) : g'.WellFormed := by
  obtain ⟨hsource, htarget, -, hneg, rfl⟩ := connect_eq_ok_iff.1 hconnect
  have hfin : (weight.getD Edge.defaultWeight).isFinite = true := by
    cases weight with
    | none => rfl
    | some w => exact hweight w rfl
  refine h.append_edges (fun e he => ?_) fun e he => ?_
  · rw [List.mem_singleton.1 he]
    exact ⟨hsource, htarget⟩
  · rw [List.mem_singleton.1 he]
    exact soundWeight_of_not_lt hfin hneg

theorem removeEdges {source target : String} {count : Nat} (h : g.WellFormed)
    (hremove : g.removeEdges source target = (.ok count, g')) : g'.WellFormed := by
  obtain ⟨-, rfl, -⟩ := removeEdges_eq_ok_iff.1 hremove
  exact h.of_subset rfl (List.filter_subset_self _)

theorem isolate {id : String} {count : Nat} (h : g.WellFormed)
    (hisolate : g.isolate id = (.ok count, g')) : g'.WellFormed := by
  obtain ⟨-, rfl, -⟩ := isolate_eq_ok_iff.1 hisolate
  exact h.of_subset rfl (List.filter_subset_self _)

theorem setColor {id color : String} (h : g.WellFormed) (hset : g.setColor id color = (.ok (), g')) :
    g'.WellFormed := by
  obtain ⟨index, -, rfl⟩ := setColor_eq_ok_iff.1 hset
  refine h.of_subset ?_ (List.Subset.refl _)
  rw [ids, map_modify ?_, ids]
  exact fun _ => rfl

theorem markTraversed (h : g.WellFormed) (visited : List String) :
    (g.markTraversed visited).WellFormed :=
  h.of_subset (by simp [Graph.markTraversed, ids]) (List.Subset.refl _)

theorem subdivide {source target id : String} (h : g.WellFormed)
    (hsubdivide : g.subdivide source target id = (.ok (), g')) : g'.WellFormed := by
  obtain ⟨edge, hfind, hid, rfl⟩ := subdivide_eq_ok_iff.1 hsubdivide
  -- First the edge goes, then the node comes, then its two edges.
  obtain ⟨hsource, htarget⟩ := h.ends_mem edge (List.mem_of_find?_eq_some hfind)
  have hdropped : { g with edges := g.edges.eraseP (·.joins source target) }.WellFormed :=
    h.of_subset rfl List.eraseP_subset
  have hadded := hdropped.append_node hid none
  have hold : ∀ {other : String}, other ∈ g.ids →
      other ∈ ids { g with nodes := g.nodes ++ [Node.new id none] } := fun hother => by
    rw [ids_append]
    exact List.mem_append_left _ hother
  have hnew : id ∈ ids { g with nodes := g.nodes ++ [Node.new id none] } := by
    rw [ids_append]
    exact List.mem_append_right _ (List.mem_singleton_self id)
  refine hadded.append_edges (fun e he => ?_) fun e he => ?_
  · rcases List.mem_pair.1 he with rfl | rfl
    exacts [⟨hold hsource, hnew⟩, ⟨hnew, hold htarget⟩]
  · rcases List.mem_pair.1 he with rfl | rfl
    exacts [soundWeight_default, soundWeight_default]

theorem contract {a b merged : String} (h : g.WellFormed)
    (hcontract : g.contract a b = (.ok merged, g')) : g'.WellFormed := by
  have hids := ids_contract hcontract
  -- An end of an edge is kept, or becomes the new node if it was one of the pair.
  have hmoved : ∀ {id : String}, id ∈ g.ids → (if id == a || id == b then merged else id) ∈
      (g.ids.filter fun id => !(id == a || id == b)) ++ [merged] := by
    intro id hid
    split_ifs with hpair
    · exact List.mem_append_right _ (List.mem_singleton_self _)
    · exact List.mem_append_left _ (List.mem_filter.2 ⟨hid, by simpa using hpair⟩)
  obtain ⟨-, -, hmerged, rfl⟩ := contract_eq_ok_iff.1 hcontract
  refine ⟨?_, fun e he => ?_, fun e he => ?_⟩
  · rw [hids]
    refine List.Nodup.append (h.ids_nodup.filter _) (List.nodup_singleton _) fun id hid hnew => ?_
    rw [List.mem_singleton.1 hnew] at hid
    exact hmerged (List.mem_filter.1 hid).1
  · obtain ⟨old, hold, rfl⟩ := List.mem_map.1 he
    obtain ⟨hsource, htarget⟩ := h.ends_mem old (List.mem_filter.1 hold).1
    rw [hids]
    exact ⟨hmoved hsource, hmoved htarget⟩
  · obtain ⟨old, hold, rfl⟩ := List.mem_map.1 he
    exact h.weights old (List.mem_filter.1 hold).1

/-- Whatever a statement does to a well-formed graph, it stays well formed. -/
theorem change {named : String → Prop} (h : g.WellFormed) (hchange : g.Change named g') :
    g'.WellFormed := by
  cases hchange with
  | addNode _ _ hadd => exact h.addNode hadd
  | removeNode hremove => exact h.removeNode hremove
  | connect hweight hconnect => exact h.connect hweight hconnect
  | removeEdges hremove => exact h.removeEdges hremove
  | isolate hisolate => exact h.isolate hisolate
  | setColor hset => exact h.setColor hset
  | setBackground | setDirected | setWeighted => exact h.of_subset rfl (List.Subset.refl _)
  | markTraversed visited => exact h.markTraversed visited
  | subdivide _ hsubdivide => exact h.subdivide hsubdivide
  | contract _ _ hcontract => exact h.contract hcontract
  | reset => exact wellFormed_empty g.name

/-- The search for a cheapest path does not turn a well-formed graph down. -/
theorem no_negative_weight (h : g.WellFormed) : g.edges.any (fun e => e.weight < 0.0) = false := by
  simp only [List.any_eq_false, decide_eq_true_eq]
  exact fun e he => (h.weights e he).not_lt

end WellFormed

end Graph

end GraphScript
