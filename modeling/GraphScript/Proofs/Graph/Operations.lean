import GraphScript.Store
import Mathlib.Tactic.SplitIfs

/-!
# Operations on graphs and on the store

Each operation that may be refused is told by one equivalence: when it succeeds, and which graph or
store it leaves behind then (`Graph.addNode_eq_ok_iff`, …). What operations keep or change follows
from these, without a look at how they check their arguments.

An operation that is refused leaves behind what was there before (`Leaves`). Most operations check
everything before they change anything. `Graph.removeEdges` does not: it drops the edges first, and
where it is refused there were none to drop (`Graph.leaves_removeEdges`).
-/

namespace GraphScript

section

variable {σ α : Type}

/-- Where a change is refused, it leaves what was there before. -/
def Leaves (x : σ) (outcome : Except Error α × σ) : Prop :=
  ∀ e, outcome.1 = .error e → outcome.2 = x

theorem Leaves.refused (x : σ) (e : Error) : Leaves x ((.error e, x) : Except Error α × σ) :=
  fun _ _ => rfl

theorem Leaves.done (x y : σ) (result : α) : Leaves x (.ok result, y) := by
  intro e h
  cases h

end

namespace Graph

variable {g g' : Graph} {id source target a b : String}

theorem contains_iff : g.contains id = true ↔ id ∈ g.ids := by
  simp [contains, ids]

/-! ### Nodes -/

/-- A node needs an id of its own, and comes behind all others. -/
theorem addNode_eq_ok_iff {value : Option Value} : g.addNode id value = (.ok (), g') ↔
    id ∉ g.ids ∧ g' = { g with nodes := g.nodes ++ [Node.new id value] } := by
  rw [addNode, ← contains_iff]
  split_ifs with h <;> simp [h, eq_comm]

theorem leaves_addNode (g : Graph) (id : String) (value : Option Value) :
    Leaves g (g.addNode id value) := by
  rw [addNode]
  split_ifs
  · exact .refused _ _
  · exact .done _ _ _

/-- As many edges go as are at the node. -/
theorem length_withoutEdgesAt (g : Graph) (id : String) :
    g.edges.length = (g.withoutEdgesAt id).edges.length + g.degree id := by
  rw [withoutEdgesAt, ← List.countP_eq_length_filter, degree, Nat.add_comm,
    List.length_eq_countP_add_countP (·.touches id)]
  congr 1
  exact List.countP_congr fun e _ => by simp

theorem dropEdgesAt_eq (g : Graph) (id : String) :
    g.dropEdgesAt id = (g.degree id, g.withoutEdgesAt id) := by
  rw [dropEdgesAt, length_withoutEdgesAt g id, Nat.add_sub_cancel_left]

/-- The first node with the id is removed. -/
theorem removeNode_of_mem (h : id ∈ g.ids) :
    g.removeNode id =
      (.ok (g.degree id), { g with nodes := g.nodes.eraseP (·.id == id) }.withoutEdgesAt id) := by
  obtain ⟨index, hindex⟩ : ∃ index, g.findIndex? id = some index := by
    rw [← Option.isSome_iff_exists, findIndex?, List.findIdx?_isSome]
    exact contains_iff.2 h
  have herase : g.nodes.eraseP (·.id == id) = g.nodes.eraseIdx index := by
    rw [List.eraseP_eq_eraseIdx, ← findIndex?, hindex]
  rw [removeNode, hindex, herase]
  dsimp only
  rw [dropEdgesAt_eq]
  rfl

theorem removeNode_of_notMem (h : id ∉ g.ids) :
    g.removeNode id = (.error (.notFound .node id), g) := by
  have hindex : g.findIndex? id = none := by
    rw [findIndex?, List.findIdx?_eq_none_iff]
    intro node hnode
    exact beq_eq_false_iff_ne.2 fun heq => h (heq ▸ List.mem_map_of_mem hnode)
  rw [removeNode, hindex]

theorem removeNode_eq_ok_iff {count : Nat} : g.removeNode id = (.ok count, g') ↔
    id ∈ g.ids ∧ g' = { g with nodes := g.nodes.eraseP (·.id == id) }.withoutEdgesAt id ∧
      count = g.degree id := by
  by_cases h : id ∈ g.ids
  · rw [removeNode_of_mem h]
    simp [h, eq_comm, and_comm]
  · rw [removeNode_of_notMem h]
    simp [h]

theorem leaves_removeNode (g : Graph) (id : String) : Leaves g (g.removeNode id) := by
  by_cases h : id ∈ g.ids
  · rw [removeNode_of_mem h]
    exact .done _ _ _
  · rw [removeNode_of_notMem h]
    exact .refused _ _

/-- The first node with the id gets the color. -/
theorem setColor_eq_ok_iff {color : String} : g.setColor id color = (.ok (), g') ↔
    ∃ index, g.findIndex? id = some index ∧
      g' = { g with nodes := g.nodes.modify index ({ · with color := color }) } := by
  rw [setColor]
  cases g.findIndex? id <;> simp [eq_comm]

theorem leaves_setColor (g : Graph) (id color : String) : Leaves g (g.setColor id color) := by
  rw [setColor]
  cases g.findIndex? id with
  | none => exact .refused _ _
  | some index => exact .done _ _ _

/-! ### Edges -/

/-- An edge needs both its ends, a weight that is not negative, and no other edge in the same
    direction. -/
theorem connect_eq_ok_iff {weight : Option Float} : g.connect source target weight = (.ok (), g') ↔
    source ∈ g.ids ∧ target ∈ g.ids ∧ (∀ e ∈ g.edges, ¬(e.source = source ∧ e.target = target)) ∧
      ¬weight.getD Edge.defaultWeight < 0.0 ∧
      g' = { g with edges := g.edges ++ [⟨source, target, weight.getD Edge.defaultWeight⟩] } := by
  rw [connect, ← contains_iff, ← contains_iff]
  dsimp only
  constructor
  · intro h
    split at h
    · cases h
    · rename_i hends
      rw [Bool.not_eq_true, Bool.or_eq_false_iff, Bool.not_eq_false', Bool.not_eq_false'] at hends
      split_ifs at h with hedge hweight
      · cases h
      · cases h
      · cases h
        exact ⟨hends.1, hends.2, by simpa using hedge, hweight, rfl⟩
  · rintro ⟨hsource, htarget, hedge, hweight, rfl⟩
    have hnew : g.edges.any (fun e => e.source == source && e.target == target) = false := by
      simpa using hedge
    rw [hsource, htarget, hnew]
    exact if_neg hweight

theorem leaves_connect (g : Graph) (source target : String) (weight : Option Float) :
    Leaves g (g.connect source target weight) := by
  rw [connect]
  dsimp only
  split
  · exact .refused _ _
  · split_ifs
    · exact .refused _ _
    · exact .refused _ _
    · exact .done _ _ _

/-- As many edges go as join the nodes. -/
theorem length_filter_joins (g : Graph) (source target : String) :
    g.edges.length - (g.edges.filter (!·.joins source target)).length =
      g.edges.countP (·.joins source target) := by
  have hsum := List.length_eq_countP_add_countP (·.joins source target) (l := g.edges)
  have hrest : g.edges.countP (fun e => !e.joins source target) =
      g.edges.countP fun e => ¬e.joins source target = true :=
    List.countP_congr fun e _ => by simp
  rw [← List.countP_eq_length_filter, hrest]
  omega

theorem countP_joins_eq_zero_iff :
    g.edges.countP (·.joins source target) = 0 ↔ g.adjacent source target = false := by
  rw [List.countP_eq_zero, adjacent, List.any_eq_false]

/-- All edges between the two nodes go, in whatever direction they are, and there has to be one. -/
theorem removeEdges_eq_ok_iff {count : Nat} : g.removeEdges source target = (.ok count, g') ↔
    g.adjacent source target = true ∧
      g' = { g with edges := g.edges.filter (!·.joins source target) } ∧
      count = g.edges.countP (·.joins source target) := by
  rw [removeEdges]
  dsimp only
  rw [length_filter_joins]
  split_ifs with h
  · simp [countP_joins_eq_zero_iff.1 h]
  · have hadjacent : g.adjacent source target = true :=
      Bool.not_eq_false _ ▸ (h ∘ countP_joins_eq_zero_iff.2)
    simp [hadjacent, eq_comm, and_comm]

/-- The edges are dropped before anything is checked, but what is refused dropped none. -/
theorem leaves_removeEdges (g : Graph) (source target : String) :
    Leaves g (g.removeEdges source target) := by
  rw [removeEdges]
  dsimp only
  rw [length_filter_joins]
  split_ifs with hnone
  · have hall : ∀ edge ∈ g.edges, (!edge.joins source target) = true := fun edge hedge => by
      simpa using List.countP_eq_zero.1 hnone edge hedge
    rw [List.filter_eq_self.2 hall]
    exact .refused _ _
  · exact .done _ _ _

/-- The node stays, without its edges. -/
theorem isolate_eq_ok_iff {count : Nat} : g.isolate id = (.ok count, g') ↔
    id ∈ g.ids ∧ g' = g.withoutEdgesAt id ∧ count = g.degree id := by
  rw [isolate, ← contains_iff, dropEdgesAt_eq]
  split_ifs with h <;> simp [h, eq_comm, and_comm]

theorem leaves_isolate (g : Graph) (id : String) : Leaves g (g.isolate id) := by
  rw [isolate]
  split_ifs
  · exact .done _ _ _
  · exact .refused _ _

/-! ### Subdivision and contraction -/

/-- Of several edges the first is subdivided. The two halves have the default weight, whatever the
    edge had. -/
theorem subdivide_eq_ok_iff : g.subdivide source target id = (.ok (), g') ↔
    ∃ edge, g.edges.find? (·.joins source target) = some edge ∧ id ∉ g.ids ∧
      g' = { g with
        nodes := g.nodes ++ [Node.new id none]
        edges := g.edges.eraseP (·.joins source target) ++
          [⟨edge.source, id, Edge.defaultWeight⟩, ⟨id, edge.target, Edge.defaultWeight⟩] } := by
  rw [subdivide, ← contains_iff]
  cases g.edges.find? (·.joins source target) with
  | none => simp
  | some edge =>
    dsimp only
    split_ifs with h <;> simp [h, eq_comm]

theorem leaves_subdivide (g : Graph) (source target id : String) :
    Leaves g (g.subdivide source target id) := by
  rw [subdivide]
  cases g.edges.find? (·.joins source target) with
  | none => exact .refused _ _
  | some edge =>
    dsimp only
    split_ifs
    · exact .refused _ _
    · exact .done _ _ _

/-- The edges between the two nodes go. The others at them lead to the merged node, also where this
    makes two of them parallel. -/
theorem contract_eq_ok_iff {merged : String} : g.contract a b = (.ok merged, g') ↔
    g.adjacent a b = true ∧ merged = a ++ b ∧ merged ∉ g.ids ∧
      g' = { g with
        nodes := g.nodes.filter (fun node => !(node.id == a || node.id == b)) ++
          [Node.new merged none]
        edges := (g.edges.filter fun e =>
            !((e.source == a || e.source == b) && (e.target == a || e.target == b))).map fun e =>
          { e with
            source := if e.source == a || e.source == b then merged else e.source
            target := if e.target == a || e.target == b then merged else e.target } } := by
  rw [contract, ← contains_iff]
  dsimp only
  constructor
  · intro h
    split_ifs at h with hadjacent hmerged
    · cases h
    · cases h
    · cases h
      exact ⟨by simpa using hadjacent, rfl, hmerged, rfl⟩
  · rintro ⟨hadjacent, rfl, hmerged, rfl⟩
    rw [hadjacent, if_neg (by decide), if_neg hmerged]

theorem leaves_contract (g : Graph) (a b : String) : Leaves g (g.contract a b) := by
  rw [contract]
  dsimp only
  split_ifs
  · exact .refused _ _
  · exact .refused _ _
  · exact .done _ _ _

end Graph

/-! ### The store -/

namespace Store

variable {store store' : Store} {name : String}

theorem get?_isSome_iff : (store.get? name).isSome = true ↔ name ∈ store.names := by
  simp [get?, names]

/-- A graph is created under a name that no other graph has, and comes behind all others. -/
theorem create_eq_ok_iff : store.create name = (.ok (), store') ↔
    name ∉ store.names ∧ store' = { store with later := store.later ++ [Graph.empty name] } := by
  rw [create, ← get?_isSome_iff]
  split_ifs with h <;> simp [h, eq_comm]

theorem leaves_create (store : Store) (name : String) : Leaves store (store.create name) := by
  rw [create]
  split_ifs
  · exact .refused _ _
  · exact .done _ _ _

theorem leaves_use (store : Store) (name : String) : Leaves store (store.use name) := by
  rw [use]
  split
  · exact .done _ _ _
  · exact .refused _ _

end Store

end GraphScript
