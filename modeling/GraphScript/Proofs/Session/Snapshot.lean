import GraphScript.Proofs.Record
import GraphScript.Proofs.Session.Invariant
import GraphScript.Proofs.Value

/-!
# Snapshots of sessions

The snapshot of a session is read back from its text, unless a node of the current graph was
given a number that is too large for a double. Such a literal is taken for infinity, the record
of which is `null`, and the reader refuses it.

* `Value.read?_of_isLiteral`: a double in a graph is the one that its literal reads as;
* `Session.snapshot_read_back`: which snapshots are read back.
-/

namespace GraphScript

open Json

/-! ### Literals -/

namespace Value

/-- The literal is a number that is too large for a double. -/
def overflows (v : Value) : Bool :=
  v.kind == .double && (Decimal.read? (Text.trim v.raw.toList)).any fun x => !x.isFinite

/-- A double that a literal denotes is the one that it reads as. -/
theorem read?_of_isLiteral {v : Value} (h : v.IsLiteral) {x : Float} (hx : v.payload = .double x) :
    Decimal.read? (Text.trim v.raw.toList) = some x := by
  obtain ⟨raw, kind, rfl⟩ := h
  have hfits := fits_ofKind raw kind
  rw [hx] at hfits
  cases hfits with
  | double h => rwa [raw_ofKind, Decimal.read?_eq_some_iff]

/-- The doubles of a literal are finite unless it is too large. -/
theorem allFinite_doubles {v : Value} (h : v.IsLiteral) : allFinite v.doubles = !v.overflows := by
  cases hpayload : v.payload with
  | double x =>
    have hread := read?_of_isLiteral h hpayload
    simp [allFinite, doubles, Payload.doubles, overflows, kind, Payload.kind, hpayload, hread]
  | _ => simp [allFinite, doubles, Payload.doubles, overflows, kind, Payload.kind, hpayload]

end Value

/-! ### Values in graphs -/

namespace Graph

variable {g g' : Graph}

/-- The values of the nodes. -/
def values (g : Graph) : List Value :=
  g.nodes.filterMap Node.value

theorem values_eq (g : Graph) : g.values = (g.nodes.map Node.value).filterMap id := by
  rw [List.filterMap_map, Function.id_comp, values]

/-- Literals denote the values in the graph. -/
def Literal (g : Graph) : Prop :=
  ∀ v ∈ g.values, v.IsLiteral

theorem literal_empty (name : String) : (empty name).Literal := by
  intro v hv
  cases hv

theorem Literal.of_subset (h : g.Literal) (hvalues : g'.values ⊆ g.values) : g'.Literal :=
  fun v hv => h v (hvalues hv)

/-- Whatever a statement does to a graph, literals still denote the values in it. -/
theorem Literal.change {named : String → Prop} (h : g.Literal) (hchange : g.Change named g') :
    g'.Literal := by
  cases hchange with
  | addNode _ hvalue hadd =>
    obtain ⟨-, rfl⟩ := addNode_eq_ok_iff.1 hadd
    intro v hv
    rw [values, List.filterMap_append, List.mem_append] at hv
    refine hv.elim (h v) fun hnew => hvalue v ?_
    simpa [Node.new] using hnew
  | removeNode hremove =>
    obtain ⟨-, rfl, -⟩ := removeNode_eq_ok_iff.1 hremove
    exact h.of_subset (List.eraseP_sublist.filterMap _).subset
  | connect _ hconnect =>
    obtain ⟨-, -, -, -, rfl⟩ := connect_eq_ok_iff.1 hconnect
    exact h
  | removeEdges hremove =>
    obtain ⟨-, rfl, -⟩ := removeEdges_eq_ok_iff.1 hremove
    exact h
  | isolate hisolate =>
    obtain ⟨-, rfl, -⟩ := isolate_eq_ok_iff.1 hisolate
    exact h
  | setColor hset =>
    obtain ⟨index, -, rfl⟩ := setColor_eq_ok_iff.1 hset
    -- A node keeps its value when it gets a colour.
    refine h.of_subset ?_
    rw [values_eq, map_modify ?_, ← values_eq]
    · exact List.Subset.refl _
    · exact fun _ => rfl
  | setBackground | setDirected | setWeighted => exact h
  | markTraversed visited =>
    refine h.of_subset ?_
    rw [markTraversed, values, List.filterMap_map]
    exact List.Subset.refl _
  | subdivide _ hsubdivide =>
    obtain ⟨edge, -, -, rfl⟩ := subdivide_eq_ok_iff.1 hsubdivide
    exact h.of_subset (by simp [values, Node.new])
  | contract _ _ hcontract =>
    obtain ⟨-, -, -, rfl⟩ := contract_eq_ok_iff.1 hcontract
    refine h.of_subset ?_
    simpa [values, Node.new] using (List.filter_sublist.filterMap Node.value).subset
  | reset => exact literal_empty g.name

theorem doubles_eq (g : Graph) :
    g.doubles = g.values.flatMap Value.doubles ++ g.edges.map Edge.weight := by
  have hnodes (nodes : List Node) :
      nodes.flatMap Node.doubles = (nodes.filterMap Node.value).flatMap Value.doubles := by
    induction nodes with
    | nil => rfl
    | cons n nodes ih =>
      rw [List.flatMap_cons, ih, Node.doubles, List.filterMap_cons]
      cases n.value <;> rfl
  rw [doubles, hnodes, values]

/-- The weights in a graph are finite, and its values are unless one is too large. -/
theorem Literal.allFinite_doubles (h : g.Literal) (hwell : g.WellFormed) :
    allFinite g.doubles = !g.values.any Value.overflows := by
  have hweights : (g.edges.map Edge.weight).all Float.isFinite = true := by
    simpa using fun e he => (hwell.weights e he).1
  have hvalues : (g.values.all fun v => allFinite v.doubles) =
      g.values.all fun v => !v.overflows := by
    rw [Bool.eq_iff_iff, List.all_eq_true, List.all_eq_true]
    exact forall₂_congr fun v hv => by rw [Value.allFinite_doubles (h v hv)]
  rw [allFinite, doubles_eq, List.all_append, hweights, Bool.and_true, List.all_flatMap,
    List.not_any_eq_all_not]
  exact hvalues

end Graph

/-! ### Snapshots -/

namespace Session

/-- Whatever scripts are run, the snapshot of the session is read back from its text exactly if
no node of the current graph has a value with a literal too large for a double; else nothing is
read. The doubles that are finite have to be read back themselves. -/
theorem snapshot_read_back {config : Config} {s : Session} (h : Reachable config s)
    (hread : AllReadBack s.graph.doubles) :
    (parse? s.snapshot.toJson.compact).bind Snapshot.ofJson? =
      if s.graph.values.any Value.overflows then none else some s.snapshot := by
  -- Along every run, weights stay finite and literals denote the values.
  have hcurrent : s.graph ∈ s.store.graphs := by simp [Session.graph, Store.graphs]
  have hwell : s.graph.WellFormed :=
    h.graphs Graph.wellFormed_empty (fun hchange hg => hg.change hchange) s.graph hcurrent
  have hliteral : s.graph.Literal :=
    h.graphs Graph.literal_empty (fun hchange hg => hg.change hchange) s.graph hcurrent
  have hsnapshot : s.snapshot.graph = s.graph := rfl
  rw [parse?_bind_ofJson? (Snapshot.readable_toJson (hsnapshot ▸ hread)),
    Snapshot.ofJson?_toJson, hsnapshot, hliteral.allFinite_doubles hwell]
  cases s.graph.values.any Value.overflows <;> rfl

/-- A large number that is asked to be a text does no harm. -/
theorem snapshot_read_back_text :
    let s := ((Session.new {}).run "Set WEIGHTED true. Create Node a VALUE 2.5.
      Create Node b VALUE 1e999 AS string. Connect a To b WEIGHT 1 / 10.").session
    AllReadBack s.graph.doubles ∧
      (parse? s.snapshot.toJson.compact).bind Snapshot.ofJson? = some s.snapshot := by
  intro s
  have hread : AllReadBack s.graph.doubles := by decide +kernel
  have hvalues : s.graph.values.any Value.overflows = false := by decide +kernel
  refine ⟨hread, ?_⟩
  rw [snapshot_read_back (.run _ (.new _)) hread, hvalues]
  rfl

/-- A literal that is too large is taken without complaint, but the snapshot is lost. -/
theorem snapshot_lost_too_large :
    let run := (Session.new {}).run "Create Node a VALUE 1e999."
    run.summary.errors = 0 ∧ run.session.graph.ids = ["a"] ∧
      (parse? run.session.snapshot.toJson.compact).bind Snapshot.ofJson? = none := by
  decide +kernel

end Session

end GraphScript
