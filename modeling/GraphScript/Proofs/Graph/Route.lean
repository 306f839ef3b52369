import GraphScript.Proofs.Graph.Connectivity
import Mathlib.Data.List.Chain

/-!
# Routes

A *route* is a walk that takes edges in either direction, with the nodes on it and the positions
of its edges among the edges of the graph. Parallel edges thus make different routes, and an edge
with a missing end is on none. Without their positions routes are the walks for which directions
do not matter (`Route.walk`, `Walk.route`).

Two nodes are *joined* when a route leads from the one to the other, that is, when their slots are
connected (`joined_iff_connected`). A map between the nodes of two graphs that keeps the ends of
edges joined keeps all joined nodes so (`Joined.map`).
-/

namespace GraphScript.Graph

/-- The routes from a node: where they end, the nodes on them and the positions of their edges. -/
inductive Route (g : Graph) (start : String) : String → List String → List ℕ → Prop
  | start : start ∈ g.ids → Route g start start [start] []
  | step {a b : String} {path : List String} {steps : List ℕ} {i : ℕ} {e : Edge} :
    Route g start a path steps → g.edges[i]? = some e → e.Leads false a b → b ∈ g.ids →
      Route g start b (path ++ [b]) (steps ++ [i])

/-- Some route leads from the one node to the other. -/
def Joined (g : Graph) (a b : String) : Prop :=
  ∃ path steps, g.Route a b path steps

variable {g : Graph} {start target : String} {path : List String} {steps : List ℕ}

theorem Route.walk (h : g.Route start target path steps) :
    ∃ cost, g.Walk false start target path cost := by
  induction h with
  | start hstart => exact ⟨_, .start hstart⟩
  | step _ he hleads hb ih =>
    obtain ⟨cost, hwalk⟩ := ih
    exact ⟨_, .step hwalk (List.mem_of_getElem? he) hleads hb⟩

theorem Walk.route {cost : Float} (h : g.Walk false start target path cost) :
    ∃ steps, g.Route start target path steps := by
  induction h with
  | start hstart => exact ⟨_, .start hstart⟩
  | step _ he hleads hb ih =>
    obtain ⟨steps, hroute⟩ := ih
    obtain ⟨i, hi⟩ := List.getElem?_of_mem he
    exact ⟨_, .step hroute hi hleads hb⟩

theorem Route.mem_ids (h : g.Route start target path steps) : start ∈ g.ids ∧ target ∈ g.ids := by
  induction h with
  | start hstart => exact ⟨hstart, hstart⟩
  | step _ _ _ hb ih => exact ⟨ih.1, hb⟩

/-- An edge joins every two nodes that follow each other on a route. -/
theorem Route.isChain (h : g.Route start target path steps) :
    path.IsChain fun a b => g.adjacent a b = true := by
  induction h with
  | start _ => exact List.isChain_singleton _
  | @step a b path _ _ e hroute he hleads _ ih =>
    have hadjacent : g.adjacent a b = true := by
      refine List.any_eq_true.2 ⟨e, List.mem_of_getElem? he, ?_⟩
      obtain ⟨rfl, rfl⟩ | ⟨-, rfl, rfl⟩ := hleads <;> simp [Edge.joins]
    obtain ⟨_, hwalk⟩ := hroute.walk
    refine ih.append (List.isChain_singleton _) fun x hx y hy => ?_
    rw [hwalk.getLast?, Option.mem_some_iff] at hx
    rw [List.head?_cons, Option.mem_some_iff] at hy
    rwa [← hx, ← hy]

/-- The search comes to a node along a route. -/
theorem route_of_mem_search {origin : ℕ} {v : Visit} (horigin : g.slot? start = some origin)
    (hv : v ∈ (Adjacency.undirected g).search origin) (hgoal : g.slot? target = some v.slot) :
    ∃ steps, g.Route start target
      ((Adjacency.undirected g).names (v.slot :: v.trail).reverse) steps := by
  obtain ⟨cost, hway⟩ := (g.search_explores g.weightAt (slot?_lt horigin)).ways v
    (List.mem_append_left _ hv)
  obtain ⟨id, hid, hwalk⟩ := hway.walk horigin
  obtain rfl := slot?_inj hid hgoal
  exact hwalk.route

/-- Nodes are joined where the links connect their slots. -/
theorem joined_iff_connected {a b : String} {slot slot' : ℕ} (ha : g.slot? a = some slot)
    (hb : g.slot? b = some slot') : g.Joined a b ↔ Connected g.links slot slot' := by
  constructor
  · rintro ⟨path, steps, hroute⟩
    obtain ⟨cost, hwalk⟩ := hroute.walk
    obtain ⟨goal, trail, hgoal, hway, -⟩ := hwalk.way ha
    obtain rfl := Option.some_inj.1 (hgoal.symm.trans hb)
    exact hway.connected
  · intro hconnected
    obtain ⟨v, hv, rfl⟩ := List.mem_map.1 ((mem_search_iff (slot?_lt ha)).2 hconnected)
    exact ⟨_, route_of_mem_search ha hv hb⟩

namespace Joined

variable {a b c : String}

theorem mem_ids (h : g.Joined a b) : a ∈ g.ids ∧ b ∈ g.ids := by
  obtain ⟨_, _, hroute⟩ := h
  exact hroute.mem_ids

theorem symm (h : g.Joined a b) : g.Joined b a := by
  obtain ⟨slot, ha⟩ := exists_slot? h.mem_ids.1
  obtain ⟨slot', hb⟩ := exists_slot? h.mem_ids.2
  exact (joined_iff_connected hb ha).2 ((joined_iff_connected ha hb).1 h).symm

theorem trans (h : g.Joined a b) (h' : g.Joined b c) : g.Joined a c := by
  obtain ⟨slot, ha⟩ := exists_slot? h.mem_ids.1
  obtain ⟨slot', hb⟩ := exists_slot? h.mem_ids.2
  obtain ⟨slot'', hc⟩ := exists_slot? h'.mem_ids.2
  exact (joined_iff_connected ha hc).2
    (((joined_iff_connected ha hb).1 h).trans ((joined_iff_connected hb hc).1 h'))

theorem refl (h : a ∈ g.ids) : g.Joined a a :=
  ⟨_, _, .start h⟩

theorem of_edge {e : Edge} (he : e ∈ g.edges) (hsource : e.source ∈ g.ids)
    (htarget : e.target ∈ g.ids) : g.Joined e.source e.target := by
  obtain ⟨i, hi⟩ := List.getElem?_of_mem he
  exact ⟨_, _, .step (.start hsource) hi (.inl ⟨rfl, rfl⟩) htarget⟩

/-- Nodes stay joined along a map of the nodes that keeps the ends of every edge joined. -/
theorem map {g' : Graph} {f : String → String} (h : g.Joined a b)
    (hids : ∀ id ∈ g.ids, f id ∈ g'.ids)
    (hedges : ∀ e ∈ g.edges, e.source ∈ g.ids → e.target ∈ g.ids →
      g'.Joined (f e.source) (f e.target)) : g'.Joined (f a) (f b) := by
  obtain ⟨path, steps, hroute⟩ := h
  induction hroute with
  | start hstart => exact refl (hids _ hstart)
  | step hroute he hleads hb ih =>
    have he := List.mem_of_getElem? he
    have ha := hroute.mem_ids.2
    obtain ⟨rfl, rfl⟩ | ⟨-, rfl, rfl⟩ := hleads
    · exact ih.trans (hedges _ he ha hb)
    · exact ih.trans (hedges _ he hb ha).symm

end Joined

end GraphScript.Graph
