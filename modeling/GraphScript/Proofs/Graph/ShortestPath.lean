import GraphScript.Proofs.Graph.Parents
import GraphScript.Proofs.Graph.Route

/-!
# Shortest paths

The breadth-first search keeps that what the visits that have ended lead to is known, and at most
one step farther than they are (`Spreads`): when a visit ends, all visits known are at most that
far. Along any way from the origin, the distances of the visits thus grow by one at most with each
step, so no way to a slot is shorter than the trail of its visit (`length_trail_le`).

So a path is found wherever there is a route, and there is no route with fewer nodes
(`Graph.shortestPath_fewest`).
-/

namespace GraphScript

namespace Adjacency

variable {adj : Adjacency} {v : Visit} {done queue : List Visit} {origin : ℕ}

/-- What the visits that have ended lead to is known, and at most one step farther. -/
def Spreads (adj : Adjacency) (done queue : List Visit) : Prop :=
  ∀ v ∈ done, ∀ entry ∈ adj.entries v.slot,
    ∃ w ∈ done ++ queue, w.slot = entry.slot ∧ w.trail.length ≤ v.trail.length + 1

theorem Spreads.round (hqueued : adj.Queued done (v :: queue)) (h : adj.Spreads done (v :: queue)) :
    adj.Spreads (done ++ [v])
      (queue ++ discover v (done ++ v :: queue) (adj.entries v.slot)) := by
  set found := discover v (done ++ v :: queue) (adj.entries v.slot)
  have hassoc : done ++ [v] ++ (queue ++ found) = done ++ v :: queue ++ found := by simp
  rw [Spreads, hassoc]
  intro u hu entry hentry
  rcases List.mem_append.1 hu with hu | hu
  · obtain ⟨w, hw, hnear⟩ := h u hu entry hentry
    exact ⟨w, List.mem_append_left _ hw, hnear⟩
  · -- The visit that ends: its entries are known already, or are found through it.
    obtain rfl := List.mem_singleton.1 hu
    obtain ⟨w, hw, hslot⟩ := exists_of_mem_entries hentry
    refine ⟨w, hw, hslot, ?_⟩
    rcases List.mem_append.1 hw with hw | hw
    · exact hqueued.near u List.mem_cons_self w hw
    · rw [(of_mem_discover hw).1, List.length_cons]

theorem search_spreads (hentries : ∀ v, ∀ entry ∈ adj.entries v, entry.slot < adj.size)
    (h : origin < adj.size) : adj.Spreads (adj.search origin) [] :=
  explore_keeps hentries (fun _ _ _ => .round) (Nat.le_add_right _ _) (.start h)
    (List.forall_mem_nil _)

/-- A way leads to no slot that is visited farther away. -/
theorem exists_visit_le {weight : ℕ → Float} {slot : ℕ} {trail : List ℕ} {cost : Float}
    (hentries : ∀ v, ∀ entry ∈ adj.entries v, entry.slot < adj.size) (h : origin < adj.size)
    (hway : adj.Way weight origin slot trail cost) :
    ∃ v ∈ adj.search origin, v.slot = slot ∧ v.trail.length ≤ trail.length := by
  induction hway with
  | start =>
    obtain ⟨rest, hsearch⟩ := exists_search_eq_cons h
    exact ⟨⟨origin, []⟩, hsearch ▸ List.mem_cons_self, rfl, le_rfl⟩
  | step _ hentry ih =>
    obtain ⟨v, hv, rfl, hle⟩ := ih
    obtain ⟨w, hw, hslot, hnear⟩ := search_spreads hentries h v hv _ hentry
    rw [List.append_nil] at hw
    exact ⟨w, hw, hslot, hnear.trans (Nat.succ_le_succ hle)⟩

end Adjacency

namespace Graph

open Adjacency

variable {g : Graph} {start target : String} {path : List String} {origin : ℕ} {v : Visit}

/-- No way to a slot is shorter than the trail of its visit. -/
theorem length_trail_le (horigin : origin < g.nodes.length)
    (hv : v ∈ (undirected g).search origin) {weight : ℕ → Float} {trail : List ℕ} {cost : Float}
    (hway : (undirected g).Way weight origin v.slot trail cost) :
    v.trail.length ≤ trail.length := by
  have hsize : (undirected g).size = g.nodes.length := size_build
  obtain ⟨w, hw, hslot, hle⟩ :=
    exists_visit_le (fun _ _ => slot_lt_of_mem_entries) (hsize ▸ horigin) hway
  obtain rfl := List.inj_on_of_nodup_map (nodup_search horigin) hw hv hslot
  exact hle

theorem shortestPath?_eq_some_iff : g.shortestPath? start target = some path ↔
    ∃ origin goal v, g.slot? start = some origin ∧ g.slot? target = some goal ∧
      ((undirected g).search origin).find? (·.slot == goal) = some v ∧
      path = (undirected g).names (v.slot :: v.trail).reverse := by
  rw [shortestPath?_eq]
  simp only [Option.bind_eq_some_iff, Option.map_eq_some_iff]
  constructor
  · rintro ⟨origin, horigin, goal, hgoal, _, ⟨v, hv, rfl⟩, rfl⟩
    exact ⟨origin, goal, v, horigin, hgoal, hv, rfl⟩
  · rintro ⟨origin, goal, v, horigin, hgoal, hv, rfl⟩
    exact ⟨origin, horigin, goal, hgoal, _, ⟨v, hv, rfl⟩, rfl⟩

/-- A path is found where there is a route. -/
theorem exists_shortestPath? (h : g.Joined start target) :
    ∃ path, g.shortestPath? start target = some path := by
  obtain ⟨_, _, hroute⟩ := h
  obtain ⟨origin, horigin⟩ := exists_slot? hroute.mem_ids.1
  obtain ⟨goal, hgoal⟩ := exists_slot? hroute.mem_ids.2
  have hconnected := (joined_iff_connected horigin hgoal).1 ⟨_, _, hroute⟩
  obtain ⟨v, hv, hslot⟩ := List.mem_map.1 ((mem_search_iff (slot?_lt horigin)).2 hconnected)
  obtain ⟨w, hfind⟩ : ∃ w, ((undirected g).search origin).find? (·.slot == goal) = some w :=
    Option.isSome_iff_exists.1 (List.find?_isSome.2 ⟨v, hv, beq_iff_eq.2 hslot⟩)
  exact ⟨_, shortestPath?_eq_some_iff.2 ⟨origin, goal, w, horigin, hgoal, hfind, rfl⟩⟩

/-- The path found is a route, and no route has fewer nodes. -/
theorem shortest_of_shortestPath? (h : g.shortestPath? start target = some path) :
    (∃ steps, g.Route start target path steps) ∧
      ∀ path' steps, g.Route start target path' steps → path.length ≤ path'.length := by
  obtain ⟨origin, goal, v, horigin, hgoal, hfind, rfl⟩ := shortestPath?_eq_some_iff.1 h
  have hv := List.mem_of_find?_eq_some hfind
  obtain rfl : v.slot = goal := by simpa using List.find?_some hfind
  refine ⟨route_of_mem_search horigin hv hgoal, fun path' steps hroute => ?_⟩
  obtain ⟨cost, hwalk⟩ := hroute.walk
  obtain ⟨slot, trail, hslot, hway, rfl⟩ := hwalk.way horigin
  obtain rfl := Option.some_inj.1 (hgoal.symm.trans hslot)
  have hle := length_trail_le (slot?_lt horigin) hv hway
  simpa [names] using hle

/-- A path is found exactly where both nodes exist and a route joins them, taking edges in either
    direction. It starts and ends at the two nodes, an edge joins every two nodes that follow each
    other on it, and no route has fewer nodes. -/
theorem shortestPath_fewest (g : Graph) (start target : String) :
    ((g.shortestPath? start target).isSome = true ↔
      start ∈ g.ids ∧ target ∈ g.ids ∧ ∃ path steps, g.Route start target path steps) ∧
    ∀ path, g.shortestPath? start target = some path →
      path.head? = some start ∧ path.getLast? = some target ∧
      (path.IsChain fun a b => g.adjacent a b = true) ∧
      ∀ path' steps, g.Route start target path' steps → path.length ≤ path'.length := by
  refine ⟨⟨fun hsome => ?_, ?_⟩, fun path hpath => ?_⟩
  · obtain ⟨path, hpath⟩ := Option.isSome_iff_exists.1 hsome
    obtain ⟨⟨steps, hroute⟩, -⟩ := shortest_of_shortestPath? hpath
    exact ⟨hroute.mem_ids.1, hroute.mem_ids.2, path, steps, hroute⟩
  · rintro ⟨-, -, hjoined⟩
    exact Option.isSome_iff_exists.2 (exists_shortestPath? hjoined)
  · obtain ⟨⟨steps, hroute⟩, hleast⟩ := shortest_of_shortestPath? hpath
    obtain ⟨cost, hwalk⟩ := hroute.walk
    exact ⟨hwalk.head?, hwalk.getLast?, hroute.isChain, hleast⟩

/-- The path goes against the directions of its edges, as directions do not matter. The longer way
    round has one node more, and no route leads to the node apart. -/
theorem shortestPath_fewest_ring :
    let ring : Graph := { Graph.empty "main" with
      nodes := ["a", "b", "c", "d", "e", "f"].map (Node.new · none)
      edges := [⟨"a", "d", 1.0⟩, ⟨"d", "e", 1.0⟩, ⟨"e", "c", 1.0⟩, ⟨"c", "b", 1.0⟩, ⟨"b", "a", 1.0⟩]
      directed := true }
    ring.shortestPath? "a" "c" = some ["a", "b", "c"] ∧
      (∀ path steps, ring.Route "a" "c" path steps → 3 ≤ path.length) ∧
      ¬∃ path steps, ring.Route "a" "f" path steps := by
  intro ring
  have hpath : ring.shortestPath? "a" "c" = some ["a", "b", "c"] := by decide +kernel
  obtain ⟨-, -, -, hleast⟩ := (shortestPath_fewest ring "a" "c").2 _ hpath
  refine ⟨hpath, hleast, fun hroute => ?_⟩
  have hsome := (shortestPath_fewest ring "a" "f").1.2 ⟨by decide, by decide, hroute⟩
  exact absurd hsome (by decide)

end Graph

end GraphScript
