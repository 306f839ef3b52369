import GraphScript.Proofs.Graph.Components
import GraphScript.Proofs.Graph.ShortestPath
import Mathlib.Order.Lattice.Nat

/-!
# Distances

The *distance* of two nodes is the least number of edges on a route between them. The search keeps
its visits in the order of their trails (`search_sorted`): what a round finds is one step farther
than the visit that ends, and nothing known by then is farther away than that. No way to a slot is
shorter than the trail of its visit, so the trails are as long as the distances
(`distance_eq_length_trail`), and what is reachable from a node is listed by distance
(`pairwise_distance_reachable`).
-/

namespace GraphScript

namespace Adjacency

variable {adj : Adjacency} {v : Visit} {done queue : List Visit} {origin : ℕ}

/-- The visits that have ended and those to come, nearest first. -/
def Sorted (done queue : List Visit) : Prop :=
  (done ++ queue).Pairwise fun a b => a.trail.length ≤ b.trail.length

theorem Sorted.round (hqueued : adj.Queued done (v :: queue)) (h : Sorted done (v :: queue)) :
    Sorted (done ++ [v]) (queue ++ discover v (done ++ v :: queue) (adj.entries v.slot)) := by
  set found := discover v (done ++ v :: queue) (adj.entries v.slot)
  have hassoc : done ++ [v] ++ (queue ++ found) = done ++ v :: queue ++ found := by simp
  have hfound {d : Visit} (hd : d ∈ found) : d.trail.length = v.trail.length + 1 := by
    rw [(of_mem_discover hd).1, List.length_cons]
  -- What is found joins the end, one step beyond the visit that ends, and nothing known by now is
  -- farther away.
  rw [Sorted, hassoc, List.pairwise_append]
  refine ⟨h, ?_, fun a ha d hd => ?_⟩
  · exact List.pairwise_of_forall_mem_list fun a ha b hb => by rw [hfound ha, hfound hb]
  · rw [hfound hd]
    exact hqueued.near v List.mem_cons_self a ha

/-- The search visits slots in the order of their trails. -/
theorem search_sorted (hentries : ∀ v, ∀ entry ∈ adj.entries v, entry.slot < adj.size)
    (h : origin < adj.size) :
    (adj.search origin).Pairwise fun a b => a.trail.length ≤ b.trail.length := by
  have hsorted : Sorted (adj.search origin) [] :=
    explore_keeps hentries (fun _ _ _ => .round) (Nat.le_add_right _ _) (.start h)
      (List.pairwise_singleton _ _)
  rwa [Sorted, List.append_nil] at hsorted

end Adjacency

namespace Graph

open Adjacency

variable {g : Graph} {start id : String} {path : List String} {steps : List ℕ} {origin : ℕ}
  {v : Visit}

theorem Route.length_path (h : g.Route start id path steps) : path.length = steps.length + 1 := by
  induction h with
  | start _ => rfl
  | step _ _ _ _ ih => rw [List.length_append, List.length_append, ih]; rfl

/-- The least number of edges on a route between two nodes; zero if no route joins them. -/
noncomputable def distance (g : Graph) (a b : String) : ℕ :=
  sInf {n | ∃ path steps, g.Route a b path steps ∧ steps.length = n}

theorem distance_le (h : g.Route start id path steps) : g.distance start id ≤ steps.length :=
  Nat.sInf_le ⟨path, steps, h, rfl⟩

theorem exists_route_distance (h : g.Joined start id) :
    ∃ path steps, g.Route start id path steps ∧ steps.length = g.distance start id := by
  obtain ⟨path, steps, hroute⟩ := h
  exact Nat.sInf_mem (s := {n | ∃ path steps, g.Route start id path steps ∧ steps.length = n})
    ⟨_, path, steps, hroute, rfl⟩

theorem distance_eq_length_trail (horigin : g.slot? start = some origin)
    (hv : v ∈ (undirected g).search origin) (hid : g.slot? id = some v.slot) :
    g.distance start id = v.trail.length := by
  obtain ⟨steps, hroute⟩ := route_of_mem_search horigin hv hid
  have hlength := hroute.length_path
  rw [names, List.length_map, List.length_reverse, List.length_cons, Nat.succ_inj] at hlength
  apply le_antisymm
  · exact hlength ▸ distance_le hroute
  · -- A route of that length is a way to the slot, and none is shorter than the trail.
    obtain ⟨path', steps', hroute', hleast⟩ := exists_route_distance ⟨_, _, hroute⟩
    obtain ⟨cost, hwalk⟩ := hroute'.walk
    obtain ⟨slot, trail, hslot, hway, rfl⟩ := hwalk.way horigin
    obtain rfl := Option.some_inj.1 (hid.symm.trans hslot)
    have hlength' := hroute'.length_path
    rw [names, List.length_map, List.length_reverse, List.length_cons, Nat.succ_inj] at hlength'
    rw [← hleast, ← hlength']
    exact length_trail_le (slot?_lt horigin) hv hway

/-- What is reachable from a node is listed by distance. -/
theorem pairwise_distance_reachable (g : Graph) (start : String) :
    (g.reachable start).Pairwise fun a b => g.distance start a ≤ g.distance start b := by
  by_cases hstart : start ∈ g.ids
  · obtain ⟨origin, horigin⟩ := exists_slot? hstart
    have hsize : (undirected g).size = g.nodes.length := size_build
    have hsorted : ((undirected g).search origin).Pairwise fun a b =>
        a.trail.length ≤ b.trail.length :=
      search_sorted (fun _ _ => slot_lt_of_mem_entries) (hsize ▸ slot?_lt horigin)
    have hdistance {v : Visit} (hv : v ∈ (undirected g).search origin) :
        g.distance start ((undirected g).ids.getD v.slot "") = v.trail.length := by
      obtain ⟨id, hid⟩ := exists_slot?_of_mem_search horigin (List.mem_map_of_mem hv)
      rw [getD_ids_of_slot? hid]
      exact distance_eq_length_trail horigin hv hid
    -- The distances of the nodes are the lengths of the trails, visit by visit.
    rw [reachable_of_slot? horigin, names, List.pairwise_map, List.pairwise_map]
    refine hsorted.imp_of_mem fun {a b} ha hb hle => ?_
    rwa [hdistance ha, hdistance hb]
  · rw [reachable_of_not_mem hstart]
    exact .nil

end Graph

end GraphScript
