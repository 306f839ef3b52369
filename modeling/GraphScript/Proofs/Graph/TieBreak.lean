import GraphScript.Proofs.Graph.ShortestPath
import Mathlib.Data.List.Lex
import Mathlib.Data.Prod.Lex

/-!
# Ties between shortest paths

Of several shortest paths the search gives the one whose edges were inserted first, from the start
on: the least list of edge positions in the lexicographic order (`Graph.shortestPath_first`).

The search knows of no lists of edges. But each visit has one, along its trail and with the first
edge of several between two slots (`Adjacency.stepsTo`), and with shorter lists before longer ones
(`shortlex`) the queue is in their order (`Ranked.sorted`): what is found through an earlier visit
comes before what is found through a later one, and entries come in the order of their edges. What
the visits that have ended lead to is thus known by a list that is no greater than theirs with the
edge that leads on (`Ranked.closed`), and so along every route.
-/

namespace GraphScript

/-! ### Shorter lists first -/

section

variable {steps steps' : List ℕ} {i j : ℕ}

/-- A list of edge positions, to be compared by length and then lexicographically. -/
def shortlex (steps : List ℕ) : ℕ ×ₗ List ℕ :=
  toLex (steps.length, steps)

theorem shortlex_lt_iff : shortlex steps < shortlex steps' ↔
    steps.length < steps'.length ∨ steps.length = steps'.length ∧ steps < steps' :=
  Prod.Lex.toLex_lt_toLex

theorem shortlex_le_iff : shortlex steps ≤ shortlex steps' ↔
    steps.length < steps'.length ∨ steps.length = steps'.length ∧ steps ≤ steps' :=
  Prod.Lex.toLex_le_toLex

/-- Of two lists of one length, whatever follows the lesser one. -/
theorem concat_lt_concat (hlength : steps.length = steps'.length) (h : steps < steps') (i j : ℕ) :
    steps ++ [i] < steps' ++ [j] := by
  induction steps generalizing steps' with
  | nil =>
    obtain rfl := List.length_eq_zero_iff.1 hlength.symm
    exact absurd h (lt_irrefl _)
  | cons first rest ih =>
    cases steps' with
    | nil => exact absurd hlength (by simp)
    | cons first' rest' =>
      rw [List.cons_append, List.cons_append, List.cons_lt_cons_iff] at *
      rw [List.length_cons, List.length_cons, Nat.succ_inj] at hlength
      exact h.imp_right fun ⟨hfirst, hrest⟩ => ⟨hfirst, ih hlength hrest⟩

theorem shortlex_concat_lt (h : shortlex steps < shortlex steps') (i j : ℕ) :
    shortlex (steps ++ [i]) < shortlex (steps' ++ [j]) := by
  rw [shortlex_lt_iff] at h ⊢
  simp only [List.length_append, List.length_singleton, Nat.add_lt_add_iff_right,
    Nat.add_right_cancel_iff]
  exact h.imp_right fun ⟨hlength, hlt⟩ => ⟨hlength, concat_lt_concat hlength hlt i j⟩

theorem shortlex_concat_le (h : shortlex steps ≤ shortlex steps') (i : ℕ) :
    shortlex (steps ++ [i]) ≤ shortlex (steps' ++ [i]) := by
  rcases h.lt_or_eq with hlt | heq
  · exact (shortlex_concat_lt hlt i i).le
  · obtain rfl : steps = steps' := congrArg (fun s => (ofLex s).2) heq
    exact le_rfl

theorem shortlex_concat_lt_concat (steps : List ℕ) (h : i < j) :
    shortlex (steps ++ [i]) < shortlex (steps ++ [j]) := by
  refine shortlex_lt_iff.2 (.inr ⟨by simp, ?_⟩)
  exact List.Lex.append_left _ (List.Lex.rel h) steps

theorem shortlex_lt_concat (steps : List ℕ) (i : ℕ) : shortlex steps < shortlex (steps ++ [i]) :=
  shortlex_lt_iff.2 (.inl (by simp))

end

/-! ### The edges along a trail -/

namespace Adjacency

section

variable {entries : List Entry} {entry : Entry} {v : Visit} {known : List Visit} {slot : ℕ}

/-- The edge of the first entry for a slot. -/
def firstEdge (entries : List Entry) (slot : ℕ) : ℕ :=
  ((entries.find? (·.slot == slot)).map (·.edge)).getD 0

theorem firstEdge_cons_of_eq (h : entry.slot = slot) :
    firstEdge (entry :: entries) slot = entry.edge := by
  simp [firstEdge, h]

theorem firstEdge_cons_of_ne (h : entry.slot ≠ slot) :
    firstEdge (entry :: entries) slot = firstEdge entries slot := by
  simp [firstEdge, h]

theorem exists_firstEdge (h : entry ∈ entries) :
    ∃ first ∈ entries, first.slot = entry.slot ∧ first.edge = firstEdge entries entry.slot := by
  obtain ⟨first, hfirst⟩ : ∃ first, entries.find? (·.slot == entry.slot) = some first :=
    Option.isSome_iff_exists.1 (List.find?_isSome.2 ⟨entry, h, beq_self_eq_true _⟩)
  refine ⟨first, List.mem_of_find?_eq_some hfirst, by simpa using List.find?_some hfirst, ?_⟩
  rw [firstEdge, hfirst]
  rfl

section

variable (hordered : entries.Pairwise fun e e' => e.edge < e'.edge)

include hordered

theorem firstEdge_le (h : entry ∈ entries) : firstEdge entries entry.slot ≤ entry.edge := by
  induction entries with
  | nil => exact absurd h List.not_mem_nil
  | cons first rest ih =>
    obtain ⟨hfirst, hrest⟩ := List.pairwise_cons.1 hordered
    by_cases hslot : first.slot = entry.slot
    · rw [firstEdge_cons_of_eq hslot]
      rcases List.mem_cons.1 h with rfl | h
      exacts [le_rfl, (hfirst entry h).le]
    · rw [firstEdge_cons_of_ne hslot]
      rcases List.mem_cons.1 h with rfl | h
      exacts [absurd rfl hslot, ih hrest h]

/-- Slots are found in the order of their first edges. -/
theorem pairwise_firstEdge_discover : (discover v known entries).Pairwise fun d d' =>
    firstEdge entries d.slot < firstEdge entries d'.slot := by
  induction entries generalizing known with
  | nil => exact .nil
  | cons entry rest ih =>
    obtain ⟨hentry, hrest⟩ := List.pairwise_cons.1 hordered
    rw [discover]
    -- What is found through the rest is new, so the entry before does not lead there.
    have hskip {known' : List Visit} (hknown' : ∃ x ∈ known', x.slot = entry.slot) {d : Visit}
        (hd : d ∈ discover v known' rest) :
        firstEdge (entry :: rest) d.slot = firstEdge rest d.slot := by
      obtain ⟨x, hx, hslot⟩ := hknown'
      exact firstEdge_cons_of_ne fun heq => slot_ne_of_mem_discover hd hx (hslot.trans heq)
    split_ifs with hknown
    · refine (ih hrest).imp_of_mem fun hd hd' hlt => ?_
      rwa [hskip (any_slot_iff.1 hknown) hd, hskip (any_slot_iff.1 hknown) hd']
    · dsimp only
      have hnew : ∃ x ∈ (⟨entry.slot, v.slot :: v.trail⟩ : Visit) :: known, x.slot = entry.slot :=
        ⟨_, List.mem_cons_self, rfl⟩
      refine List.pairwise_cons.2 ⟨fun d hd => ?_, (ih hrest).imp_of_mem fun hd hd' hlt => ?_⟩
      · obtain ⟨-, other, hother, hslot⟩ := of_mem_discover hd
        obtain ⟨first, hfirst, -, hedge⟩ := exists_firstEdge hother
        rw [firstEdge_cons_of_eq rfl, hskip hnew hd, ← hslot, ← hedge]
        exact hentry first hfirst
      · rwa [hskip hnew hd, hskip hnew hd']

end

end

/-- The edges on the way to a slot along a trail, the first one of several between two slots. -/
def stepsTo (adj : Adjacency) : ℕ → List ℕ → List ℕ
  | _, [] => []
  | slot, last :: trail => adj.stepsTo last trail ++ [firstEdge (adj.entries last) slot]

/-- The edges of a visit, to be compared with those of others. -/
def rank (adj : Adjacency) (v : Visit) : ℕ ×ₗ List ℕ :=
  shortlex (adj.stepsTo v.slot v.trail)

variable {adj : Adjacency} {v : Visit} {done queue : List Visit} {origin : ℕ}

theorem stepsTo_of_mem_discover {known : List Visit} {entries : List Entry} {d : Visit}
    (h : d ∈ discover v known entries) : adj.stepsTo d.slot d.trail =
      adj.stepsTo v.slot v.trail ++ [firstEdge (adj.entries v.slot) d.slot] := by
  rw [(of_mem_discover h).1, stepsTo]

/-! ### The queue -/

/-- The queue is in the order of its edges, and what is known is reached by less edges than lead on
    from the queue. What the visits that have ended lead to is known by no more edges. -/
structure Ranked (adj : Adjacency) (done queue : List Visit) : Prop where
  sorted : queue.Pairwise fun a b => adj.rank a < adj.rank b
  near : ∀ a ∈ queue, ∀ b ∈ done ++ queue, ∀ i,
    adj.rank b < shortlex (adj.stepsTo a.slot a.trail ++ [i])
  closed : ∀ v ∈ done, ∀ entry ∈ adj.entries v.slot, ∃ w ∈ done ++ queue,
    w.slot = entry.slot ∧ adj.rank w ≤ shortlex (adj.stepsTo v.slot v.trail ++ [entry.edge])

theorem Ranked.start : adj.Ranked [] [⟨origin, []⟩] where
  sorted := List.pairwise_singleton _ _
  near a ha b hb i := by
    rw [List.mem_singleton.1 ha, List.mem_singleton.1 hb]
    exact shortlex_lt_concat _ _
  closed := List.forall_mem_nil _

theorem Ranked.round
    (hordered : ∀ slot, (adj.entries slot).Pairwise fun e e' => e.edge < e'.edge)
    (h : adj.Ranked done (v :: queue)) : adj.Ranked (done ++ [v])
      (queue ++ discover v (done ++ v :: queue) (adj.entries v.slot)) := by
  set found := discover v (done ++ v :: queue) (adj.entries v.slot) with hfound
  have hassoc : done ++ [v] ++ (queue ++ found) = done ++ v :: queue ++ found := by simp
  have hrank {d : Visit} (hd : d ∈ found) : adj.rank d =
      shortlex (adj.stepsTo v.slot v.trail ++ [firstEdge (adj.entries v.slot) d.slot]) :=
    congrArg shortlex (stepsTo_of_mem_discover hd)
  have hsorted := List.pairwise_cons.1 h.sorted
  have hlater {a : Visit} (ha : a ∈ queue ++ found) : adj.rank v < adj.rank a := by
    rcases List.mem_append.1 ha with ha | ha
    · exact hsorted.1 a ha
    · rw [hrank ha]
      exact shortlex_lt_concat _ _
  constructor
  case sorted =>
    refine List.pairwise_append.2 ⟨hsorted.2, ?_, fun a ha d hd => ?_⟩
    · refine (pairwise_firstEdge_discover (hordered v.slot)).imp_of_mem fun hd hd' hlt => ?_
      rw [hrank hd, hrank hd']
      exact shortlex_concat_lt_concat _ hlt
    · rw [hrank hd]
      exact h.near v List.mem_cons_self a (by simp [ha]) _
  case near =>
    -- All that is known by now comes before what leads on from a later visit than the one that ends.
    rw [hassoc]
    intro a ha b hb i
    have hnext (j : ℕ) : shortlex (adj.stepsTo v.slot v.trail ++ [j]) <
        shortlex (adj.stepsTo a.slot a.trail ++ [i]) := shortlex_concat_lt (hlater ha) j i
    rcases List.mem_append.1 hb with hb | hb
    · exact (h.near v List.mem_cons_self b hb 0).trans (hnext 0)
    · exact hrank hb ▸ hnext _
  case closed =>
    rw [hassoc]
    intro u hu entry hentry
    rcases List.mem_append.1 hu with hu | hu
    · obtain ⟨w, hw, hslot, hle⟩ := h.closed u hu entry hentry
      exact ⟨w, List.mem_append_left _ hw, hslot, hle⟩
    · obtain rfl := List.mem_singleton.1 hu
      obtain ⟨w, hw, hslot⟩ := exists_of_mem_entries hentry
      refine ⟨w, hw, hslot, ?_⟩
      rcases List.mem_append.1 hw with hw | hw
      · exact (h.near u List.mem_cons_self w hw _).le
      · rw [hrank hw, hslot]
        rcases (firstEdge_le (hordered u.slot) hentry).lt_or_eq with hlt | heq
        · exact (shortlex_concat_lt_concat _ hlt).le
        · rw [heq]

theorem search_ranked (hentries : ∀ v, ∀ entry ∈ adj.entries v, entry.slot < adj.size)
    (hordered : ∀ slot, (adj.entries slot).Pairwise fun e e' => e.edge < e'.edge)
    (h : origin < adj.size) : adj.Ranked (adj.search origin) [] :=
  explore_keeps hentries (fun _ _ _ _ hranked => hranked.round hordered) (Nat.le_add_right _ _)
    (.start h) .start

end Adjacency

/-! ### Routes -/

namespace Graph

open Adjacency

variable {g : Graph} {start target : String} {path : List String} {steps : List ℕ} {origin : ℕ}

theorem Route.start_or_step (h : g.Route start target path steps) :
    (steps = [] ∧ target = start ∧ path = [start]) ∨
      ∃ a path' steps' i e, g.Route start a path' steps' ∧ g.edges[i]? = some e ∧
        e.Leads false a target ∧ path = path' ++ [target] ∧ steps = steps' ++ [i] := by
  cases h with
  | start _ => exact .inl ⟨rfl, rfl, rfl⟩
  | step hroute he hleads _ => exact .inr ⟨_, _, _, _, _, hroute, he, hleads, rfl, rfl⟩

/-- The edges of a route tell its nodes. -/
theorem Route.eq_of_steps {target' : String} {path' : List String}
    (h : g.Route start target path steps) (h' : g.Route start target' path' steps) :
    target = target' ∧ path = path' := by
  induction h generalizing target' path' with
  | start _ =>
    obtain ⟨-, rfl, rfl⟩ | ⟨_, _, _, _, _, _, _, _, _, hnil⟩ := h'.start_or_step
    · exact ⟨rfl, rfl⟩
    · exact absurd hnil.symm (by simp)
  | @step a b path steps i e _ he hleads _ ih =>
    obtain ⟨hnil, -, -⟩ | ⟨a', path₂, steps₂, j, e', hroute', he', hleads', rfl, hsteps⟩ :=
      h'.start_or_step
    · exact absurd hnil (by simp)
    · obtain ⟨rfl, hlast⟩ := List.append_inj' hsteps rfl
      obtain rfl := List.singleton_inj.1 hlast
      obtain ⟨rfl, rfl⟩ := ih hroute'
      obtain rfl := Option.some_inj.1 (he.symm.trans he')
      obtain rfl : b = target' := by
        obtain ⟨hsource, htarget⟩ | ⟨-, htarget, hsource⟩ := hleads <;>
          obtain ⟨hsource', htarget'⟩ | ⟨-, htarget', hsource'⟩ := hleads' <;> simp_all
      exact ⟨rfl, rfl⟩

/-- A way is a route along the first edges. -/
theorem route_of_way {weight : ℕ → Float} {slot : ℕ} {trail : List ℕ} {cost : Float}
    (horigin : g.slot? start = some origin)
    (h : (undirected g).Way weight origin slot trail cost) : ∃ id, g.slot? id = some slot ∧
      g.Route start id ((undirected g).names (slot :: trail).reverse)
        ((undirected g).stepsTo slot trail) := by
  induction h with
  | start =>
    refine ⟨start, horigin, ?_⟩
    rw [List.reverse_singleton, ← List.nil_append [origin], undirected, names_append horigin]
    exact .start (List.mem_of_getElem? (slot?_eq_some horigin))
  | step _ hentry ih =>
    obtain ⟨a, ha, hroute⟩ := ih
    obtain ⟨first, hfirst, hslot, hedge⟩ := exists_firstEdge hentry
    obtain ⟨e, b, he, hleads, hb⟩ := (mem_entries_of_slot? ha).1 hfirst
    rw [hslot] at hb
    rw [hedge] at he
    refine ⟨b, hb, ?_⟩
    rw [List.reverse_cons, undirected, names_append hb]
    exact .step hroute he hleads (List.mem_of_getElem? (slot?_eq_some hb))

/-- The visit to the end of a route has no greater edges. -/
theorem exists_rank_le (horigin : g.slot? start = some origin)
    (h : g.Route start target path steps) : ∃ v ∈ (undirected g).search origin,
      g.slot? target = some v.slot ∧ (undirected g).rank v ≤ shortlex steps := by
  have hsize : origin < (undirected g).size := by
    rw [undirected, size_build]
    exact slot?_lt horigin
  have hranked : (undirected g).Ranked ((undirected g).search origin) [] :=
    search_ranked (fun _ _ => slot_lt_of_mem_entries) pairwise_edge_entries hsize
  induction h with
  | start _ =>
    obtain ⟨rest, hsearch⟩ := exists_search_eq_cons hsize
    exact ⟨⟨origin, []⟩, hsearch ▸ List.mem_cons_self, horigin, le_rfl⟩
  | @step a b path steps i e _ he hleads hb ih =>
    obtain ⟨v, hv, hslot, hle⟩ := ih
    obtain ⟨slot, hb⟩ := exists_slot? hb
    have hentry : ⟨slot, i⟩ ∈ (undirected g).entries v.slot :=
      (mem_entries_of_slot? hslot).2 ⟨e, b, he, hleads, hb⟩
    obtain ⟨w, hw, hslot', hle'⟩ := hranked.closed v hv _ hentry
    rw [List.append_nil] at hw
    exact ⟨w, hw, hslot' ▸ hb, hle'.trans (shortlex_concat_le hle i)⟩

/-- Where nodes are joined, a route is found that has the fewest edges, and of those with as many
    edges the one whose edges were inserted first, from the start on. Its edges tell its nodes. -/
theorem shortestPath_first (h : ∃ path steps, g.Route start target path steps) :
    ∃ path steps, g.shortestPath? start target = some path ∧ g.Route start target path steps ∧
      ∀ path' steps', g.Route start target path' steps' → steps.length ≤ steps'.length ∧
        (steps'.length = steps.length → steps ≤ steps') ∧ (steps' = steps → path' = path) := by
  obtain ⟨path, hpath⟩ := exists_shortestPath? h
  obtain ⟨origin, goal, v, horigin, hgoal, hfind, rfl⟩ := shortestPath?_eq_some_iff.1 hpath
  have hv := List.mem_of_find?_eq_some hfind
  obtain rfl : v.slot = goal := by simpa using List.find?_some hfind
  obtain ⟨cost, hway⟩ := (g.search_explores g.weightAt (slot?_lt horigin)).ways v
    (List.mem_append_left _ hv)
  obtain ⟨id, hid, hroute⟩ := route_of_way horigin hway
  obtain rfl := slot?_inj hid hgoal
  refine ⟨_, _, hpath, hroute, fun path' steps' hroute' => ?_⟩
  obtain ⟨w, hw, hslot, hle⟩ := exists_rank_le horigin hroute'
  obtain rfl := List.inj_on_of_nodup_map (nodup_search (slot?_lt horigin)) hw hv
    (Option.some_inj.1 (hslot.symm.trans hgoal))
  refine ⟨?_, fun hlength => ?_, ?_⟩
  · rcases shortlex_le_iff.1 hle with hlt | ⟨heq, -⟩
    exacts [hlt.le, heq.le]
  · rcases shortlex_le_iff.1 hle with hlt | ⟨-, hle⟩
    exacts [absurd hlength hlt.ne', hle]
  · rintro rfl
    exact (hroute'.eq_of_steps hroute).2

/-- Two ways round with two edges each: that by way of `c` has the edge inserted first of all, but
    not at the start. -/
theorem shortestPath_first_square :
    let square : Graph := { Graph.empty "main" with
      nodes := ["d", "c", "b", "a"].map (Node.new · none)
      edges := [⟨"c", "d", 1.0⟩, ⟨"a", "b", 1.0⟩, ⟨"d", "b", 1.0⟩, ⟨"a", "c", 1.0⟩, ⟨"b", "a", 1.0⟩] }
    square.Route "a" "d" ["a", "c", "d"] [3, 0] ∧
      square.shortestPath? "a" "d" = some ["a", "b", "d"] ∧
      ∃ steps, square.Route "a" "d" ["a", "b", "d"] steps ∧ steps.length ≤ 2 ∧
        (steps.length = 2 → steps ≤ [3, 0] ∧ steps ≤ [1, 2] ∧ steps ≤ [4, 2]) := by
  intro square
  have hlater : square.Route "a" "d" ["a", "c", "d"] [3, 0] :=
    .step (.step (.start (by decide)) (e := ⟨"a", "c", 1.0⟩) rfl (.inl ⟨rfl, rfl⟩) (by decide))
      (e := ⟨"c", "d", 1.0⟩) rfl (.inl ⟨rfl, rfl⟩) (by decide)
  have hfirst : square.Route "a" "d" ["a", "b", "d"] [1, 2] :=
    .step (.step (.start (by decide)) (e := ⟨"a", "b", 1.0⟩) rfl (.inl ⟨rfl, rfl⟩) (by decide))
      (e := ⟨"d", "b", 1.0⟩) rfl (.inr ⟨rfl, rfl, rfl⟩) (by decide)
  have hback : square.Route "a" "d" ["a", "b", "d"] [4, 2] :=
    .step (.step (.start (by decide)) (e := ⟨"b", "a", 1.0⟩) rfl (.inr ⟨rfl, rfl, rfl⟩) (by decide))
      (e := ⟨"d", "b", 1.0⟩) rfl (.inr ⟨rfl, rfl, rfl⟩) (by decide)
  have hpath : square.shortestPath? "a" "d" = some ["a", "b", "d"] := by decide +kernel
  obtain ⟨path, steps, hfound, hroute, hleast⟩ := shortestPath_first ⟨_, _, hlater⟩
  obtain rfl := Option.some_inj.1 (hpath.symm.trans hfound)
  refine ⟨hlater, hpath, steps, hroute, (hleast _ _ hlater).1, fun hlength => ?_⟩
  exact ⟨(hleast _ _ hlater).2.1 hlength.symm, (hleast _ _ hfirst).2.1 hlength.symm,
    (hleast _ _ hback).2.1 hlength.symm⟩

end Graph

end GraphScript
