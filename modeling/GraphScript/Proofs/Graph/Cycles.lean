import GraphScript.Proofs.Graph.Forest
import GraphScript.Proofs.Graph.Route

/-!
# Cycles

A *cycle* is a route of one edge at least that ends where it starts and takes no edge twice
(`Graph.IsCycle`). The links of a route, one after the other, are a track, and those of a cycle a
closed one. So there is no cycle when the links are a forest (`Graph.forest_iff_no_cycle`), which is
what the check for cycles decides (`Graph.isAcyclic_iff_no_cycle`).
-/

namespace GraphScript

/-! ### Routes and tracks -/

namespace Graph

variable {g : Graph} {start target : String} {path : List String} {steps : List ℕ}
  {origin slot : ℕ}

/-- From the slot of a node, links lead on where edges do. -/
theorem exists_link_iff {a : String} {i : ℕ} {slot' : ℕ} (ha : g.slot? a = some slot) :
    (∃ l ∈ g.links, l.edge = i ∧ l.Joins slot slot') ↔
      ∃ e b, g.edges[i]? = some e ∧ e.Leads false a b ∧ g.slot? b = some slot' := by
  constructor
  · rintro ⟨l, hl, rfl, hjoins⟩
    obtain ⟨e, he, hsource, htarget⟩ := mem_links_iff.1 hl
    obtain ⟨rfl, rfl⟩ | ⟨rfl, rfl⟩ := hjoins
    · exact ⟨e, e.target, he, .inl ⟨slot?_inj hsource ha, rfl⟩, htarget⟩
    · exact ⟨e, e.source, he, .inr ⟨rfl, slot?_inj htarget ha, rfl⟩, hsource⟩
  · rintro ⟨e, b, he, ⟨rfl, rfl⟩ | ⟨-, rfl, rfl⟩, hb⟩
    · exact ⟨⟨slot, slot', i⟩, mem_links_iff.2 ⟨e, he, ha, hb⟩, rfl, .inl ⟨rfl, rfl⟩⟩
    · exact ⟨⟨slot', slot, i⟩, mem_links_iff.2 ⟨e, he, hb, ha⟩, rfl, .inr ⟨rfl, rfl⟩⟩

theorem Route.track (horigin : g.slot? start = some origin)
    (h : g.Route start target path steps) : ∃ slot track, g.slot? target = some slot ∧
      Track origin slot track ∧ track ⊆ g.links ∧ track.map (·.edge) = steps := by
  induction h with
  | start _ => exact ⟨origin, [], horigin, rfl, List.nil_subset _, rfl⟩
  | step _ he hleads hb ih =>
    obtain ⟨slot, track, hslot, htrack, hsubset, rfl⟩ := ih
    obtain ⟨slot', hslot'⟩ := exists_slot? hb
    obtain ⟨l, hl, rfl, hjoins⟩ := (exists_link_iff hslot).2 ⟨_, _, he, hleads, hslot'⟩
    exact ⟨slot', track ++ [l], hslot', htrack.concat hjoins, by simp [hsubset, hl], by simp⟩

theorem route_of_track (horigin : g.slot? start = some origin) {track : List Link}
    (h : Track origin slot track) (hsubset : track ⊆ g.links) :
    ∃ id path, g.slot? id = some slot ∧ g.Route start id path (track.map (·.edge)) := by
  -- Routes grow at their ends, and tracks at their starts.
  induction track using List.reverseRecOn generalizing slot with
  | nil =>
    obtain rfl : origin = slot := h
    exact ⟨start, _, horigin, .start (List.mem_of_getElem? (slot?_eq_some horigin))⟩
  | append_singleton track l ih =>
    obtain ⟨hsubset, hl⟩ := List.append_subset.1 hsubset
    obtain ⟨slot', htrack, hjoins⟩ := track_append.1 h
    obtain ⟨a, path, ha, hroute⟩ := ih htrack hsubset
    obtain ⟨e, b, he, hleads, hb⟩ := (exists_link_iff ha).1
      ⟨l, hl List.mem_cons_self, rfl, track_singleton.1 hjoins⟩
    refine ⟨b, path ++ [b], hb, ?_⟩
    rw [List.map_append, List.map_singleton]
    exact .step hroute he hleads (List.mem_of_getElem? (slot?_eq_some hb))

/-! ### The check for cycles -/

/-- The edges lead from the node back to it, and there is one at least and none twice. -/
structure IsCycle (g : Graph) (id : String) (steps : List ℕ) : Prop where
  route : ∃ path, g.Route id id path steps
  ne_nil : steps ≠ []
  nodup : steps.Nodup

theorem forest_iff_no_cycle : Forest g.links ↔ ∀ id steps, ¬g.IsCycle id steps := by
  rw [forest_iff_tracks g.nodup_edges_links.of_map]
  constructor
  · rintro h id _ ⟨⟨path, hroute⟩, hne, hnodup⟩
    obtain ⟨origin, horigin⟩ := exists_slot? hroute.mem_ids.1
    obtain ⟨slot, track, hslot, htrack, hsubset, rfl⟩ := hroute.track horigin
    obtain rfl := Option.some_inj.1 (horigin.symm.trans hslot)
    exact hne (List.map_eq_nil_iff.2 (h origin track htrack hnodup.of_map hsubset))
  · intro h a track htrack hnodup hsubset
    cases track with
    | nil => rfl
    | cons l rest =>
      -- The track starts at an end of its first link, which is the slot of a node.
      obtain ⟨id, hid⟩ : ∃ id, g.slot? id = some a := by
        obtain ⟨e, -, hsource, htarget⟩ := mem_links_iff.1 (hsubset List.mem_cons_self)
        obtain ⟨c, ⟨rfl, -⟩ | ⟨-, rfl⟩, -⟩ := htrack
        exacts [⟨_, hsource⟩, ⟨_, htarget⟩]
      obtain ⟨id', path, hid', hroute⟩ := route_of_track hid htrack hsubset
      obtain rfl := slot?_inj hid hid'
      have hedges := List.inj_on_of_nodup_map g.nodup_edges_links
      exact absurd ⟨⟨path, hroute⟩, by simp, hnodup.map_on fun l hl l' hl' =>
        hedges (hsubset hl) (hsubset hl')⟩ (h id _)

theorem isCycle_of_isLoop {i : ℕ} {e : Edge} (he : g.edges[i]? = some e) (hsource : e.source ∈ g.ids)
    (hloop : e.isLoop = true) : g.IsCycle e.source [i] where
  route := ⟨_, .step (.start hsource) he (.inl ⟨rfl, (beq_iff_eq.1 hloop).symm⟩) hsource⟩
  ne_nil := List.cons_ne_nil _ _
  nodup := List.nodup_singleton i

theorem isCycle_of_joins {i j : ℕ} {e f : Edge} (hne : i ≠ j) (he : g.edges[i]? = some e)
    (hf : g.edges[j]? = some f) (hsource : e.source ∈ g.ids) (htarget : e.target ∈ g.ids)
    (hjoins : e.joins f.source f.target = true) : g.IsCycle e.source [i, j] where
  route := by
    have hback : f.Leads false e.target e.source := by
      simp only [Edge.joins, Bool.or_eq_true, Bool.and_eq_true, beq_iff_eq] at hjoins
      obtain ⟨hsource, htarget⟩ | ⟨hsource, htarget⟩ := hjoins
      exacts [.inr ⟨rfl, htarget.symm, hsource.symm⟩, .inl ⟨htarget.symm, hsource.symm⟩]
    exact ⟨_, .step (.step (.start hsource) he (.inl ⟨rfl, rfl⟩) htarget) hf hback hsource⟩
  ne_nil := List.cons_ne_nil _ _
  nodup := by simpa using hne

/-- The check for cycles succeeds when there is none. Loops are cycles, and so are two edges between
    the same nodes, in the same direction or not; edges with a missing end are on no cycle. -/
theorem isAcyclic_iff_no_cycle (g : Graph) :
    (g.isAcyclic = true ↔ ∀ id steps, ¬g.IsCycle id steps) ∧
    (∀ i e, g.edges[i]? = some e → e.source ∈ g.ids → e.isLoop = true →
      g.IsCycle e.source [i]) ∧
    (∀ i j e f, i ≠ j → g.edges[i]? = some e → g.edges[j]? = some f → e.source ∈ g.ids →
      e.target ∈ g.ids → e.joins f.source f.target = true → g.IsCycle e.source [i, j]) :=
  ⟨isAcyclic_iff_forest.trans forest_iff_no_cycle, fun _ _ => isCycle_of_isLoop,
    fun _ _ _ _ => isCycle_of_joins⟩

/-- There is no cycle through the node `d`, which does not exist. An edge back beside the first one
    makes a cycle of the two. -/
theorem isAcyclic_iff_no_cycle_antiparallel :
    let path : Graph := { Graph.empty "main" with
      nodes := ["a", "b", "c"].map (Node.new · none)
      edges := [⟨"a", "b", 1.0⟩, ⟨"c", "b", 1.0⟩, ⟨"c", "d", 1.0⟩, ⟨"d", "a", 1.0⟩] }
    let more : Graph := { path with edges := path.edges ++ [⟨"b", "a", 2.0⟩] }
    (∀ id steps, ¬path.IsCycle id steps) ∧ more.IsCycle "a" [0, 4] ∧ ¬more.isAcyclic = true := by
  intro path more
  obtain ⟨hpath, -, -⟩ := isAcyclic_iff_no_cycle path
  obtain ⟨hmore, -, hparallel⟩ := isAcyclic_iff_no_cycle more
  have hcycle : more.IsCycle "a" [0, 4] :=
    hparallel 0 4 ⟨"a", "b", 1.0⟩ ⟨"b", "a", 2.0⟩ (by decide) rfl rfl (by decide) (by decide)
      (by decide)
  exact ⟨hpath.1 (by decide), hcycle, fun hacyclic => hmore.1 hacyclic _ _ hcycle⟩

end Graph

end GraphScript
