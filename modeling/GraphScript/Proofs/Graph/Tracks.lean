import GraphScript.Proofs.Graph.Connectivity

/-!
# Forests and tracks

Links are a *forest* when no link joins slots that the links before it connect (`Forest`). Links
that lead one after the other from slot to slot are a *track* (`Track`). Where links connect two
slots, some track between them takes no link twice: a track that comes by a link again is cut off at
its first use (`exists_track`). So a link between connected slots closes a track, and the other way
round, the last link of a closed track joins two slots that the other links of it connect. Hence
links are a forest when no closed track takes a link, and none twice (`forest_iff_tracks`), and the
order in which they are taken in does not matter (`Forest.of_subset`).
-/

namespace GraphScript

/-- The ends of the link are the two slots, in either order. -/
def Link.Joins (l : Link) (a b : ℕ) : Prop :=
  (l.source = a ∧ l.target = b) ∨ (l.source = b ∧ l.target = a)

/-- The links lead, one after the other, from the one slot to the other. -/
def Track : ℕ → ℕ → List Link → Prop
  | a, b, [] => a = b
  | a, b, l :: rest => ∃ c, l.Joins a c ∧ Track c b rest

variable {links track track' : List Link} {l : Link} {a b c d : ℕ}

/-! ### Forests -/

/-- No link joins slots that the links before it connect. -/
def Forest (links : List Link) : Prop :=
  ∀ before l after, links = before ++ l :: after → ¬Connected before l.source l.target

theorem Forest.of_append {more : List Link} (h : Forest (links ++ more)) : Forest links :=
  fun before l after heq => h before l (after ++ more) (by rw [heq, List.append_assoc]; rfl)

theorem Forest.of_concat (h : Forest (links ++ [l])) : ¬Connected links l.source l.target :=
  h links l [] rfl

/-- A link between two trees makes one of them. -/
theorem Forest.concat (h : Forest links) (hl : ¬Connected links l.source l.target) :
    Forest (links ++ [l]) := by
  intro before l' after heq
  rcases List.eq_nil_or_concat after with rfl | ⟨after, last, rfl⟩
  · obtain ⟨rfl, hlast⟩ := List.append_inj' heq rfl
    obtain rfl := List.singleton_inj.1 hlast
    exact hl
  · rw [List.concat_eq_append, ← List.cons_append, ← List.append_assoc] at heq
    exact h before l' after (List.append_inj' heq rfl).1

/-! ### Tracks -/

theorem Link.Joins.eq_or_eq (h : l.Joins a b) (h' : l.Joins c d) : a = c ∨ a = d := by
  obtain ⟨rfl, rfl⟩ | ⟨rfl, rfl⟩ := h <;> obtain ⟨rfl, rfl⟩ | ⟨rfl, rfl⟩ := h'
  exacts [.inl rfl, .inr rfl, .inr rfl, .inl rfl]

theorem Link.Joins.connected_iff (h : l.Joins a b) :
    Connected links a b ↔ Connected links l.source l.target := by
  obtain ⟨rfl, rfl⟩ | ⟨rfl, rfl⟩ := h
  exacts [.rfl, ⟨.symm, .symm⟩]

theorem track_append : Track a b (track ++ track') ↔ ∃ c, Track a c track ∧ Track c b track' := by
  induction track generalizing a with
  | nil => simp [Track]
  | cons l rest ih =>
    simp only [List.cons_append, Track, ih]
    constructor
    · rintro ⟨d, hl, c, hrest, htrack'⟩
      exact ⟨c, ⟨d, hl, hrest⟩, htrack'⟩
    · rintro ⟨c, ⟨d, hl, hrest⟩, htrack'⟩
      exact ⟨d, hl, c, hrest, htrack'⟩

theorem track_singleton : Track a b [l] ↔ l.Joins a b := by
  simp [Track]

theorem Track.concat (h : Track a b track) (hl : l.Joins b c) : Track a c (track ++ [l]) :=
  track_append.2 ⟨b, h, track_singleton.2 hl⟩

theorem Track.connected (h : Track a b track) (hsubset : track ⊆ links) : Connected links a b := by
  induction track generalizing a with
  | nil =>
    obtain rfl : a = b := h
    exact .refl _ _
  | cons l rest ih =>
    obtain ⟨c, hl, hrest⟩ := h
    obtain ⟨hmem, hsubset⟩ := List.cons_subset.1 hsubset
    exact (Connected.of_linked ⟨l, hmem, hl⟩).trans (ih hrest hsubset)

/-- Between connected slots there is a track that takes no link twice. -/
theorem exists_track (h : Connected links a b) :
    ∃ track, Track a b track ∧ track.Nodup ∧ track ⊆ links := by
  induction h with
  | refl => exact ⟨[], rfl, List.nodup_nil, List.nil_subset _⟩
  | @tail c d _ hlinked ih =>
    obtain ⟨track, htrack, hnodup, hsubset⟩ := ih
    obtain ⟨l, hl, hends⟩ := hlinked
    by_cases hmem : l ∈ track
    · -- The track took the link before, from one of its ends, and came to that end without it.
      obtain ⟨before, after, rfl⟩ := List.append_of_mem hmem
      obtain ⟨x, hbefore, y, hjoins, -⟩ := track_append.1 htrack
      have hfirst : before ++ [l] <+: before ++ l :: after := ⟨after, by simp⟩
      have hcut : before <+: before ++ l :: after := List.prefix_append _ _
      rcases hjoins.eq_or_eq hends with rfl | rfl
      · exact ⟨before ++ [l], hbefore.concat hends, hnodup.sublist hfirst.sublist,
          List.Subset.trans hfirst.subset hsubset⟩
      · exact ⟨before, hbefore, hnodup.sublist hcut.sublist,
          List.Subset.trans hcut.subset hsubset⟩
    · refine ⟨track ++ [l], htrack.concat hends, ?_, by simp [hsubset, hl]⟩
      exact List.concat_eq_append ▸ hnodup.concat hmem

/-! ### Closed tracks -/

/-- In a forest, a closed track that takes no link twice takes none. -/
theorem Forest.track_eq_nil (h : Forest links) (htrack : Track a a track) (hnodup : track.Nodup)
    (hsubset : track ⊆ links) : track = [] := by
  -- A forest is told by the links before each link, so the links are taken off at the end.
  induction links using List.reverseRecOn with
  | nil => exact List.subset_nil.1 hsubset
  | append_singleton links last ih =>
    -- Links of the track other than the last one are among those before it.
    have hbefore {part : List Link} (hpart : part ⊆ track) (hnot : last ∉ part) :
        part ⊆ links := by
      intro l hl
      rcases List.mem_append.1 (hsubset (hpart hl)) with hmem | hmem
      · exact hmem
      · exact absurd (List.mem_singleton.1 hmem ▸ hl) hnot
    by_cases hmem : last ∈ track
    · -- The rest of the track goes the other way round, from one end of the link to the other.
      obtain ⟨before, after, rfl⟩ := List.append_of_mem hmem
      obtain ⟨x, hfirst, y, hjoins, hrest⟩ := track_append.1 htrack
      obtain ⟨hnot, -⟩ := List.nodup_cons.1 (List.nodup_middle.1 hnodup)
      rw [List.mem_append, not_or] at hnot
      have hconnected : Connected links y x :=
        (hrest.connected (hbefore (by simp) hnot.2)).trans
          (hfirst.connected (hbefore (by simp) hnot.1))
      exact absurd (hjoins.connected_iff.1 hconnected.symm) h.of_concat
    · exact ih h.of_append (hbefore (List.Subset.refl _) hmem)

theorem forest_iff_tracks (hlinks : links.Nodup) : Forest links ↔
    ∀ a track, Track a a track → track.Nodup → track ⊆ links → track = [] := by
  refine ⟨fun h a track => h.track_eq_nil, fun h => ?_⟩
  induction links using List.reverseRecOn with
  | nil => exact fun before l after heq => absurd heq (by simp)
  | append_singleton links last ih =>
    rw [← List.concat_eq_append, List.nodup_concat] at hlinks
    have hold : links ⊆ links ++ [last] := List.subset_append_left _ _
    have hforest := ih hlinks.2 fun a track htrack hnodup hsubset =>
      h a track htrack hnodup (List.Subset.trans hsubset hold)
    refine hforest.concat fun hconnected => ?_
    -- The link leads back along a track between its ends.
    obtain ⟨track, htrack, hnodup, hsubset⟩ := exists_track hconnected
    have hback : last.Joins last.target last.source := .inr ⟨rfl, rfl⟩
    have hnodup' : (track ++ [last]).Nodup :=
      List.concat_eq_append ▸ hnodup.concat fun hmem => hlinks.1 (hsubset hmem)
    have hnil := h _ _ (htrack.concat hback) hnodup'
      (by simp [List.Subset.trans hsubset hold])
    exact absurd hnil (by simp)

/-- Some links of a forest are a forest, in whatever order. -/
theorem Forest.of_subset {links' : List Link} (h : Forest links) (hsubset : links' ⊆ links)
    (hnodup : links'.Nodup) : Forest links' :=
  (forest_iff_tracks hnodup).2 fun _ _ htrack htrack_nodup htrack_subset =>
    h.track_eq_nil htrack htrack_nodup (List.Subset.trans htrack_subset hsubset)

/-- A link outside of some links that connect its ends is no forest with them. -/
theorem not_forest_of_connected {tree : List Link} (htree : tree ⊆ links) (hl : l ∈ links)
    (hnot : l ∉ tree) (hjoins : l.Joins a b) (hconnected : Connected tree a b) : ¬Forest links := by
  intro h
  obtain ⟨track, htrack, hnodup, hsubset⟩ := exists_track hconnected.symm
  have hnodup' : (track ++ [l]).Nodup :=
    List.concat_eq_append ▸ hnodup.concat fun hmem => hnot (hsubset hmem)
  have hnil := h.track_eq_nil (htrack.concat hjoins) hnodup'
    (by simp [List.Subset.trans hsubset htree, hl])
  exact absurd hnil (by simp)

end GraphScript
