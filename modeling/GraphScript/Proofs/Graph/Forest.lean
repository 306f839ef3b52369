import GraphScript.Proofs.Graph.Descent

/-!
# Forests

The slots are kept in classes, and a link between two classes makes them one (`merge`). The classes
are those of connectivity, as far as the links go (`Represents`). A link takes one class away when
the links before it do not connect its ends, and else none, so links are a forest when the classes
and the links count up to the slots (`Represents.forest_iff_card`).

The components are counted by their leaders, of which there is one in each class. So the three
searches through a graph, for a cycle, from the first node and for the components, come down to
counting (`Graph.shape_by_counting`).
-/

namespace GraphScript

section

variable {links done : List Link} {l : Link} {classes : List ℕ} {n : ℕ}

/-! ### Classes -/

/-- The classes of the slots, with those of the ends of a link made one. -/
def merge (classes : List ℕ) (l : Link) : List ℕ :=
  classes.map fun c => if c = classes.getD l.target 0 then classes.getD l.source 0 else c

theorem length_merge (classes : List ℕ) (l : Link) : (merge classes l).length = classes.length :=
  List.length_map _

theorem getD_merge {slot : ℕ} (h : slot < classes.length) (l : Link) :
    (merge classes l).getD slot 0 = if classes.getD slot 0 = classes.getD l.target 0
      then classes.getD l.source 0 else classes.getD slot 0 := by
  simp [merge, h]

/-- Slots are in one class when the links connect them. -/
structure Represents (n : ℕ) (links : List Link) (classes : List ℕ) : Prop where
  length_eq : classes.length = n
  same_iff : ∀ a < n, ∀ b < n, classes.getD a 0 = classes.getD b 0 ↔ Connected links a b

theorem represents_range (n : ℕ) : Represents n [] (List.range n) where
  length_eq := List.length_range
  same_iff a ha b hb := by
    have hconnected : Connected [] a b ↔ a = b := by
      constructor
      · intro h
        induction h with
        | refl => rfl
        | tail _ hlinked _ =>
          obtain ⟨l, hl, -⟩ := hlinked
          exact absurd hl List.not_mem_nil
      · rintro rfl
        exact .refl _ _
    simp [ha, hb, hconnected]

theorem Represents.merge (h : Represents n links classes) (hl : l.source < n ∧ l.target < n) :
    Represents n (links ++ [l]) (merge classes l) where
  length_eq := (length_merge _ _).trans h.length_eq
  same_iff a ha b hb := by
    obtain ⟨rfl, hsame⟩ := h
    rw [connected_concat, getD_merge ha, getD_merge hb, ← hsame a ha b hb,
      ← hsame a ha _ hl.1, ← hsame _ hl.2 b hb, ← hsame a ha _ hl.2, ← hsame _ hl.1 b hb]
    split_ifs <;> omega

theorem Represents.mergeAll (h : Represents n done classes)
    (hlinks : ∀ l ∈ links, l.source < n ∧ l.target < n) :
    Represents n (done ++ links) (links.foldl GraphScript.merge classes) := by
  induction links generalizing done classes with
  | nil => rwa [List.append_nil]
  | cons l rest ih =>
    rw [List.forall_mem_cons] at hlinks
    rw [← List.singleton_append, ← List.append_assoc]
    exact ih (h.merge hlinks.1) hlinks.2

/-! ### Counting classes -/

/-- A link between two classes takes one away. -/
theorem card_merge (hl : l.source < classes.length ∧ l.target < classes.length)
    (hne : classes.getD l.source 0 ≠ classes.getD l.target 0) :
    (merge classes l).toFinset.card + 1 = classes.toFinset.card := by
  have hmem {slot : ℕ} (hslot : slot < classes.length) : classes.getD slot 0 ∈ classes := by
    simp [hslot]
  have herase : (merge classes l).toFinset = classes.toFinset.erase (classes.getD l.target 0) := by
    ext c
    simp only [merge, List.mem_toFinset, List.mem_map, Finset.mem_erase]
    constructor
    · rintro ⟨d, hd, rfl⟩
      split_ifs with hd'
      exacts [⟨hne, hmem hl.1⟩, ⟨hd', hd⟩]
    · rintro ⟨hc, hmem⟩
      exact ⟨c, hmem, if_neg hc⟩
  rw [herase, Finset.card_erase_add_one (List.mem_toFinset.2 (hmem hl.2))]

theorem merge_of_eq (heq : classes.getD l.source 0 = classes.getD l.target 0) :
    merge classes l = classes := by
  have hid : (fun c => if c = classes.getD l.target 0 then classes.getD l.source 0 else c) = id := by
    funext c
    rw [heq, id]
    split_ifs with h
    exacts [h.symm, rfl]
  rw [merge, hid, List.map_id]

/-- Each link takes one class away at most. -/
theorem card_le_foldl_merge
    (hlinks : ∀ l ∈ links, l.source < classes.length ∧ l.target < classes.length) :
    classes.toFinset.card ≤ links.length + (links.foldl merge classes).toFinset.card := by
  induction links generalizing classes with
  | nil => simp
  | cons l rest ih =>
    obtain ⟨hl, hrest⟩ := List.forall_mem_cons.1 hlinks
    rw [← length_merge classes l] at hrest
    have hle := ih hrest
    rw [List.length_cons, List.foldl_cons]
    by_cases hsame : classes.getD l.source 0 = classes.getD l.target 0
    · rw [merge_of_eq hsame] at hle ⊢
      omega
    · have hcard := card_merge hl hsame
      omega

/-- In a forest, each link takes one class away. -/
theorem Represents.forest_iff_card (h : Represents n done classes) (hdone : Forest done)
    (hlinks : ∀ l ∈ links, l.source < n ∧ l.target < n) :
    Forest (done ++ links) ↔
      links.length + (links.foldl GraphScript.merge classes).toFinset.card =
        classes.toFinset.card := by
  induction links generalizing done classes with
  | nil => simpa using hdone
  | cons l rest ih =>
    obtain ⟨hl, hrest⟩ := List.forall_mem_cons.1 hlinks
    have hsame_iff := h.same_iff _ hl.1 _ hl.2
    rw [List.length_cons, List.foldl_cons, ← List.singleton_append, ← List.append_assoc]
    by_cases hsame : classes.getD l.source 0 = classes.getD l.target 0
    · -- The classes stay as many as they were, and the rest cannot make up for this.
      have hle := card_le_foldl_merge (h.length_eq ▸ hrest)
      have hnot : ¬Forest (done ++ [l] ++ rest) := fun hforest =>
        hforest.of_append.of_concat (hsame_iff.1 hsame)
      rw [merge_of_eq hsame]
      exact iff_of_false hnot (by omega)
    · rw [ih (h.merge hl) (hdone.concat fun hl => hsame (hsame_iff.2 hl)) hrest]
      have hcard := card_merge (h.length_eq ▸ hl) hsame
      omega

end

/-! ### Graphs -/

namespace Graph

variable {g : Graph}

/-- The ends of all edges are nodes. -/
def NoMissingEnds (g : Graph) : Prop :=
  ∀ e ∈ g.edges, e.source ∈ g.ids ∧ e.target ∈ g.ids

instance (g : Graph) : Decidable g.NoMissingEnds :=
  inferInstanceAs (Decidable (∀ _ ∈ _, _))

theorem NoMissingEnds.exists_slots (h : g.NoMissingEnds) {e : Edge} (he : e ∈ g.edges) :
    ∃ source target, g.slot? e.source = some source ∧ g.slot? e.target = some target := by
  obtain ⟨source, hsource⟩ := exists_slot? (h e he).1
  obtain ⟨target, htarget⟩ := exists_slot? (h e he).2
  exact ⟨source, target, hsource, htarget⟩

theorem length_links (h : g.NoMissingEnds) : g.links.length = g.edges.length := by
  rw [links, List.filterMap_length_eq_length.2, List.length_zipIdx]
  rintro ⟨e, index⟩ hmem
  obtain ⟨source, target, hsource, htarget⟩ := h.exists_slots (List.fst_mem_of_mem_zipIdx hmem)
  simp [Link.of?, hsource, htarget]

/-- Where ids are distinct, each stands for its only slot. -/
theorem slot?_of_getElem? (hids : g.ids.Nodup) {id : String} {slot : ℕ}
    (h : g.ids[slot]? = some id) : g.slot? id = some slot := by
  obtain ⟨hlt, -⟩ := List.getElem?_eq_some_iff.1 h
  refine slot?_eq_some_iff.2 ⟨h, fun other hother => ?_⟩
  exact ((List.getElem?_inj hlt hids).1 (h.trans hother.symm)).ge

/-- The classes of the slots when all links are taken in. -/
def classes (g : Graph) : List ℕ :=
  g.links.foldl merge (List.range g.nodes.length)

theorem represents_classes (g : Graph) : Represents g.nodes.length g.links g.classes := by
  have h := (represents_range g.nodes.length).mergeAll fun l => links_lt (g := g)
  rwa [List.nil_append] at h

/-- There is one leader in each class. -/
theorem length_leaders (g : Graph) : g.leaders.length = g.classes.toFinset.card := by
  obtain ⟨hlength, hsame⟩ := g.represents_classes
  have hlt {leader : ℕ} (h : leader ∈ g.leaders) : leader < g.nodes.length := (mem_leaders.1 h).1
  have hnodup : (g.leaders.map (g.classes.getD · 0)).Nodup := by
    refine List.Nodup.map_on (fun a ha b hb hclass => ?_) (List.nodup_range.filter _)
    exact leader_unique ha hb ((hsame a (hlt ha) b (hlt hb)).1 hclass)
  have himage : (g.leaders.map (g.classes.getD · 0)).toFinset = g.classes.toFinset := by
    ext c
    simp only [List.mem_toFinset, List.mem_map]
    constructor
    · rintro ⟨leader, hleader, rfl⟩
      have hslot := hlt hleader
      simp [hlength, hslot]
    · intro hc
      obtain ⟨slot, hslot, rfl⟩ := List.getElem_of_mem hc
      have hslot' : slot < g.nodes.length := hlength ▸ hslot
      obtain ⟨leader, hleader, hconnected⟩ := exists_leader hslot'
      refine ⟨leader, hleader, ?_⟩
      rw [(hsame leader (hlt hleader) slot hslot').2 hconnected]
      simp [hslot]
  rw [← himage, List.toFinset_card_of_nodup hnodup, List.length_map]

theorem length_components (g : Graph) : g.components.length = g.leaders.length := by
  rw [components_eq_searches, List.length_map, searches_eq, List.length_map]

theorem card_range (n : ℕ) : (List.range n).toFinset.card = n := by
  rw [List.toFinset_card_of_nodup List.nodup_range, List.length_range]

/-- Each link takes one component away at most. -/
theorem length_nodes_le (g : Graph) : g.nodes.length ≤ g.links.length + g.components.length := by
  have hlinks : ∀ l ∈ g.links, l.source < (List.range g.nodes.length).length ∧
      l.target < (List.range g.nodes.length).length := by
    simpa using fun l => links_lt (g := g)
  have hle := card_le_foldl_merge hlinks
  rwa [card_range, ← classes, ← length_leaders, ← length_components] at hle

/-- A graph has no cycle when its links, counted with its components, are as many as its
    nodes. -/
theorem isAcyclic_iff_length :
    g.isAcyclic = true ↔ g.links.length + g.components.length = g.nodes.length := by
  have hnil : Forest [] := fun before l after heq => absurd heq (by simp)
  have hcount := (represents_range _).forest_iff_card hnil fun l => links_lt (g := g)
  rwa [card_range, List.nil_append, ← classes, ← length_leaders, ← length_components,
    ← isAcyclic_iff_forest] at hcount

/-- The first slot is a leader, and the only one if it is connected to all. -/
theorem length_leaders_le_one_iff (hpos : 0 < g.nodes.length) :
    g.leaders.length ≤ 1 ↔ ∀ slot < g.nodes.length, Connected g.links 0 slot := by
  have hfirst : 0 ∈ g.leaders := mem_leaders.2 ⟨hpos, fun _ hlt => absurd hlt (Nat.not_lt_zero _)⟩
  constructor
  · intro hle slot hslot
    obtain ⟨leader, hleader, hconnected⟩ := exists_leader hslot
    obtain ⟨only, honly⟩ := List.length_eq_one_iff.1 (hle.antisymm (List.length_pos_of_mem hfirst))
    rw [honly, List.mem_singleton] at hfirst hleader
    rwa [hfirst, ← hleader]
  · intro hall
    have hsubset : g.leaders ⊆ [0] := fun leader hleader => List.mem_singleton.2
      (leader_unique hfirst hleader (hall _ (mem_leaders.1 hleader).1)).symm
    exact (List.nodup_range.filter _).length_le_of_subset hsubset

/-- Everything is reached from the first slot when everything is connected to it. -/
theorem isConnected_iff_connected (hids : g.ids.Nodup) (hpos : 0 < g.nodes.length) :
    g.isConnected = true ↔ ∀ slot < g.nodes.length, Connected g.links 0 slot := by
  obtain ⟨first, rest, hnodes⟩ := List.exists_cons_of_length_pos hpos
  have hfirst : g.slot? first.id = some 0 := slot?_of_getElem? hids (by simp [ids, hnodes])
  set visited := ((Adjacency.undirected g).search 0).map (·.slot) with hvisited
  have hreachable : (g.reachable first.id).length = visited.length := by
    simp only [reachable_eq, hfirst, Option.map_some, Option.getD_some, Adjacency.names,
      List.length_map, hvisited]
  have hnodup : visited.Nodup := nodup_search hpos
  have hmem {slot : ℕ} : slot ∈ visited ↔ Connected g.links 0 slot := mem_search_iff hpos
  have hsubset : visited ⊆ List.range g.nodes.length := fun slot hslot =>
    List.mem_range.2 ((hmem.1 hslot).lt (fun l => links_lt) hpos)
  have hcheck : g.isConnected = true ↔ visited.length = g.nodes.length := by
    rw [isConnected, ← hreachable]
    split
    · rename_i hempty
      rw [hempty] at hpos
      exact absurd hpos (Nat.lt_irrefl 0)
    · rename_i first' _ hcons
      rw [hnodes, List.cons.injEq] at hcons
      rw [← hcons.1, beq_iff_eq]
  rw [hcheck]
  constructor
  · intro hlength slot hslot
    have hperm := (List.subperm_of_subset hnodup hsubset).perm_of_length_le
      (by rw [List.length_range, hlength])
    exact hmem.1 (hperm.mem_iff.2 (List.mem_range.2 hslot))
  · intro hall
    have hcover : List.range g.nodes.length ⊆ visited := fun slot hslot =>
      hmem.2 (hall slot (List.mem_range.1 hslot))
    have hle := hnodup.length_le_of_subset hsubset
    have hge := List.nodup_range.length_le_of_subset hcover
    rw [List.length_range] at hle hge
    exact hle.antisymm hge

theorem isConnected_iff_length (hids : g.ids.Nodup) :
    g.isConnected = true ↔ g.components.length ≤ 1 := by
  rw [length_components]
  rcases Nat.eq_zero_or_pos g.nodes.length with hzero | hpos
  · have hnodes : g.nodes = [] := List.length_eq_zero_iff.1 hzero
    simp [isConnected, leaders, hnodes]
  · rw [isConnected_iff_connected hids hpos, length_leaders_le_one_iff hpos]

theorem components_ne_nil (hne : g.nodes ≠ []) : 0 < g.components.length := by
  obtain ⟨leader, hleader, -⟩ := exists_leader (List.length_pos_iff.2 hne)
  rw [length_components]
  exact List.length_pos_of_mem hleader

/-- The shape of a graph by counting its nodes, edges and components, where ids are distinct and
    no edge has a missing end: without a cycle, the edges and components are as many as the
    nodes; connected, there is one component at most; and a tree has one component, and one edge
    less than nodes. -/
theorem shape_by_counting (hids : g.ids.Nodup) (hends : g.NoMissingEnds) :
    (g.isAcyclic = true ↔ g.edges.length + g.components.length = g.nodes.length) ∧
    (g.isConnected = true ↔ g.components.length ≤ 1) ∧
    (g.nodes ≠ [] → (g.isTree = true ↔
      g.components.length = 1 ∧ g.edges.length + 1 = g.nodes.length)) := by
  have hacyclic := g.isAcyclic_iff_length
  rw [length_links hends] at hacyclic
  have hconnected := isConnected_iff_length hids
  refine ⟨hacyclic, hconnected, fun hne => ?_⟩
  have hpos := components_ne_nil hne
  rw [isTree, Bool.and_eq_true, hconnected, hacyclic]
  omega

/-- A path of three nodes is a tree. With an edge back beside one of its edges and a node apart,
    it is neither acyclic nor connected. -/
theorem shape_by_counting_path :
    let path : Graph := { Graph.empty "main" with
      nodes := ["a", "b", "c"].map (Node.new · none)
      edges := [⟨"b", "a", 1.0⟩, ⟨"b", "c", 2.0⟩] }
    let more : Graph := { path with
      nodes := path.nodes ++ [Node.new "d" none]
      edges := path.edges ++ [⟨"c", "b", 3.0⟩] }
    (path.ids.Nodup ∧ path.NoMissingEnds ∧ path.isTree = true) ∧
      more.ids.Nodup ∧ more.NoMissingEnds ∧ ¬more.isAcyclic = true ∧ ¬more.isConnected = true := by
  intro path more
  have hids : path.ids.Nodup := by decide
  have hends : path.NoMissingEnds := by decide
  have hids' : more.ids.Nodup := by decide
  have hends' : more.NoMissingEnds := by decide
  obtain ⟨-, -, htree⟩ := shape_by_counting hids hends
  obtain ⟨hacyclic, hconnected, -⟩ := shape_by_counting hids' hends'
  rw [hacyclic, hconnected]
  exact ⟨⟨hids, hends, (htree (by decide)).2 (by decide)⟩, hids', hends', by decide, by decide⟩

end Graph

end GraphScript
