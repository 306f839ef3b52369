import GraphScript.Proofs.Graph.Forest
import Mathlib.Data.Sym.Card

/-!
# Simple and complete graphs

The ends of an edge, in no order, are a *pair* (`Edge.pair`). A graph is simple when no pair is
of one node twice and no pair is repeated (`isSimple_iff`). A simple graph has a place for each
pair of distinct nodes, and where the edges are as many as the places, all are taken
(`isComplete_iff_places`): every two nodes are joined (`mem_pairs_of_isComplete`,
`linked_of_isComplete`), and each node is at one edge for every other node
(`degree_of_isComplete`). So the check by counting is whether every two nodes have their one edge
and there are no loops (`isComplete_iff_one_edge`).

Forests are simple (`isSimple_of_isAcyclic`), since a link between slots that are the same, or
that an earlier link joins, is between connected slots.
-/

namespace GraphScript

/-- The ends of a link, in no order. -/
def Link.pair (l : Link) : Sym2 ℕ := s(l.source, l.target)

/-- The ends of an edge, in no order. -/
def Edge.pair (e : Edge) : Sym2 String := s(e.source, e.target)

theorem linked_iff_mem_pairs {links : List Link} {a b : ℕ} :
    Linked links a b ↔ s(a, b) ∈ links.map Link.pair := by
  simp only [Linked, List.mem_map, Link.pair, Sym2.eq_iff]

theorem Forest.nodup_pairs {links : List Link} (h : Forest links) :
    (links.map Link.pair).Nodup := by
  induction links using List.reverseRecOn with
  | nil => exact List.nodup_nil
  | append_singleton links l ih =>
    have hnew : l.pair ∉ links.map Link.pair := fun hmem =>
      h.of_concat (.of_linked (linked_iff_mem_pairs.2 hmem))
    rw [List.map_append, List.map_singleton, ← List.concat_eq_append]
    exact (ih h.of_append).concat hnew

theorem Forest.source_ne_target {links : List Link} (h : Forest links) {l : Link}
    (hl : l ∈ links) : l.source ≠ l.target := by
  intro heq
  obtain ⟨before, after, rfl⟩ := List.append_of_mem hl
  have hnot := h before l after rfl
  rw [heq] at hnot
  exact hnot (.refl _ _)

namespace Edge

variable {e f : Edge}

theorem joins_iff {a b : String} : e.joins a b = true ↔ e.pair = s(a, b) := by
  simp [joins, pair]

/-- The ends of an edge are ordered in the same way in both directions. -/
theorem key_eq_iff : e.key = f.key ↔ e.pair = f.pair := by
  have hkey (e : Edge) : s(e.key.1, e.key.2) = e.pair := by
    rw [key]
    split_ifs
    exacts [rfl, Sym2.eq_swap]
  constructor
  · intro heq
    rw [← hkey e, heq, hkey f]
  · intro heq
    rcases Sym2.eq_iff.1 heq with ⟨hsource, htarget⟩ | ⟨hsource, htarget⟩
    · rw [key, key, hsource, htarget]
    · rw [key, key, hsource, htarget]
      split_ifs with hle hle'
      · rw [String.le_antisymm hle hle']
      · rfl
      · rfl
      · exact absurd ((String.le_total _ _).resolve_left hle) ‹_›

theorem isLoop_iff : e.isLoop = true ↔ e.pair.IsDiag := by
  simp [isLoop, pair]

theorem touches_iff {id : String} : e.touches id = true ↔ id ∈ e.pair := by
  rw [touches, pair, Bool.or_eq_true, beq_iff_eq, beq_iff_eq, Sym2.mem_iff, eq_comm (a := id),
    eq_comm (a := id)]

end Edge

namespace Graph

variable {g : Graph}

/-- The pairs that the edges join. -/
def pairs (g : Graph) : List (Sym2 String) :=
  g.edges.map Edge.pair

/-- The check for simple graphs goes through the edges and keeps the keys that it has seen. -/
theorem simpleFrom_iff {seen : List (String × String)} {edges : List Edge} :
    simpleFrom seen edges = true ↔ (∀ e ∈ edges, ¬e.pair.IsDiag) ∧ (∀ e ∈ edges, e.key ∉ seen) ∧
      (edges.map Edge.key).Nodup := by
  induction edges generalizing seen with
  | nil => simp [simpleFrom]
  | cons e rest ih =>
    rw [simpleFrom]
    split_ifs with hloop hseen
    · refine iff_of_false not_false fun h => ?_
      exact h.1 e List.mem_cons_self (Edge.isLoop_iff.1 hloop)
    · refine iff_of_false not_false fun h => ?_
      exact h.2.1 e List.mem_cons_self (List.contains_iff_mem.1 hseen)
    · -- What the rest must not repeat is the key of this edge or one that was seen before.
      have hnot : e.key ∉ seen := fun hmem => hseen (List.contains_iff_mem.2 hmem)
      rw [ih, List.forall_mem_cons, List.forall_mem_cons, List.map_cons, List.nodup_cons,
        List.mem_map]
      constructor
      · rintro ⟨hloops, hkeys, hnodup⟩
        refine ⟨⟨fun hdiag => hloop (Edge.isLoop_iff.2 hdiag), hloops⟩, ⟨hnot, fun f hf hmem => ?_⟩,
          ?_, hnodup⟩
        · exact hkeys f hf (List.mem_cons_of_mem _ hmem)
        · rintro ⟨f, hf, heq⟩
          exact hkeys f hf (heq ▸ List.mem_cons_self)
      · rintro ⟨⟨-, hloops⟩, ⟨-, hkeys⟩, hnew, hnodup⟩
        refine ⟨hloops, fun f hf hmem => ?_, hnodup⟩
        rcases List.mem_cons.1 hmem with heq | hmem
        · exact hnew ⟨f, hf, heq⟩
        · exact hkeys f hf hmem

theorem isSimple_iff :
    g.isSimple = true ↔ (∀ z ∈ g.pairs, ¬z.IsDiag) ∧ g.pairs.Nodup := by
  have hkeys : (g.edges.map Edge.key).Nodup ↔ g.pairs.Nodup := by
    rw [pairs, List.Nodup, List.Nodup, List.pairwise_map, List.pairwise_map]
    simp only [ne_eq, Edge.key_eq_iff]
  rw [isSimple, simpleFrom_iff, hkeys, pairs, List.forall_mem_map]
  simp

/-- The slots of the pairs of edges are the pairs of links, in the same order. -/
theorem map_slot?_pairs (hends : g.NoMissingEnds) :
    g.pairs.map (Sym2.map g.slot?) = (g.links.map Link.pair).map (Sym2.map some) := by
  have hedges : g.pairs = g.edges.zipIdx.map fun x => x.1.pair := by
    conv_lhs => rw [pairs, ← List.zipIdx_map_fst 0 g.edges, List.map_map]
    rfl
  rw [hedges, links, List.map_map, List.map_filterMap, List.map_filterMap, ← List.filterMap_eq_map]
  refine List.filterMap_congr fun x hx => ?_
  obtain ⟨source, target, hsource, htarget⟩ := hends.exists_slots (List.fst_mem_of_mem_zipIdx hx)
  simp [Link.of?, hsource, htarget, Edge.pair, Link.pair]

/-- A graph without a cycle has no loops and no two edges between the same nodes. -/
theorem isSimple_of_isAcyclic (hends : g.NoMissingEnds) (h : g.isAcyclic = true) :
    g.isSimple = true := by
  have hforest := isAcyclic_iff_forest.1 h
  have hslots := map_slot?_pairs hends
  refine isSimple_iff.2 ⟨fun z hz hdiag => ?_, ?_⟩
  · -- The two ids of a loop stand for one slot, so its link is a loop too.
    have hmem : z.map g.slot? ∈ (g.links.map Link.pair).map (Sym2.map some) :=
      hslots ▸ List.mem_map_of_mem hz
    rw [List.map_map] at hmem
    obtain ⟨l, hl, heq⟩ := List.mem_map.1 hmem
    have hdiag' : (z.map g.slot?).IsDiag := hdiag.map
    rw [← heq, Function.comp_apply, Link.pair, Sym2.map_mk, Sym2.mk_isDiag_iff,
      Option.some_inj] at hdiag'
    exact hforest.source_ne_target hl hdiag'
  · -- A repeated pair of nodes would be a repeated pair of slots.
    have hnodup := hforest.nodup_pairs.map (Sym2.map.injective (Option.some_injective ℕ))
    rw [← hslots] at hnodup
    exact hnodup.of_map

/-! ### Complete graphs -/

variable {a b id : String}

theorem mem_ids_of_mem_pairs (hends : g.NoMissingEnds) (h : s(a, b) ∈ g.pairs) :
    a ∈ g.ids ∧ b ∈ g.ids := by
  obtain ⟨e, he, hpair⟩ := List.mem_map.1 h
  obtain ⟨rfl, rfl⟩ | ⟨rfl, rfl⟩ := Sym2.eq_iff.1 hpair
  exacts [hends e he, (hends e he).symm]

/-- The pairs of distinct nodes. -/
def places (g : Graph) : Finset (Sym2 String) :=
  g.ids.toFinset.offDiag.image Sym2.mk.uncurry

theorem mem_places_iff : s(a, b) ∈ g.places ↔ a ∈ g.ids ∧ b ∈ g.ids ∧ a ≠ b := by
  simp only [places, Finset.mem_image, Finset.mem_offDiag, List.mem_toFinset, Prod.exists,
    Function.uncurry_apply_pair, Sym2.eq_iff]
  constructor
  · rintro ⟨x, y, ⟨hx, hy, hne⟩, ⟨rfl, rfl⟩ | ⟨rfl, rfl⟩⟩
    exacts [⟨hx, hy, hne⟩, ⟨hy, hx, hne.symm⟩]
  · exact fun h => ⟨a, b, h, .inl ⟨rfl, rfl⟩⟩

theorem card_places (hids : g.ids.Nodup) :
    g.places.card = g.nodes.length * (g.nodes.length - 1) / 2 := by
  rw [places, Sym2.card_image_offDiag, List.toFinset_card_of_nodup hids, Nat.choose_two_right, ids,
    List.length_map]

theorem pairs_subset_places (hends : g.NoMissingEnds) (hloops : ∀ z ∈ g.pairs, ¬z.IsDiag) :
    g.pairs.toFinset ⊆ g.places := by
  intro z hz
  rw [List.mem_toFinset] at hz
  induction z using Sym2.ind with
  | _ x y =>
    obtain ⟨hx, hy⟩ := mem_ids_of_mem_pairs hends hz
    exact mem_places_iff.2 ⟨hx, hy, hloops _ hz⟩

theorem degree_eq_length (g : Graph) (id : String) :
    g.degree id = (g.pairs.filter (id ∈ ·)).length := by
  rw [degree, ← List.countP_eq_length_filter, pairs, List.countP_map]
  refine List.countP_congr fun e _ => ?_
  rw [Edge.touches_iff, Function.comp_apply, decide_eq_true_iff]

theorem count_pairs (g : Graph) (a b : String) :
    g.pairs.count s(a, b) = g.edges.countP (·.joins a b) := by
  rw [List.count, pairs, List.countP_map]
  refine List.countP_congr fun e _ => ?_
  rw [Edge.joins_iff, Function.comp_apply, beq_iff_eq]

theorem no_loops_iff :
    (∀ z ∈ g.pairs, ¬z.IsDiag) ↔ ∀ e ∈ g.edges, e.isLoop = false := by
  simp only [pairs, List.forall_mem_map, ← Edge.isLoop_iff, Bool.not_eq_true]

section

variable {word : ℕ} (hids : g.ids.Nodup) (hends : g.NoMissingEnds)
  (hword : g.nodes.length * (g.nodes.length - 1) < word)

include hids hends hword

/-- A simple graph takes one of the places for each edge, and in a complete one there are as many
    edges as places. This is so as long as twice their number fits into a word. -/
theorem isComplete_iff_places : g.isComplete word = true ↔
    (∀ z ∈ g.pairs, ¬z.IsDiag) ∧ g.pairs.Nodup ∧ g.pairs.toFinset = g.places := by
  rw [isComplete, Bool.and_eq_true, beq_iff_eq, isSimple_iff, and_assoc, Nat.mod_eq_of_lt hword,
    ← card_places hids]
  refine and_congr_right fun hloops => and_congr_right fun hnodup => ?_
  -- The pairs are distinct, so they are as many as the edges, and all of them are places.
  have hcard : g.pairs.toFinset.card = g.edges.length := by
    rw [List.toFinset_card_of_nodup hnodup, pairs, List.length_map]
  constructor
  · intro hcount
    exact Finset.eq_of_subset_of_card_le (pairs_subset_places hends hloops)
      (hcard.trans hcount).ge
  · intro hplaces
    rw [← hplaces, hcard]

/-- In a complete graph every two nodes are joined. -/
theorem mem_pairs_of_isComplete (h : g.isComplete word = true) (ha : a ∈ g.ids) (hb : b ∈ g.ids)
    (hne : a ≠ b) : s(a, b) ∈ g.pairs := by
  obtain ⟨-, -, hplaces⟩ := (isComplete_iff_places hids hends hword).1 h
  rw [← List.mem_toFinset, hplaces]
  exact mem_places_iff.2 ⟨ha, hb, hne⟩

/-- In a complete graph every two slots are linked. -/
theorem linked_of_isComplete (h : g.isComplete word = true) {slot slot' : ℕ}
    (hslot : slot < g.nodes.length) (hslot' : slot' < g.nodes.length) (hne : slot ≠ slot') :
    Linked g.links slot slot' := by
  have hlength : g.ids.length = g.nodes.length := List.length_map _
  obtain ⟨a, ha⟩ : ∃ a, g.ids[slot]? = some a := ⟨_, List.getElem?_eq_getElem (hlength ▸ hslot)⟩
  obtain ⟨b, hb⟩ : ∃ b, g.ids[slot']? = some b := ⟨_, List.getElem?_eq_getElem (hlength ▸ hslot')⟩
  have hslota := slot?_of_getElem? hids ha
  have hslotb := slot?_of_getElem? hids hb
  have hab : a ≠ b := by
    rintro rfl
    exact hne (Option.some_inj.1 (hslota.symm.trans hslotb))
  have hpair := List.mem_map_of_mem (f := Sym2.map g.slot?) (mem_pairs_of_isComplete hids hends
    hword h (List.mem_of_getElem? ha) (List.mem_of_getElem? hb) hab)
  rw [map_slot?_pairs hends, Sym2.map_mk, hslota, hslotb, ← Sym2.map_mk,
    List.mem_map_of_injective (Sym2.map.injective (Option.some_injective ℕ))] at hpair
  exact linked_iff_mem_pairs.2 hpair

/-- In a complete graph each node is at one edge for every other node. -/
theorem degree_of_isComplete (h : g.isComplete word = true) (hid : id ∈ g.ids) :
    g.degree id = g.nodes.length - 1 := by
  obtain ⟨hloops, hnodup, -⟩ := (isComplete_iff_places hids hends hword).1 h
  have hperm : (g.pairs.filter (id ∈ ·)).Perm ((g.ids.erase id).map (s(id, ·))) := by
    refine (List.perm_ext_iff_of_nodup (hnodup.filter _)
      ((hids.erase id).map fun _ _ => Sym2.congr_right.1)).2 fun z => ?_
    rw [List.mem_filter, decide_eq_true_iff, List.mem_map]
    constructor
    · rintro ⟨hz, other, rfl⟩
      have hne : id ≠ other := hloops _ hz
      exact ⟨other, hids.mem_erase_iff.2 ⟨hne.symm, (mem_ids_of_mem_pairs hends hz).2⟩, rfl⟩
    · rintro ⟨other, hother, rfl⟩
      obtain ⟨hne, hother⟩ := hids.mem_erase_iff.1 hother
      exact ⟨mem_pairs_of_isComplete hids hends hword h hid hother hne.symm, Sym2.mem_mk_left _ _⟩
  rw [degree_eq_length, hperm.length_eq, List.length_map, List.length_erase_of_mem hid, ids,
    List.length_map]

end

/-- Where ids are distinct and no edge has a missing end, a graph is complete when it has no loops
    and one edge between every two nodes, counting both directions. The check counts twice the
    pairs in a word, into which they have to fit. -/
theorem isComplete_iff_one_edge (hids : g.ids.Nodup) (hends : g.NoMissingEnds) {word : ℕ}
    (hword : g.nodes.length * (g.nodes.length - 1) < word) :
    g.isComplete word = true ↔ (∀ e ∈ g.edges, e.isLoop = false) ∧
      ∀ a ∈ g.ids, ∀ b ∈ g.ids, a ≠ b → g.edges.countP (·.joins a b) = 1 := by
  rw [isComplete_iff_places hids hends hword, ← no_loops_iff]
  refine and_congr_right fun hloops => ?_
  simp only [← count_pairs]
  constructor
  · rintro ⟨hnodup, hplaces⟩ a ha b hb hne
    refine List.count_eq_one_of_mem hnodup (List.mem_toFinset.1 ?_)
    rw [hplaces]
    exact mem_places_iff.2 ⟨ha, hb, hne⟩
  · -- The pairs of edges are places, and each place is taken once.
    intro hone
    have hcount {z : Sym2 String} (hz : z ∈ g.places) : g.pairs.count z = 1 := by
      induction z using Sym2.ind with
      | _ x y =>
        obtain ⟨hx, hy, hne⟩ := mem_places_iff.1 hz
        exact hone x hx y hy hne
    have hsubset := pairs_subset_places hends hloops
    refine ⟨List.nodup_iff_count_eq_one.2 fun z hz => ?_, hsubset.antisymm fun z hz => ?_⟩
    · exact hcount (hsubset (List.mem_toFinset.2 hz))
    · exact List.mem_toFinset.2 (List.count_pos_iff.1 (hcount hz ▸ Nat.one_pos))

/-- The triangle has one edge for each pair, in whatever direction. With the edge back in the place
    of another edge there are as many edges as pairs still, and one pair has two. -/
theorem isComplete_iff_one_edge_triangle :
    let triangle : Graph := { Graph.empty "main" with
      nodes := ["a", "b", "c"].map (Node.new · none)
      edges := [⟨"b", "a", 1.0⟩, ⟨"b", "c", 2.0⟩, ⟨"a", "c", 3.0⟩]
      directed := true }
    let twice : Graph := { triangle with
      edges := [⟨"b", "a", 1.0⟩, ⟨"b", "c", 2.0⟩, ⟨"a", "b", 3.0⟩] }
    (triangle.ids.Nodup ∧ triangle.NoMissingEnds ∧ triangle.isComplete = true) ∧
      twice.ids.Nodup ∧ twice.NoMissingEnds ∧ twice.edges.countP (·.joins "a" "b") = 2 ∧
      ¬twice.isComplete = true := by
  intro triangle twice
  have hids : triangle.ids.Nodup := by decide
  have hends : triangle.NoMissingEnds := by decide
  have hids' : twice.ids.Nodup := by decide
  have hends' : twice.NoMissingEnds := by decide
  have htwice : twice.edges.countP (·.joins "a" "b") = 2 := by decide
  have hword : 3 * (3 - 1) < wordSize := by decide
  refine ⟨⟨hids, hends, (isComplete_iff_one_edge hids hends hword).2 (by decide)⟩, hids', hends',
    htwice, fun hcomplete => ?_⟩
  have hone := ((isComplete_iff_one_edge hids' hends' hword).1 hcomplete).2 "a" (by decide) "b"
    (by decide) (by decide)
  exact absurd (htwice.symm.trans hone) (by decide)

end Graph

end GraphScript
