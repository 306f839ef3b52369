import GraphScript.Graph.Coloring
import GraphScript.Proofs.Graph.Forest
import Mathlib.Data.Finset.Card

/-!
# The greedy colouring

Among as many numbers as there are entries, and one more, some number is free, so every slot gets
the least number that its earlier neighbours leave (`isLeastFree_leastFree`, `Greedy`). Hence the
ends of links have different colours, loops apart (`colorOf_ne`), and below the colour of a slot
all colours are those of earlier neighbours (`exists_of_lt_colorOf`).

The number of colours bounds them (`chromaticNumber_le_iff`). It is at most the number of slots,
and exactly that where every two slots are linked (`chromaticNumber_eq_of_linked`).

The nodes have the colours of their slots (`mem_coloring_iff`). No colour below the greatest is left
out (`toFinset_colors`), and the colour of a node is at most the number of edges at it, since each
colour below takes an edge to a neighbour (`colorOf_le_degree`). `coloring_proper_and_tight` is what
this says of a graph.
-/

namespace GraphScript

/-! ### Least free numbers -/

/-- The number is the least that is not in the list. -/
def IsLeastFree (used : List ℕ) (c : ℕ) : Prop :=
  c ∉ used ∧ ∀ c' < c, c' ∈ used

theorem isLeastFree_leastFree {used : List ℕ} {bound : ℕ} (h : used.length ≤ bound) :
    IsLeastFree used (leastFree used bound) := by
  obtain ⟨free, hfree, hnot⟩ : ∃ free ∈ List.range (bound + 1), free ∉ used := by
    by_contra hall
    push Not at hall
    have hle := List.nodup_range.length_le_of_subset hall
    rw [List.length_range] at hle
    omega
  obtain ⟨c, hc⟩ : ∃ c, (List.range (bound + 1)).find? (fun c => !used.contains c) = some c :=
    Option.isSome_iff_exists.1 (List.find?_isSome.2 ⟨free, hfree, by simpa using hnot⟩)
  rw [leastFree, hc, Option.getD_some]
  obtain ⟨hfree, -, hleast⟩ := List.find?_range_eq_some.1 hc
  exact ⟨by simpa using hfree, fun c' hlt => by simpa using hleast c' hlt⟩

/-- Colours of slots, each the least that the entries to slots before it leave free. -/
structure Greedy (slots : List (List Entry)) (colors : List ℕ) : Prop where
  length_eq : colors.length = slots.length
  least : ∀ (slot : ℕ) (entries : List Entry), slots[slot]? = some entries →
    ∃ c, colors[slot]? = some c ∧
      IsLeastFree (entries.filterMap fun e => (colors.take slot)[e.slot]?) c

theorem Greedy.concat {slots : List (List Entry)} {colors : List ℕ} (h : Greedy slots colors)
    (entries : List Entry) : Greedy (slots ++ [entries])
      (colors ++ [leastFree (entries.filterMap fun e => colors[e.slot]?) entries.length]) where
  length_eq := by rw [List.length_append, List.length_append, h.length_eq]; rfl
  least slot entries' hslot := by
    rcases Nat.lt_trichotomy slot slots.length with hlt | rfl | hgt
    · -- The colours given so far stay, and so does what was given before each of them.
      rw [List.getElem?_append_left hlt] at hslot
      have hlt' : slot < colors.length := h.length_eq ▸ hlt
      rw [List.getElem?_append_left hlt', List.take_append_of_le_length hlt'.le]
      exact h.least slot entries' hslot
    · rw [← h.length_eq, List.getElem?_concat_length, List.take_left]
      rw [List.getElem?_concat_length, Option.some_inj] at hslot
      rw [← hslot]
      exact ⟨_, rfl, isLeastFree_leastFree (List.length_filterMap_le _ _)⟩
    · have hnone : (slots ++ [entries])[slot]? = none :=
        List.getElem?_eq_none (by simpa using Nat.succ_le_of_lt hgt)
      rw [hnone] at hslot
      cases hslot

theorem Adjacency.greedy_colors (adj : Adjacency) : Greedy adj.slots adj.colors := by
  rw [colors]
  induction adj.slots using List.reverseRecOn with
  | nil => exact ⟨rfl, fun _ _ h => absurd h (by simp)⟩
  | append_singleton slots entries ih =>
    rw [List.foldl_append]
    exact ih.concat entries

/-! ### The colours of a graph -/

namespace Graph

open Adjacency

variable {g : Graph} {slot a b : ℕ}

/-- The colour of a slot. -/
def colorOf (g : Graph) (slot : ℕ) : ℕ :=
  (undirected g).colors.getD slot 0

theorem length_colors (g : Graph) : (undirected g).colors.length = g.nodes.length :=
  ((undirected g).greedy_colors.length_eq.trans length_slots_build).trans size_build

/-- The colours that the neighbours before a slot have. -/
theorem mem_earlier_iff {c : ℕ} (h : slot < g.nodes.length) :
    c ∈ ((undirected g).entries slot).filterMap
        (fun e => ((undirected g).colors.take slot)[e.slot]?) ↔
      ∃ earlier < slot, Linked g.links slot earlier ∧ g.colorOf earlier = c := by
  have hcolor (earlier : ℕ) : ((undirected g).colors.take slot)[earlier]? = some c ↔
      earlier < slot ∧ g.colorOf earlier = c := by
    by_cases hlt : earlier < slot
    · have hlt' : earlier < (undirected g).colors.length := by
        rw [length_colors]
        exact hlt.trans h
      simp [hlt, hlt', colorOf]
    · simp [hlt]
  simp only [List.mem_filterMap, hcolor, ← exists_entry_iff]
  constructor
  · rintro ⟨entry, hentry, hlt, hc⟩
    exact ⟨entry.slot, hlt, ⟨entry, hentry, rfl⟩, hc⟩
  · rintro ⟨_, hlt, ⟨entry, hentry, rfl⟩, hc⟩
    exact ⟨entry, hentry, hlt, hc⟩

theorem isLeastFree_colorOf (h : slot < g.nodes.length) :
    IsLeastFree (((undirected g).entries slot).filterMap
      fun e => ((undirected g).colors.take slot)[e.slot]?) (g.colorOf slot) := by
  have hlt : slot < (undirected g).slots.length :=
    h.trans_eq (length_slots_build.trans size_build).symm
  obtain ⟨c, hc, hleast⟩ := (undirected g).greedy_colors.least slot _
    (List.getElem?_eq_getElem hlt)
  have hentries : (undirected g).entries slot = (undirected g).slots[slot] := by
    simp [entries, hlt]
  have hcolor : g.colorOf slot = c := by
    rw [colorOf, List.getD_eq_getElem?_getD, hc, Option.getD_some]
  rwa [hentries, hcolor]

/-- Below the colour of a slot, all colours are those of earlier neighbours. -/
theorem exists_of_lt_colorOf (h : slot < g.nodes.length) {c : ℕ} (hc : c < g.colorOf slot) :
    ∃ earlier < slot, Linked g.links slot earlier ∧ g.colorOf earlier = c :=
  (mem_earlier_iff h).1 ((isLeastFree_colorOf h).2 c hc)

theorem colorOf_ne_of_lt (hlinked : Linked g.links a b) (hlt : b < a) (h : a < g.nodes.length) :
    g.colorOf b ≠ g.colorOf a := fun heq =>
  (isLeastFree_colorOf h).1 ((mem_earlier_iff h).2 ⟨b, hlt, hlinked, heq⟩)

/-- The ends of a link have different colours, unless it is a loop. -/
theorem colorOf_ne (hlinked : Linked g.links a b) (hne : a ≠ b) : g.colorOf a ≠ g.colorOf b := by
  obtain ⟨ha, hb⟩ : a < g.nodes.length ∧ b < g.nodes.length := by
    obtain ⟨l, hl, ⟨rfl, rfl⟩ | ⟨rfl, rfl⟩⟩ := hlinked
    exacts [links_lt hl, (links_lt hl).symm]
  rcases Nat.lt_or_gt_of_ne hne with hlt | hgt
  · exact colorOf_ne_of_lt hlinked.symm hlt hb
  · exact (colorOf_ne_of_lt hlinked hgt ha).symm

/-! ### The number of colours -/

/-- The number of colours is the least above all of them. -/
theorem chromaticNumber_le_iff {k : ℕ} :
    g.chromaticNumber ≤ k ↔ ∀ slot < g.nodes.length, g.colorOf slot < k := by
  have hmax (xs : List ℕ) (m : ℕ) : xs.foldl max m ≤ k ↔ m ≤ k ∧ ∀ x ∈ xs, x ≤ k := by
    induction xs generalizing m with
    | nil => simp
    | cons x rest ih => rw [List.foldl_cons, ih, max_le_iff, List.forall_mem_cons, and_assoc]
  have hcolors : g.coloring.map (·.2 + 1) = (undirected g).colors.map (· + 1) := by
    have hsnd : g.coloring.map Prod.snd = (undirected g).colors :=
      List.map_snd_zip (by rw [length_colors, ids, List.length_map])
    conv_rhs => rw [← hsnd, List.map_map]
    rfl
  rw [chromaticNumber, hcolors, hmax, List.forall_mem_map, List.forall_mem_iff_getElem]
  simp only [Nat.succ_le_iff]
  constructor
  · rintro ⟨-, h⟩ slot hslot
    have hslot' : slot < (undirected g).colors.length := hslot.trans_eq g.length_colors.symm
    simpa [colorOf, hslot'] using h slot hslot'
  · refine fun h => ⟨Nat.zero_le k, fun slot hslot => ?_⟩
    simpa [colorOf, hslot] using h slot (hslot.trans_eq g.length_colors)

/-- The colours before a slot are as many as the slots before it at most. -/
theorem colorOf_le (h : slot < g.nodes.length) : g.colorOf slot ≤ slot := by
  have hsubset : Finset.range (g.colorOf slot) ⊆ (Finset.range slot).image g.colorOf := by
    intro c hc
    obtain ⟨earlier, hlt, -, hcolor⟩ := exists_of_lt_colorOf h (Finset.mem_range.1 hc)
    exact Finset.mem_image.2 ⟨earlier, Finset.mem_range.2 hlt, hcolor⟩
  have hle := (Finset.card_le_card hsubset).trans Finset.card_image_le
  rwa [Finset.card_range, Finset.card_range] at hle

/-- Where every two slots are linked, all have colours of their own. -/
theorem chromaticNumber_eq_of_linked
    (h : ∀ a < g.nodes.length, ∀ b < g.nodes.length, a ≠ b → Linked g.links a b) :
    g.chromaticNumber = g.nodes.length := by
  apply le_antisymm
  · exact chromaticNumber_le_iff.2 fun slot hslot => (colorOf_le hslot).trans_lt hslot
  · -- All colours are below their number, and no two slots share one.
    have hlt := chromaticNumber_le_iff.1 (le_refl g.chromaticNumber)
    have hmaps : Set.MapsTo g.colorOf (Finset.range g.nodes.length)
        (Finset.range g.chromaticNumber) := fun slot hslot =>
      Finset.mem_coe.2 (Finset.mem_range.2 (hlt slot (Finset.mem_range.1 hslot)))
    have hinj : Set.InjOn g.colorOf (Finset.range g.nodes.length) := by
      intro a ha b hb heq
      by_contra hne
      exact colorOf_ne (h a (Finset.mem_range.1 ha) b (Finset.mem_range.1 hb) hne) hne heq
    have hle := Finset.card_le_card_of_injOn g.colorOf hmaps hinj
    rwa [Finset.card_range, Finset.card_range] at hle

/-! ### The colours of the nodes -/

variable {id : String} {c : ℕ}

theorem lt_of_getElem?_ids (h : g.ids[slot]? = some id) : slot < g.nodes.length := by
  simpa [ids] using (List.getElem?_eq_some_iff.1 h).1

/-- An id that stands for a slot is the id there. -/
theorem eq_of_slot? {other : String} (hother : g.slot? other = some slot)
    (h : g.ids[slot]? = some id) : other = id :=
  Option.some_inj.1 ((slot?_eq_some hother).symm.trans h)

theorem getElem?_ids (h : slot < g.nodes.length) : g.ids[slot]? = some (g.nodes[slot]).id := by
  simp [ids, h]

theorem getElem?_coloring_iff :
    g.coloring[slot]? = some (id, c) ↔ g.ids[slot]? = some id ∧ g.colorOf slot = c := by
  rw [coloring, List.getElem?_zip_eq_some]
  refine and_congr_right fun hid => ?_
  have hlt : slot < (undirected g).colors.length :=
    (lt_of_getElem?_ids hid).trans_eq g.length_colors.symm
  simp [colorOf, hlt]

theorem map_fst_coloring (g : Graph) : g.coloring.map Prod.fst = g.ids :=
  List.map_fst_zip (by rw [length_colors, ids, List.length_map])

theorem mem_coloring_iff (hids : g.ids.Nodup) :
    (id, c) ∈ g.coloring ↔ ∃ slot, g.slot? id = some slot ∧ g.colorOf slot = c := by
  simp only [List.mem_iff_getElem?, getElem?_coloring_iff]
  constructor
  · rintro ⟨slot, hid, hc⟩
    exact ⟨slot, slot?_of_getElem? hids hid, hc⟩
  · rintro ⟨slot, hid, hc⟩
    exact ⟨slot, slot?_eq_some hid, hc⟩

theorem existsUnique_coloring (hids : g.ids.Nodup) (hid : id ∈ g.ids) :
    ∃! c, (id, c) ∈ g.coloring := by
  obtain ⟨slot, hslot⟩ := exists_slot? hid
  refine ⟨g.colorOf slot, (mem_coloring_iff hids).2 ⟨slot, hslot, rfl⟩, fun c hc => ?_⟩
  obtain ⟨slot', hslot', rfl⟩ := (mem_coloring_iff hids).1 hc
  rw [Option.some_inj.1 (hslot'.symm.trans hslot)]

/-- The ends of an edge between nodes have different colours, unless it is a loop. -/
theorem coloring_ne (hids : g.ids.Nodup) {e : Edge} (he : e ∈ g.edges) (hloop : e.isLoop = false)
    {c' : ℕ} (hc : (e.source, c) ∈ g.coloring) (hc' : (e.target, c') ∈ g.coloring) : c ≠ c' := by
  obtain ⟨slot, hsource, rfl⟩ := (mem_coloring_iff hids).1 hc
  obtain ⟨slot', htarget, rfl⟩ := (mem_coloring_iff hids).1 hc'
  refine colorOf_ne (linked_iff_edge.2 ⟨e, he, .inl ⟨hsource, htarget⟩⟩) fun heq => ?_
  have hends : e.source = e.target := slot?_inj hsource (heq ▸ htarget)
  rw [Edge.isLoop, hends, beq_self_eq_true] at hloop
  cases hloop

/-- Below the colour of a node, all colours are those of neighbours before it. -/
theorem exists_earlier_neighbor {i : ℕ} (h : g.coloring[i]? = some (id, c)) {c' : ℕ}
    (hlt : c' < c) :
    ∃ j < i, ∃ other, g.coloring[j]? = some (other, c') ∧ g.adjacent id other = true := by
  obtain ⟨hid, rfl⟩ := getElem?_coloring_iff.1 h
  obtain ⟨j, hj, hlinked, hcolor⟩ := exists_of_lt_colorOf (lt_of_getElem?_ids hid) hlt
  obtain ⟨e, he, hends⟩ := linked_iff_edge.1 hlinked
  obtain ⟨other, hother⟩ : ∃ other, g.slot? other = some j := by
    obtain ⟨-, htarget⟩ | ⟨hsource, -⟩ := hends
    exacts [⟨_, htarget⟩, ⟨_, hsource⟩]
  refine ⟨j, hj, other, getElem?_coloring_iff.2 ⟨slot?_eq_some hother, hcolor⟩, ?_⟩
  -- The two ids are those at the ends of the edge, since they are at its slots.
  refine List.any_eq_true.2 ⟨e, he, ?_⟩
  obtain ⟨hsource, htarget⟩ | ⟨hsource, htarget⟩ := hends
  · simp [Edge.joins, eq_of_slot? hsource hid, slot?_inj htarget hother]
  · simp [Edge.joins, eq_of_slot? htarget hid, slot?_inj hsource hother]

/-! ### The colours in use -/

/-- No colour is left out. -/
theorem toFinset_colors (g : Graph) :
    (g.coloring.map Prod.snd).toFinset = Finset.range g.chromaticNumber := by
  have hmem {c : ℕ} : c ∈ (g.coloring.map Prod.snd).toFinset ↔
      ∃ slot < g.nodes.length, g.colorOf slot = c := by
    rw [List.mem_toFinset, List.mem_map]
    constructor
    · rintro ⟨⟨id, c⟩, hc, rfl⟩
      obtain ⟨slot, hslot⟩ := List.getElem?_of_mem hc
      obtain ⟨hid, hcolor⟩ := getElem?_coloring_iff.1 hslot
      exact ⟨slot, lt_of_getElem?_ids hid, hcolor⟩
    · rintro ⟨slot, hslot, rfl⟩
      exact ⟨(_, g.colorOf slot),
        List.mem_of_getElem? (getElem?_coloring_iff.2 ⟨getElem?_ids hslot, rfl⟩), rfl⟩
  ext c
  rw [hmem, Finset.mem_range]
  constructor
  · rintro ⟨slot, hslot, rfl⟩
    exact chromaticNumber_le_iff.1 (le_refl g.chromaticNumber) slot hslot
  · -- Some slot has the colour or a greater one, and then an earlier neighbour has it.
    intro hlt
    obtain ⟨slot, hslot, hle⟩ : ∃ slot < g.nodes.length, c ≤ g.colorOf slot := by
      by_contra hnone
      push Not at hnone
      exact absurd (chromaticNumber_le_iff.2 hnone) (not_le.2 hlt)
    rcases hle.eq_or_lt with heq | hlt
    · exact ⟨slot, hslot, heq.symm⟩
    · obtain ⟨earlier, hearlier, -, hcolor⟩ := exists_of_lt_colorOf hslot hlt
      exact ⟨earlier, hearlier.trans hslot, hcolor⟩

/-- Each entry of a slot is for an edge at its node. -/
theorem length_entries_le (hid : g.ids[slot]? = some id) :
    ((undirected g).entries slot).length ≤ g.degree id := by
  have hdegree : g.degree id = g.edges.zipIdx.countP fun x => x.1.touches id := by
    conv_lhs => rw [degree, ← List.zipIdx_map_fst 0 g.edges, List.countP_map]
    rfl
  -- Both sides count edges with their positions: those with an entry at the slot, and those at the
  -- node.
  rw [undirected, entries_build (lt_of_getElem?_ids hid), List.length_filterMap_eq_countP, hdegree,
    links, List.countP_filterMap]
  refine List.countP_mono_left ?_
  rintro ⟨e, index⟩ - hentry
  obtain ⟨l, hlink, hentry⟩ : ∃ l, Link.of? g.slot? e index = some l ∧
      (l.entryAt? false slot).isSome = true := by
    cases hlink : Link.of? g.slot? e index with
    | none => simp [hlink] at hentry
    | some l => exact ⟨l, rfl, by simpa [hlink] using hentry⟩
  obtain ⟨-, hsource, htarget⟩ := Link.of?_eq_some_iff.1 hlink
  obtain ⟨entry, hentry⟩ := Option.isSome_iff_exists.1 hentry
  obtain ⟨-, ⟨rfl, -⟩ | ⟨-, rfl, -⟩⟩ := Link.entryAt?_eq_some_iff.1 hentry
  · simp [Edge.touches, eq_of_slot? hsource hid]
  · simp [Edge.touches, eq_of_slot? htarget hid]

/-- Each colour below that of a node takes an edge to a neighbour. -/
theorem colorOf_le_degree (hid : g.ids[slot]? = some id) : g.colorOf slot ≤ g.degree id := by
  obtain ⟨-, hbelow⟩ := isLeastFree_colorOf (lt_of_getElem?_ids hid)
  have hsubset := List.nodup_range.length_le_of_subset fun c hc => hbelow c (List.mem_range.1 hc)
  calc g.colorOf slot = (List.range (g.colorOf slot)).length := List.length_range.symm
    _ ≤ _ := hsubset
    _ ≤ ((undirected g).entries slot).length := List.length_filterMap_le _ _
    _ ≤ g.degree id := length_entries_le hid

theorem chromaticNumber_le_degree {most : ℕ} (h : (g.ids.map g.degree).max? = some most) :
    g.chromaticNumber ≤ 1 + most := by
  have hmost := (List.max?_eq_some_iff.1 h).2
  refine chromaticNumber_le_iff.2 fun slot hslot => ?_
  have hdegree := hmost _ (List.mem_map_of_mem (List.mem_of_getElem? (getElem?_ids hslot)))
  have hcolor := colorOf_le_degree (getElem?_ids hslot)
  omega

/-- The greedy colouring, where ids are distinct and no edge has a missing end. Every node has one
    colour, in the order of the nodes. The ends of an edge that is no loop have different colours,
    and a node has, for each colour below its own, an earlier neighbour of that colour. So the
    number of colours is that of the colours in use, and at most one more than the largest degree
    of a node, and without nodes it is zero. -/
theorem coloring_proper_and_tight (hids : g.ids.Nodup) (hends : g.NoMissingEnds) :
    (g.coloring.map Prod.fst = g.ids ∧ ∀ id ∈ g.ids, ∃! c, (id, c) ∈ g.coloring) ∧
    (∀ e ∈ g.edges, e.isLoop = false → ∃ c c', (e.source, c) ∈ g.coloring ∧
      (e.target, c') ∈ g.coloring ∧ c ≠ c') ∧
    (∀ (i : ℕ) (id : String) (c : ℕ), g.coloring[i]? = some (id, c) → ∀ c' < c, ∃ j < i, ∃ other,
      g.coloring[j]? = some (other, c') ∧ g.adjacent id other = true) ∧
    g.chromaticNumber = (g.coloring.map Prod.snd).toFinset.card ∧
    (∀ most, (g.ids.map g.degree).max? = some most → g.chromaticNumber ≤ 1 + most) ∧
    (g.nodes = [] → g.chromaticNumber = 0) := by
  refine ⟨⟨g.map_fst_coloring, fun id hid => existsUnique_coloring hids hid⟩, fun e he hloop => ?_,
    fun i id c h c' hlt => exists_earlier_neighbor h hlt, ?_, fun most => chromaticNumber_le_degree,
    fun hnodes => ?_⟩
  · obtain ⟨c, hc, -⟩ := existsUnique_coloring hids (hends e he).1
    obtain ⟨c', hc', -⟩ := existsUnique_coloring hids (hends e he).2
    exact ⟨c, c', hc, hc', coloring_ne hids he hloop hc hc'⟩
  · rw [toFinset_colors, Finset.card_range]
  · refine Nat.le_zero.1 (chromaticNumber_le_iff.2 fun slot hslot => ?_)
    rw [hnodes] at hslot
    exact absurd hslot (Nat.not_lt_zero _)

/-- A ring of five whose first node has a loop and an edge there and back besides: its degree allows
    for five colours, and the last node needs the third one. -/
theorem coloring_proper_and_tight_ring :
    let ring : Graph := { Graph.empty "main" with
      nodes := ["a", "b", "c", "d", "e"].map (Node.new · none)
      edges := [⟨"b", "a", 1.0⟩, ⟨"b", "c", 1.0⟩, ⟨"d", "c", 1.0⟩, ⟨"d", "e", 1.0⟩, ⟨"a", "e", 1.0⟩,
        ⟨"a", "b", 1.0⟩, ⟨"a", "a", 1.0⟩] }
    ring.ids.Nodup ∧ ring.NoMissingEnds ∧
      ring.coloring = [("a", 0), ("b", 1), ("c", 0), ("d", 1), ("e", 2)] ∧
      ring.chromaticNumber = 3 ∧ (∃ j < 4, ∃ other, ring.coloring[j]? = some (other, 1) ∧
        ring.adjacent "e" other = true) ∧ ring.chromaticNumber ≤ 1 + 4 := by
  intro ring
  have hids : ring.ids.Nodup := by decide
  have hends : ring.NoMissingEnds := by decide
  have hcoloring : ring.coloring = [("a", 0), ("b", 1), ("c", 0), ("d", 1), ("e", 2)] := by
    decide +kernel
  obtain ⟨-, -, hearlier, hnumber, hdegree, -⟩ := coloring_proper_and_tight hids hends
  refine ⟨hids, hends, hcoloring, ?_, hearlier 4 "e" 2 (by rw [hcoloring]; rfl) 1 (by decide),
    hdegree 4 (by decide)⟩
  rw [hnumber, hcoloring]
  decide

end Graph

end GraphScript
