import GraphScript.Graph.Report
import GraphScript.Proofs.Graph.Coloring
import GraphScript.Proofs.Graph.Pairs
import GraphScript.Proofs.Graph.Sides

/-!
# The report does not contradict itself

The checks of the report are made apart from each other: by descending along edges, by pairs of
nodes, by counting edges, by sides and by colours. Where ids are distinct and no
edge has a missing end they agree (`Graph.report_consistent`):

* without a cycle, a graph is simple and has two sides;
* complete, it is connected and regular, and has a colour for each node;
* with two colours at most and no loop, it has two sides, which the colours tell apart.
-/

namespace GraphScript.Graph

variable {g : Graph}

theorem isRegular_iff :
    g.isRegular = true ↔ ∀ a ∈ g.ids, ∀ b ∈ g.ids, g.degree a = g.degree b := by
  rw [isRegular]
  cases g.ids with
  | nil => simp
  | cons first rest =>
    simp only [List.map_cons, List.all_eq_true, List.forall_mem_map, beq_iff_eq]
    constructor
    · intro h
      have hfirst : ∀ a ∈ first :: rest, g.degree a = g.degree first :=
        List.forall_mem_cons.2 ⟨rfl, h⟩
      exact fun a ha b hb => (hfirst a ha).trans (hfirst b hb).symm
    · exact fun h a ha => h a (List.mem_cons_of_mem _ ha) first List.mem_cons_self

theorem isConnected_of_isComplete (hids : g.ids.Nodup) (hends : g.NoMissingEnds) {word : ℕ}
    (hword : g.nodes.length * (g.nodes.length - 1) < word) (h : g.isComplete word = true) :
    g.isConnected = true := by
  rcases Nat.eq_zero_or_pos g.nodes.length with hzero | hpos
  · simp [isConnected, List.length_eq_zero_iff.1 hzero]
  · refine (isConnected_iff_connected hids hpos).2 fun slot hslot => ?_
    by_cases hfirst : 0 = slot
    · exact hfirst ▸ .refl _ _
    · exact .of_linked (linked_of_isComplete hids hends hword h hpos hslot hfirst)

/-- Where two colours are enough and there are no loops, the colours are two sides. -/
theorem isBipartite_of_chromaticNumber_le (hloops : ∀ e ∈ g.edges, e.isLoop = false)
    (h : g.chromaticNumber ≤ 2) : g.isBipartite = true := by
  have hlt := chromaticNumber_le_iff.1 h
  refine isBipartite_iff.2 ⟨fun slot => g.colorOf slot == 1, fun l hl hside => ?_⟩
  obtain ⟨e, he, hsource, htarget⟩ := mem_links_iff.1 hl
  have hne : l.source ≠ l.target := by
    intro heq
    have hloop : e.source = e.target := slot?_inj hsource (heq ▸ htarget)
    exact absurd (hloops e (List.mem_of_getElem? he)) (by simp [Edge.isLoop, hloop])
  have hcolors := colorOf_ne (linked_of_mem hl) hne
  have hsource_lt := hlt _ (links_lt hl).1
  have htarget_lt := hlt _ (links_lt hl).2
  rw [Bool.eq_iff_iff, beq_iff_eq, beq_iff_eq] at hside
  omega

/-- Where ids are distinct and no edge has a missing end, the parts of the report agree, those on
    complete graphs as long as twice the number of pairs fits into a word. -/
theorem report_consistent (hids : g.ids.Nodup) (hends : g.NoMissingEnds) (word : ℕ) :
    ((g.report word).acyclic = true →
      (g.report word).simple = true ∧ (g.report word).bipartite = true) ∧
    (g.nodes.length * (g.nodes.length - 1) < word → (g.report word).complete = true →
      (g.report word).connected = true ∧ (g.report word).regular = true ∧
        (g.report word).chromaticNumber = (g.report word).nodeCount) ∧
    ((∀ e ∈ g.edges, e.isLoop = false) → (g.report word).chromaticNumber ≤ 2 →
      (g.report word).bipartite = true) := by
  refine ⟨fun hacyclic => ⟨?_, ?_⟩, fun hword hcomplete => ⟨?_, ?_, ?_⟩, ?_⟩
  · exact isSimple_of_isAcyclic hends hacyclic
  · exact isBipartite_iff.2 (isAcyclic_iff_forest.1 hacyclic).exists_divides
  · exact isConnected_of_isComplete hids hends hword hcomplete
  · refine isRegular_iff.2 fun a ha b hb => ?_
    rw [degree_of_isComplete hids hends hword hcomplete ha,
      degree_of_isComplete hids hends hword hcomplete hb]
  · exact chromaticNumber_eq_of_linked fun a ha b hb =>
      linked_of_isComplete hids hends hword hcomplete ha hb
  · exact isBipartite_of_chromaticNumber_le

/-- A path of three nodes is simple, and its two colours divide it. An edge between its ends makes
    it complete, with a colour for each node. -/
theorem report_consistent_triangle :
    let path : Graph := { Graph.empty "main" with
      nodes := ["a", "b", "c"].map (Node.new · none)
      edges := [⟨"b", "a", 1.0⟩, ⟨"b", "c", 2.0⟩] }
    let triangle : Graph := { path with edges := path.edges ++ [⟨"a", "c", 3.0⟩] }
    (path.ids.Nodup ∧ path.NoMissingEnds ∧ path.report.simple = true ∧
      path.report.bipartite = true) ∧
    triangle.ids.Nodup ∧ triangle.NoMissingEnds ∧ triangle.report.connected = true ∧
      triangle.report.regular = true ∧ triangle.report.chromaticNumber = 3 := by
  intro path triangle
  have hids : path.ids.Nodup := by decide
  have hends : path.NoMissingEnds := by decide
  have hids' : triangle.ids.Nodup := by decide
  have hends' : triangle.NoMissingEnds := by decide
  obtain ⟨hacyclic, -, hcolors⟩ := report_consistent hids hends wordSize
  obtain ⟨-, hcomplete, -⟩ := report_consistent hids' hends' wordSize
  obtain ⟨hconnected, hregular, hnumber⟩ := hcomplete (by decide) (by decide)
  exact ⟨⟨hids, hends, (hacyclic (by decide)).1, hcolors (by decide) (by decide)⟩, hids', hends',
    hconnected, hregular, hnumber⟩

end GraphScript.Graph
