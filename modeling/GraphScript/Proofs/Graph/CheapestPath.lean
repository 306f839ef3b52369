import GraphScript.Proofs.Graph.Previous
import GraphScript.Proofs.Graph.WellFormed

/-!
# Cheapest paths cost least

The path found is a walk without repeated nodes that costs no more than any other
(`cheapestPath_least`), with sums and comparisons as doubles have them. It is read off the previous
slots, from the target back to the start; told with trails (`cheapestPath?_eq`), it is what the
search for a cheapest way answers (`exists_answers`).
-/

namespace GraphScript

open Double

namespace Graph

variable {g : Graph} {start target : String}

theorem isAmount_weightAt (hweights : ∀ e ∈ g.edges, SoundWeight e.weight) (i : ℕ) :
    IsAmount (g.weightAt i) := by
  cases h : g.edges[i]? with
  | some e =>
    obtain ⟨hfin, hnonneg⟩ := hweights e (List.mem_of_getElem? h)
    rw [weightAt_of_getElem? h]
    exact isAmount_of_isFinite hfin hnonneg
  | none =>
    rw [weightAt, h]
    exact isAmount_of_isFinite soundWeight_default.1 soundWeight_default.2

theorem Walk.isAmount {forward : Bool} {path : List String} {cost : Float}
    (hweights : ∀ e ∈ g.edges, SoundWeight e.weight) (h : g.Walk forward start target path cost) :
    IsAmount cost := by
  induction h with
  | start _ => exact isAmount_zero
  | step _ he _ _ ih => exact ih.add (isAmount_of_isFinite (hweights _ he).1 (hweights _ he).2)

/-- Where no weight is negative, the search is run between the slots of the nodes, and the path is
    its trail. -/
theorem cheapestPath?_eq (hweights : ∀ e ∈ g.edges, SoundWeight e.weight) :
    g.cheapestPath? start target = (g.slot? start).bind fun origin =>
      (g.slot? target).bind fun goal =>
        let adj := Adjacency.build g g.directed
        (TrailFrontier.run adj g.weightAt goal (adj.slots.flatten.length + 1)
          (TrailFrontier.start adj.size origin)).map adj.names := by
  have hpos : ¬(g.edges.any fun e => e.weight < 0.0) = true := by
    rw [List.any_eq_true]
    rintro ⟨e, he, hneg⟩
    exact (hweights e he).not_lt (of_decide_eq_true hneg)
  rw [cheapestPath?, if_neg hpos]
  simp only [Adjacency.slot?_build]
  refine Option.bind_congr fun origin horigin => Option.bind_congr fun goal _ => ?_
  rw [TrailFrontier.run_start (isAmount_weightAt hweights)
    (fun _ _ => Adjacency.slot_lt_of_mem_entries) (Adjacency.lt_size_of_slot? horigin)]
  simp only [Option.map_eq_bind]
  rfl

section Answers

variable {origin goal : ℕ} (hweights : ∀ e ∈ g.edges, SoundWeight e.weight)
  (horigin : g.slot? start = some origin) (hgoal : g.slot? target = some goal)

include horigin hgoal

/-- A walk to the target is a way to its slot. -/
theorem Walk.way_goal {path : List String} {cost : Float}
    (h : g.Walk g.directed start target path cost) :
    ∃ trail, (Adjacency.build g g.directed).Way g.weightAt origin goal trail cost := by
  obtain ⟨slot, trail, hslot, hway, -⟩ := h.way horigin
  obtain rfl := Option.some_inj.1 (hgoal.symm.trans hslot)
  exact ⟨trail, hway⟩

include hweights

theorem not_lt_unreached_of_answers
    (h : (Adjacency.build g g.directed).Answers g.weightAt origin goal none)
    {path : List String} {cost : Float} (hwalk : g.Walk g.directed start target path cost) :
    ¬cost < Frontier.unreached := by
  obtain ⟨trail, hway⟩ := hwalk.way_goal horigin hgoal
  have hcost := hway.isAmount (isAmount_weightAt hweights)
  rw [lt_iff_units hcost.isNaN Frontier.isAmount_unreached.isNaN, Frontier.units_unreached,
    not_lt]
  exact h trail cost hway

theorem least_of_answers {slots : List ℕ}
    (h : (Adjacency.build g g.directed).Answers g.weightAt origin goal (some slots)) :
    let path := (Adjacency.build g g.directed).names slots
    path.Nodup ∧ ∃ cost, g.Walk g.directed start target path cost ∧ cost < Frontier.unreached ∧
      ∀ path' cost', g.Walk g.directed start target path' cost' → cost ≤ cost' := by
  obtain ⟨trail, cost, rfl, hnodup, hway, hfinite, hleast⟩ := h
  have hcost := hway.isAmount (isAmount_weightAt hweights)
  obtain ⟨id, hid, hwalk⟩ := hway.walk horigin
  obtain rfl := slot?_inj hid hgoal
  refine ⟨hway.nodup_names horigin hnodup, cost, hwalk, ?_, fun path' cost' hwalk' => ?_⟩
  · rw [lt_iff_units hcost.isNaN Frontier.isAmount_unreached.isNaN, Frontier.units_unreached]
    exact hfinite
  · obtain ⟨trail', hway'⟩ := hwalk'.way_goal horigin hid
    have hcost' := hway'.isAmount (isAmount_weightAt hweights)
    rw [le_iff_units hcost.isNaN hcost'.isNaN]
    exact hleast trail' cost' hway'

/-- The search between the slots of the two nodes has an answer, and the path is read off it. -/
theorem exists_answers : ∃ answer,
    (Adjacency.build g g.directed).Answers g.weightAt origin goal answer ∧
      g.cheapestPath? start target = answer.map (Adjacency.build g g.directed).names := by
  refine ⟨_, TrailFrontier.start_answers (isAmount_weightAt hweights)
    (fun _ _ => Adjacency.slot_lt_of_mem_entries) (Adjacency.lt_size_of_slot? horigin)
    Adjacency.length_slots_build, ?_⟩
  rw [cheapestPath?_eq hweights, horigin, hgoal]
  rfl

/-- Some path is found when some walk is not infinitely expensive. -/
theorem exists_cheapestPath?_iff : (∃ path, g.cheapestPath? start target = some path) ↔
    ∃ path cost, g.Walk g.directed start target path cost ∧ cost < Frontier.unreached := by
  obtain ⟨answer, hanswers, hpath⟩ := exists_answers hweights horigin hgoal
  rw [hpath]
  cases answer with
  | none =>
    refine iff_of_false (by simp) ?_
    rintro ⟨path, cost, hwalk, hlt⟩
    exact not_lt_unreached_of_answers hweights horigin hgoal hanswers hwalk hlt
  | some slots =>
    obtain ⟨-, cost, hwalk, hlt, -⟩ := least_of_answers hweights horigin hgoal hanswers
    exact iff_of_true ⟨_, rfl⟩ ⟨_, cost, hwalk, hlt⟩

end Answers

/-- A path found costs no more than any walk, and is found unless all walks are infinitely
    expensive. -/
theorem cheapestPath_least (g : Graph) (hweights : ∀ e ∈ g.edges, SoundWeight e.weight)
    (start target : String) :
    match g.cheapestPath? start target with
    | some path => path.head? = some start ∧ path.getLast? = some target ∧ path.Nodup ∧
        ∃ cost, g.Walk g.directed start target path cost ∧ cost < Frontier.unreached ∧
          ∀ path' cost', g.Walk g.directed start target path' cost' → cost ≤ cost'
    | none => start ∉ g.ids ∨ target ∉ g.ids ∨
        ∀ path cost, g.Walk g.directed start target path cost → ¬cost < Frontier.unreached := by
  cases horigin : g.slot? start with
  | none =>
    rw [cheapestPath?_eq hweights, horigin]
    exact .inl (slot?_eq_none_iff.1 horigin)
  | some origin =>
  cases hgoal : g.slot? target with
  | none =>
    rw [cheapestPath?_eq hweights, horigin, hgoal]
    exact .inr (.inl (slot?_eq_none_iff.1 hgoal))
  | some goal =>
  obtain ⟨answer, hanswers, hpath⟩ := exists_answers hweights horigin hgoal
  rw [hpath]
  cases answer with
  | none =>
    exact .inr (.inr fun path cost => not_lt_unreached_of_answers hweights horigin hgoal hanswers)
  | some slots =>
    obtain ⟨hnodup, cost, hwalk, hleast⟩ := least_of_answers hweights horigin hgoal hanswers
    exact ⟨hwalk.head?, hwalk.getLast?, hnodup, cost, hwalk, hleast⟩

/-- The first offer for `b` is overtaken, a weight is zero, and the last edge ends nowhere. -/
def detour : Graph where
  name := "detour"
  nodes := ["a", "b", "c", "d"].map (Node.new · none)
  edges := [⟨"a", "b", 4.0⟩, ⟨"a", "c", 1.0⟩, ⟨"c", "b", 1.5⟩, ⟨"b", "d", 0.0⟩, ⟨"a", "d", 9.0⟩,
    ⟨"d", "e", 1.0⟩]
  directed := true
  weighted := true
  background := defaultBackground

theorem cheapestPath_least_detour :
    (∀ e ∈ detour.edges, SoundWeight e.weight) ∧
      detour.cheapestPath? "a" "d" = some ["a", "c", "b", "d"] ∧
      ∃ cost, detour.Walk true "a" "d" ["a", "c", "b", "d"] cost ∧
        ∀ path' cost', detour.Walk true "a" "d" path' cost' → cost ≤ cost' := by
  have hweights : ∀ e ∈ detour.edges, SoundWeight e.weight := by decide
  have hpath : detour.cheapestPath? "a" "d" = some ["a", "c", "b", "d"] := by rfl
  have hleast := cheapestPath_least detour hweights "a" "d"
  rw [hpath] at hleast
  obtain ⟨_, _, _, cost, hwalk, _, hle⟩ := hleast
  exact ⟨hweights, hpath, cost, hwalk, hle⟩

end Graph

end GraphScript
