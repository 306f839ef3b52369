import GraphScript.Proofs.Graph.CheapestPath

/-!
# Cheapest paths with unit weights

Where all edges have weight one and no direction, a cheapest path is a shortest one, and the
two searches find the same path (`cheapestPath_eq_shortestPath`).

The offers are then the queue of the breadth-first search, newest first (`TrailFrontier.Mirrors`):
their costs count the steps of their trails, so the cheapest of the oldest is the oldest of
all. Each slot is offered once, as no later way to it has fewer steps; the breadth-first
search leaves out the same entries because it knows the slot. So no offer is overtaken, and
the two searches take the same visits in the same order, until one of them is to the goal.
-/

namespace GraphScript

open Double

/-- The visit to the slot of an offer. -/
def TrailOffer.visit (o : TrailOffer) : Visit where
  slot := o.slot
  trail := o.trail

@[simp] theorem TrailOffer.visit_slot (o : TrailOffer) : o.visit.slot = o.slot := rfl

namespace TrailFrontier

open Frontier (unreached isAmount_unreached units_unreached)

/-- A search by cost that is as far as a breadth-first search with the given queue. -/
structure Mirrors (size : ℕ) (known queue : List Visit) (f : TrailFrontier) : Prop where
  length_costs : f.costs.length = size
  offers : f.offers.map TrailOffer.visit = queue.reverse
  order_lt : ∀ o ∈ f.offers, o.order < f.made
  newest_first : f.offers.Pairwise fun newer older => older.order < newer.order
  cost_eq : ∀ o ∈ f.offers, o.cost = f.cost o.slot
  queue_known : ∀ v ∈ queue, v ∈ known
  counts_known : ∀ v ∈ known, Counts v.trail.length (f.cost v.slot)
  unreached_of_new : ∀ slot, (∀ v ∈ known, v.slot ≠ slot) → f.cost slot = unreached

namespace Mirrors

variable {size : ℕ} {known known' queue : List Visit} {f : TrailFrontier} {o : TrailOffer}

theorem of_mem_iff (h : f.Mirrors size known queue) (hmem : ∀ v, v ∈ known' ↔ v ∈ known) :
    f.Mirrors size known' queue :=
  { h with
    queue_known := fun v hv => (hmem v).2 (h.queue_known v hv)
    counts_known := fun v hv => h.counts_known v ((hmem v).1 hv)
    unreached_of_new := fun slot hslot =>
      h.unreached_of_new slot fun v hv => hslot v ((hmem v).2 hv) }

theorem mem_queue (h : f.Mirrors size known queue) (ho : o ∈ f.offers) : o.visit ∈ queue := by
  rw [← List.mem_reverse, ← h.offers]
  exact List.mem_map_of_mem ho

theorem counts (h : f.Mirrors size known queue) (ho : o ∈ f.offers) :
    Counts o.trail.length o.cost := by
  rw [h.cost_eq o ho]
  exact h.counts_known o.visit (h.queue_known _ (h.mem_queue ho))

/-- An offer for a new slot joins the end of the queue. -/
theorem push (h : f.Mirrors size known queue) (hslot : o.slot < size)
    (horder : o.order = f.made) (hcounts : Counts o.trail.length o.cost)
    (hnew : ∀ v ∈ known, v.slot ≠ o.slot) :
    (f.push o).Mirrors size (o.visit :: known) (queue ++ [o.visit]) := by
  have hlength : o.slot < f.costs.length := h.length_costs ▸ hslot
  have hcost := cost_push hlength
  have hself := cost_push_self hlength
  constructor
  case length_costs => rw [TrailFrontier.push, List.length_set, h.length_costs]
  case offers => rw [TrailFrontier.push, List.map_cons, h.offers, List.reverse_append]; rfl
  case order_lt =>
    intro a ha
    rcases List.mem_cons.1 ha with rfl | ha
    · exact horder ▸ Nat.lt_succ_self _
    · exact (h.order_lt a ha).trans (Nat.lt_succ_self _)
  case newest_first =>
    exact List.pairwise_cons.2 ⟨fun a ha => horder ▸ h.order_lt a ha, h.newest_first⟩
  case cost_eq =>
    intro a ha
    rcases List.mem_cons.1 ha with rfl | ha
    · exact hself.symm
    · have hne : a.slot ≠ o.slot := hnew a.visit (h.queue_known _ (h.mem_queue ha))
      rw [hcost, if_neg hne, h.cost_eq a ha]
  case queue_known =>
    intro v hv
    rcases List.mem_append.1 hv with hv | hv
    · exact List.mem_cons_of_mem _ (h.queue_known v hv)
    · exact List.mem_cons.2 (.inl (List.mem_singleton.1 hv))
  case counts_known =>
    intro v hv
    rcases List.mem_cons.1 hv with rfl | hv
    · change Counts o.trail.length ((f.push o).cost o.slot)
      rwa [hself]
    · rw [hcost, if_neg (hnew v hv)]
      exact h.counts_known v hv
  case unreached_of_new =>
    intro slot hslot
    obtain ⟨hne, hslot⟩ := List.forall_mem_cons.1 hslot
    change o.slot ≠ slot at hne
    rw [hcost, if_neg hne.symm]
    exact h.unreached_of_new slot hslot

/-- Extending an offer adds to the queue what its visit discovers. -/
theorem extend_all (h : f.Mirrors size known queue) (ho : Counts o.trail.length o.cost)
    (hlength : o.trail.length + 1 < 2 ^ 53)
    (hnear : ∀ v ∈ known, v.trail.length ≤ o.trail.length + 1) {entries : List Entry}
    (hentries : ∀ entry ∈ entries, entry.slot < size) :
    (entries.foldl (extend (fun _ => 1.0) o) f).Mirrors size
      (known ++ Adjacency.discover o.visit known entries)
      (queue ++ Adjacency.discover o.visit known entries) := by
  have hcounts := ho.add_one hlength
  induction entries generalizing f known queue with
  | nil => simpa only [Adjacency.discover, List.append_nil, List.foldl_nil] using h
  | cons entry rest ih =>
    rw [List.forall_mem_cons] at hentries
    rw [List.foldl_cons, Adjacency.discover, extend_eq]
    set next := o.along (fun _ => 1.0) f.made entry
    have hnext : Counts next.trail.length next.cost := hcounts
    by_cases hknown : known.any (·.slot == entry.slot) = true
    · -- A known slot has been offered at no higher cost.
      obtain ⟨x, hx, hslot⟩ := Adjacency.any_slot_iff.1 hknown
      have hx' := h.counts_known x hx
      rw [hslot] at hx'
      have hle : ¬next.cost < f.cost entry.slot := by
        rw [lt_iff_units hnext.isAmount.isNaN hx'.isAmount.isNaN, not_lt, hx'.units_le_iff hnext]
        exact hnear x hx
      rw [if_pos hknown, if_neg hle]
      exact ih h hnear hentries.2
    · have hnew : ∀ v ∈ known, v.slot ≠ next.slot := fun v hv hslot =>
        hknown (Adjacency.any_slot_iff.2 ⟨v, hv, hslot⟩)
      have hlt : next.cost < f.cost entry.slot := by
        rw [h.unreached_of_new entry.slot hnew,
          lt_iff_units hnext.isAmount.isNaN isAmount_unreached.isNaN, units_unreached]
        exact hnext.lt_limit hlength
      rw [if_neg hknown, if_pos hlt]
      have hpush := h.push hentries.1 rfl hnext hnew
      have hnear' : ∀ v ∈ next.visit :: known, v.trail.length ≤ o.trail.length + 1 :=
        List.forall_mem_cons.2 ⟨le_rfl, hnear⟩
      have hrest := ih hpush hnear' hentries.2
      rw [List.append_assoc] at hrest
      refine hrest.of_mem_iff fun v => ?_
      simp only [List.mem_append, List.mem_cons, List.cons_append]
      exact or_left_comm

/-- The offer taken is the first one of the queue, and leaves the others. -/
theorem first? {v : Visit} (h : f.Mirrors size known (v :: queue))
    (hsorted : (v :: queue).Pairwise fun a b => a.trail.length ≤ b.trail.length) :
    ∃ o, TrailOffer.first? f.offers = some o ∧ o ∈ f.offers ∧ o.visit = v ∧
      (f.drop o).Mirrors size known queue := by
  have hoffers := h.offers
  rw [List.reverse_cons] at hoffers
  obtain ⟨newer, last, hsplit, hnewer, hlast⟩ := List.map_eq_append_iff.1 hoffers
  obtain ⟨o, rfl, hvisit⟩ := List.map_eq_singleton_iff.1 hlast
  have ho : o ∈ f.offers := by
    rw [hsplit]
    exact List.mem_append_right _ (List.mem_singleton_self o)
  have horder := h.newest_first
  rw [hsplit] at horder
  obtain ⟨hpairwise, _, hold⟩ := List.pairwise_append.1 horder
  have hlt : ∀ a ∈ newer, o.order < a.order := fun a ha =>
    hold a ha o (List.mem_singleton_self o)
  refine ⟨o, ?_, ho, hvisit, ?_⟩
  · -- Any other offer has as many steps at least, and is newer.
    obtain ⟨a, ha⟩ : ∃ a, TrailOffer.first? f.offers = some a := by
      refine Option.ne_none_iff_exists'.1 fun hnone => ?_
      rw [TrailOffer.first?_eq_none_iff.1 hnone] at ho
      exact List.not_mem_nil ho
    obtain ⟨hmem, hleast⟩ := TrailOffer.first?_eq_some (fun b hb => (h.counts hb).isAmount) ha
    rw [ha, Option.some_inj]
    have hmem' := hmem
    rw [hsplit] at hmem'
    rcases List.mem_append.1 hmem' with hnew | hlast
    · have hqueue : a.visit ∈ queue := by
        rw [← List.mem_reverse, ← hnewer]
        exact List.mem_map_of_mem hnew
      have hsteps : o.trail.length ≤ a.trail.length := by
        rw [← hvisit] at hsorted
        exact (List.pairwise_cons.1 hsorted).1 _ hqueue
      have hle := ((h.counts ho).units_le_iff (h.counts hmem)).2 hsteps
      have heq := le_antisymm (hleast o ho).1 hle
      exact absurd ((hleast o ho).2 heq) (not_le.2 (hlt a hnew))
    · exact List.mem_singleton.1 hlast
  · have hdrop : (f.drop o).offers = newer := by
      rw [TrailFrontier.drop, hsplit, List.filter_append, List.filter_eq_self.2, List.filter_cons_of_neg,
        List.filter_nil, List.append_nil]
      · simp
      · exact fun a ha => bne_iff_ne.2 (hlt a ha).ne'
    have hsub : ∀ a ∈ (f.drop o).offers, a ∈ f.offers := fun a ha => (mem_drop_iff.1 ha).1
    exact { h with
      offers := by rw [hdrop, hnewer]
      order_lt := fun a ha => h.order_lt a (hsub a ha)
      newest_first := by rwa [hdrop]
      cost_eq := fun a ha => h.cost_eq a (hsub a ha)
      queue_known := fun v hv => h.queue_known v (List.mem_cons_of_mem _ hv) }

theorem length_offers (h : f.Mirrors size known queue) : f.offers.length = queue.length := by
  rw [← List.length_map TrailOffer.visit, h.offers, List.length_reverse]

theorem start {origin : ℕ} (horigin : origin < size) :
    (TrailFrontier.start size origin).Mirrors size [⟨origin, []⟩] [⟨origin, []⟩] := by
  have hcost := cost_start horigin
  constructor
  case length_costs => simp [TrailFrontier.start]
  case offers => rfl
  case order_lt =>
    intro o ho
    rw [List.mem_singleton.1 ho]
    exact Nat.zero_lt_one
  case newest_first => exact List.pairwise_singleton _ _
  case cost_eq =>
    intro o ho
    rw [List.mem_singleton.1 ho, hcost, if_pos rfl]
  case queue_known => exact fun _ hv => hv
  case counts_known =>
    intro v hv
    rw [List.mem_singleton.1 hv, hcost, if_pos rfl]
    exact counts_zero
  case unreached_of_new =>
    intro slot hslot
    rw [hcost, if_neg (Ne.symm (hslot _ (List.mem_singleton_self _)))]

end Mirrors

variable {adj : Adjacency} {goal : ℕ} {done queue : List Visit} {f : TrailFrontier}

theorem find?_eq_none (hgoal : ∀ v ∈ done, v.slot ≠ goal) :
    done.find? (·.slot == goal) = none := by
  rw [List.find?_eq_none]
  exact fun v hv => by simpa using hgoal v hv

/-- A visit to the goal is what the breadth-first search finds. -/
theorem find?_explore {v : Visit} (hgoal : ∀ v ∈ done, v.slot ≠ goal) (hslot : v.slot = goal)
    (rounds : ℕ) :
    (adj.explore (rounds + 1) done (v :: queue)).find? (·.slot == goal) = some v := by
  rw [Adjacency.explore]
  obtain ⟨rest, hrest⟩ := adj.prefix_explore rounds (done ++ [v])
    (queue ++ Adjacency.discover v (done ++ v :: queue) (adj.entries v.slot))
  rw [← hrest, List.find?_append, List.find?_append, find?_eq_none hgoal, Option.none_or,
    List.find?_cons_of_pos (by simpa using hslot)]
  rfl

/-- A visit takes the entries of its slot off the load. -/
theorem load_visited {v : Visit} (h : adj.Queued done (v :: queue)) :
    (adj.entries v.slot).length + adj.load ((done ++ [v]).map (·.slot)).toFinset =
      adj.load (done.map (·.slot)).toFinset := by
  have hnew : v.slot ∉ (done.map (·.slot)).toFinset := by
    simpa using fun x hx => h.slot_ne hx
  have hinsert : ((done ++ [v]).map (·.slot)).toFinset =
      insert v.slot (done.map (·.slot)).toFinset := by
    ext slot
    simp
  rw [hinsert]
  exact Adjacency.load_insert (h.slot_lt v (by simp)) hnew

/-- The search by cost finds what the breadth-first search does, if both have rounds enough. -/
theorem Mirrors.run_eq (hentries : ∀ v, ∀ entry ∈ adj.entries v, entry.slot < adj.size)
    (hsize : adj.size < 2 ^ 53) {rounds rounds' : ℕ}
    (h : f.Mirrors adj.size (done ++ queue) queue) (hqueued : adj.Queued done queue)
    (hgoal : ∀ v ∈ done, v.slot ≠ goal)
    (hrounds : f.offers.length + adj.load (done.map (·.slot)).toFinset ≤ rounds)
    (hrounds' : adj.size ≤ done.length + rounds') :
    run adj (fun _ => 1.0) goal rounds f =
      ((adj.explore rounds' done queue).find? (·.slot == goal)).map Visit.path := by
  induction rounds' generalizing f done queue rounds with
  | zero =>
    have hlength := hqueued.length_add_le
    obtain rfl : queue = [] := List.length_eq_zero_iff.1 (by omega)
    rw [run_of_offers_eq_nil _ (List.length_eq_zero_iff.1 h.length_offers), Adjacency.explore_nil,
      find?_eq_none hgoal]
    rfl
  | succ rounds' ih =>
    cases queue with
    | nil =>
      rw [run_of_offers_eq_nil _ (List.length_eq_zero_iff.1 h.length_offers),
        Adjacency.explore_nil, find?_eq_none hgoal]
      rfl
    | cons v queue =>
      have hlength := hqueued.length_add_le
      have hoffers := h.length_offers
      rw [List.length_cons] at hlength hoffers
      obtain ⟨rounds, rfl⟩ : ∃ n, rounds = n + 1 := ⟨rounds - 1, by omega⟩
      -- Both take the head of the queue, and no offer for its slot was ever cheaper.
      obtain ⟨o, hfirst, ho, rfl, hdrop⟩ := h.first? hqueued.sorted
      have hcounts := h.counts ho
      have hnot : ¬f.cost o.slot < o.cost := by
        rw [← h.cost_eq o ho, lt_iff_units hcounts.isAmount.isNaN hcounts.isAmount.isNaN]
        exact lt_irrefl _
      rw [run_succ rounds hfirst, if_neg hnot]
      split_ifs with hslot
      · rw [find?_explore hgoal hslot]
        rfl
      · have hsteps : o.trail.length ≤ done.length := hqueued.length_le o.visit List.mem_cons_self
        have hextend := hdrop.extend_all hcounts (by omega)
          (hqueued.near o.visit List.mem_cons_self) (hentries o.slot)
        have hknown : done ++ o.visit :: queue = done ++ [o.visit] ++ queue := by simp
        have hload := load_visited hqueued
        have hfound : (Adjacency.discover o.visit (done ++ o.visit :: queue)
          (adj.entries o.slot)).length ≤ (adj.entries o.slot).length := Adjacency.length_discover_le
        refine ih ?_ (hqueued.round hentries) ?_ ?_ ?_
        · rw [← List.append_assoc, ← hknown]
          exact hextend
        · intro v hv
          rcases List.mem_append.1 hv with hv | hv
          · exact hgoal v hv
          · rwa [List.mem_singleton.1 hv]
        · rw [hextend.length_offers, List.length_append]
          rw [TrailOffer.visit_slot] at hload
          omega
        · rw [List.length_append, List.length_singleton]
          omega

end TrailFrontier

namespace Graph

variable {g : Graph}

theorem weightAt_of_unit (hunit : ∀ e ∈ g.edges, e.weight = 1.0) :
    g.weightAt = fun _ => 1.0 := by
  funext i
  cases h : g.edges[i]? with
  | some e => rw [weightAt_of_getElem? h, hunit e (List.mem_of_getElem? h)]
  | none => rw [weightAt, h]; rfl

/-- With unit weights and no directions, the cheapest path is the shortest one: not only as
    long, but the same path. -/
theorem cheapestPath_eq_shortestPath (g : Graph) (hdirected : g.directed = false)
    (hunit : ∀ e ∈ g.edges, e.weight = 1.0) (hsize : g.nodes.length < 2 ^ 53)
    (start target : String) : g.cheapestPath? start target = g.shortestPath? start target := by
  have hweights : ∀ e ∈ g.edges, SoundWeight e.weight := by
    intro e he
    rw [hunit e he]
    exact soundWeight_default
  rw [cheapestPath?_eq hweights, shortestPath?_eq, hdirected, weightAt_of_unit hunit]
  refine Option.bind_congr fun origin horigin => Option.bind_congr fun goal _ => ?_
  have hlt : origin < (Adjacency.build g false).size := Adjacency.lt_size_of_slot? horigin
  refine congrArg (Option.map _) ((TrailFrontier.Mirrors.start hlt).run_eq
    (fun _ _ => Adjacency.slot_lt_of_mem_entries) ?_ (.start hlt) ?_ ?_ ?_)
  · rwa [Adjacency.size_build]
  · exact fun v hv => absurd hv List.not_mem_nil
  · rw [List.map_nil, List.toFinset_nil, Adjacency.load_empty Adjacency.length_slots_build]
    exact (Nat.add_comm _ _).le
  · exact (Nat.zero_add _).ge

/-- A square, so that two ways from `a` to `c` have the same length. Its tail ends at the
    later of two nodes `e`, and the last edge ends nowhere. -/
def square : Graph where
  name := "square"
  nodes := ["a", "b", "c", "d", "e", "e"].map (Node.new · none)
  edges := [⟨"a", "d", 1.0⟩, ⟨"a", "b", 1.0⟩, ⟨"b", "c", 1.0⟩, ⟨"d", "c", 1.0⟩, ⟨"e", "c", 1.0⟩,
    ⟨"e", "f", 1.0⟩]
  directed := false
  weighted := true
  background := defaultBackground

theorem cheapestPath_eq_shortestPath_square :
    square.directed = false ∧ (∀ e ∈ square.edges, e.weight = 1.0) ∧
      square.nodes.length < 2 ^ 53 ∧ square.shortestPath? "a" "e" = some ["a", "d", "c", "e"] ∧
      square.cheapestPath? "a" "e" = square.shortestPath? "a" "e" := by
  have hunit : ∀ e ∈ square.edges, e.weight = 1.0 := by decide
  have hsize : square.nodes.length < 2 ^ 53 := by decide
  exact ⟨rfl, hunit, hsize, rfl, cheapestPath_eq_shortestPath square rfl hunit hsize "a" "e"⟩

end Graph

end GraphScript
