import GraphScript.Proofs.Graph.Parents
import GraphScript.Proofs.Graph.Settling

/-!
# Previous slots

The search for cheapest paths keeps one array with the slot previous to each slot, and overwrites it
whenever a slot becomes cheaper. Told with trails (`TrailFrontier`), every offer keeps its own way.
The two give the same answer (`TrailFrontier.run_untrailed`), where weights are not negative:

* a slot of a trail is settled, so it never becomes cheaper again, and what is previous to it stays;
* an offer that has not been overtaken is the one that its slot was last made cheaper by.

So from the slot of such an offer, the previous slots lead back along its trail to the origin
(`TrailFrontier.Backed`). When the goal is taken, its offer has not been overtaken, although the
search does not look at that: among the offers for a slot, the last one made is the cheapest.
-/

namespace GraphScript

open Double

namespace TrailFrontier

variable {adj : Adjacency} {weight : ℕ → Float} {origin goal : ℕ} {settled : Finset ℕ}
  {floor : ℤ} {f : TrailFrontier} {o : TrailOffer} {previous : List (Option ℕ)}

/-- The frontier with previous slots in the place of trails. -/
def untrailed (f : TrailFrontier) (previous : List (Option ℕ)) : Frontier where
  costs := f.costs
  previous := previous
  offers := f.offers.map (·.toOffer)
  made := f.made

/-- Along the trails, each slot has the next one previous to it. So has the slot of an offer that
    has not been overtaken. -/
structure Backed (size : ℕ) (f : TrailFrontier) (previous : List (Option ℕ)) : Prop where
  length_eq : previous.length = size
  trails : ∀ o ∈ f.offers, LeadsBack previous o.trail
  cheapest : ∀ o ∈ f.offers, units o.cost = units (f.cost o.slot) →
    previous.getD o.slot none = o.trail.head?

theorem Backed.leadsBack (h : f.Backed adj.size previous) (ho : o ∈ f.offers)
    (hcost : units o.cost = units (f.cost o.slot)) : LeadsBack previous (o.slot :: o.trail) :=
  ⟨h.cheapest o ho hcost, h.trails o ho⟩

theorem Backed.start {size : ℕ} : (start size origin).Backed size (List.replicate size none) where
  length_eq := List.length_replicate
  trails o ho := by
    rw [List.mem_singleton.1 ho]
    exact trivial
  cheapest o ho _ := by
    rw [List.mem_singleton.1 ho]
    exact getD_replicate _ _ _

theorem Backed.drop (h : f.Backed adj.size previous) (o : TrailOffer) :
    (f.drop o).Backed adj.size previous where
  length_eq := h.length_eq
  trails a ha := h.trails a (mem_drop_iff.1 ha).1
  cheapest a ha := h.cheapest a (mem_drop_iff.1 ha).1

theorem drop_untrailed (f : TrailFrontier) (o : TrailOffer) (previous : List (Option ℕ)) :
    { f.untrailed previous with
      offers := (f.untrailed previous).offers.filter (·.order != o.order) } =
      (f.drop o).untrailed previous := by
  simp only [untrailed, TrailFrontier.drop, List.filter_map]
  rfl

/-! ### Extensions -/

section Extension

variable (hweight : ∀ i, IsAmount (weight i))
  (hentries : ∀ v, ∀ entry ∈ adj.entries v, entry.slot < adj.size)

include hweight hentries

/-- An extension by an entry makes the slot of the offer previous to that of the entry, or does
    nothing. In either case the trails are as before. -/
theorem Backed.extend (hsound : f.Sound adj weight origin settled floor)
    (ho : Settles adj weight origin settled floor o) (h : f.Backed adj.size previous)
    (hback : LeadsBack previous (o.slot :: o.trail)) {entry : Entry}
    (hentry : entry ∈ adj.entries o.slot) : ∃ previous',
      (f.untrailed previous).extend weight o.toOffer entry =
        (f.extend weight o entry).untrailed previous' ∧
      (f.extend weight o entry).Backed adj.size previous' ∧
      LeadsBack previous' (o.slot :: o.trail) := by
  set next := o.along weight f.made entry with hnext
  by_cases hlt : next.cost < f.cost entry.slot
  · have hnew := hsound.notMem_of_lt hweight ho hlt
    have hslot : entry.slot < adj.size := hentries _ _ hentry
    have hset {way : List ℕ} (hway : LeadsBack previous way) (hmem : ∀ u ∈ way, u ∈ settled) :
        LeadsBack (previous.set entry.slot (some o.slot)) way :=
      hway.set (fun hin => hnew (hmem _ hin)) _
    have hextend : f.extend weight o entry = f.push next := by rw [extend_eq, if_pos hlt]
    refine ⟨previous.set entry.slot (some o.slot), ?_, ?_, hset hback ho.mem⟩
    · rw [hextend]
      exact if_pos hlt
    · rw [hextend]
      have hlength : next.slot < f.costs.length := hsound.size ▸ hslot
      refine ⟨by rw [List.length_set, h.length_eq], fun a ha => ?_, fun a ha hcost => ?_⟩
      · rcases List.mem_cons.1 ha with rfl | ha
        · exact hset hback ho.mem
        · exact hset (h.trails a ha) (hsound.offers a ha).trail_settled
      · rcases List.mem_cons.1 ha with rfl | ha
        · exact getD_set_self (h.length_eq ▸ hslot) _ _
        · rw [cost_push hlength] at hcost
          by_cases hsame : a.slot = next.slot
          · -- An older offer for the slot has been overtaken.
            have hamount : IsAmount next.cost := (ho.way.isAmount hweight).add (hweight _)
            rw [lt_iff_units hamount.isNaN (hsound.amount _).isNaN] at hlt
            have hle := (hsound.offers a ha).cost_le
            rw [if_pos hsame] at hcost
            rw [hsame] at hle
            exact absurd hle (not_le.2 (hcost ▸ hlt))
          · rw [if_neg hsame] at hcost
            exact (getD_set_ne (Ne.symm hsame) _ _).trans (h.cheapest a ha hcost)
  · refine ⟨previous, ?_, ?_, hback⟩
    · rw [extend_eq, if_neg hlt]
      exact if_neg hlt
    · rwa [extend_eq, if_neg hlt]

theorem Backed.extend_all (hsound : f.Sound adj weight origin settled floor)
    (ho : Settles adj weight origin settled floor o) (h : f.Backed adj.size previous)
    (hback : LeadsBack previous (o.slot :: o.trail)) {entries : List Entry}
    (hsub : ∀ entry ∈ entries, entry ∈ adj.entries o.slot) : ∃ previous',
      entries.foldl (Frontier.extend weight o.toOffer) (f.untrailed previous) =
        (entries.foldl (TrailFrontier.extend weight o) f).untrailed previous' ∧
      (entries.foldl (TrailFrontier.extend weight o) f).Backed adj.size previous' := by
  induction entries generalizing f previous with
  | nil => exact ⟨previous, rfl, h⟩
  | cons entry rest ih =>
    obtain ⟨hentry, hrest⟩ := List.forall_mem_cons.1 hsub
    obtain ⟨previous', heq, hbacked, hback'⟩ := h.extend hweight hentries hsound ho hback hentry
    have hextends := hsound.extend hweight hentries ho hentry
    rw [List.foldl_cons, List.foldl_cons, heq]
    exact ih hextends.sound hbacked hback' hrest

end Extension

/-! ### The search -/

/-- The first offer for a slot that is not settled has not been overtaken. -/
theorem Sound.cost_eq_of_first (h : f.Sound adj weight origin settled floor) (ho : o ∈ f.offers)
    (hfirst : ∀ a ∈ f.offers, units o.cost ≤ units a.cost) (hslot : o.slot ∉ settled) :
    units o.cost = units (f.cost o.slot) := by
  have hle := (h.offers o ho).cost_le
  obtain ⟨a, ha, -, hcost⟩ := h.pending o.slot hslot (hle.trans_lt (h.offers o ho).finite)
  exact le_antisymm (hcost ▸ hfirst a ha) hle

theorem Backed.unwind (hentries : ∀ v, ∀ entry ∈ adj.entries v, entry.slot < adj.size)
    (horigin : origin < adj.size) (hsound : f.Sound adj weight origin settled floor)
    (h : f.Backed adj.size previous) (ho : o ∈ f.offers) (hslot : o.slot ∉ settled)
    (hcost : units o.cost = units (f.cost o.slot)) : unwind previous o.slot = o.path := by
  refine unwind_eq (h.leadsBack ho hcost) (hsound.nodup ho hslot) fun u hu => ?_
  rw [h.length_eq]
  exact (hsound.offers o ho).way.lt_of_mem hentries horigin hu

/-- The search that keeps previous slots finds what the search that keeps trails does.

    By induction on the rounds, in which the two take the same offers. -/
theorem run_untrailed (hweight : ∀ i, IsAmount (weight i))
    (hentries : ∀ v, ∀ entry ∈ adj.entries v, entry.slot < adj.size) (horigin : origin < adj.size)
    {rounds : ℕ} (hsound : f.Sound adj weight origin settled floor)
    (h : f.Backed adj.size previous) (hgoal : goal ∉ settled) :
    Frontier.run adj weight goal rounds (f.untrailed previous) = run adj weight goal rounds f := by
  induction rounds generalizing settled floor f previous with
  | zero => rfl
  | succ rounds ih =>
    have hfirst_eq : Offer.first? (f.untrailed previous).offers =
        (TrailOffer.first? f.offers).map (·.toOffer) := TrailOffer.first?_map f.offers
    cases hfirst : TrailOffer.first? f.offers with
    | none =>
      rw [run_of_offers_eq_nil _ (TrailOffer.first?_eq_none_iff.1 hfirst), Frontier.run, hfirst_eq,
        hfirst]
      rfl
    | some o =>
      have hamounts : ∀ a ∈ f.offers, IsAmount a.cost :=
        fun a ha => (hsound.offers a ha).way.isAmount hweight
      obtain ⟨ho, hleast⟩ := TrailOffer.first?_eq_some hamounts hfirst
      have hmin : ∀ a ∈ f.offers, units o.cost ≤ units a.cost := fun a ha => (hleast a ha).1
      have hround : Frontier.run adj weight goal (rounds + 1) (f.untrailed previous) =
          if o.slot = goal then some (unwind previous goal)
          else if f.cost o.slot < o.cost then
            Frontier.run adj weight goal rounds ((f.drop o).untrailed previous)
          else Frontier.run adj weight goal rounds ((adj.entries o.slot).foldl
            (Frontier.extend weight o.toOffer) ((f.drop o).untrailed previous)) := by
        rw [Frontier.run, hfirst_eq, hfirst, ← drop_untrailed]
        rfl
      rw [hround, run_succ rounds hfirst]
      split_ifs with hslot hlt
      · rw [← hslot] at hgoal
        rw [← hslot, h.unwind hentries horigin hsound ho hgoal
          (hsound.cost_eq_of_first ho hmin hgoal)]
      · rw [lt_iff_units (hsound.amount _).isNaN (hamounts o ho).isNaN] at hlt
        exact ih (hsound.drop ho hlt) (h.drop o) hgoal
      · rw [lt_iff_units (hsound.amount _).isNaN (hamounts o ho).isNaN] at hlt
        have hnew := hsound.slot_notMem ho hlt
        have hsettles := hsound.settles ho hnew
        have hsettled := hsound.settle ho hmin hlt
        have hcost := hsound.cost_eq_of_first ho hmin hnew
        obtain ⟨previous', heq, hbacked⟩ := (h.drop o).extend_all hweight hentries hsettled hsettles
          (h.leadsBack ho hcost) fun _ hentry => hentry
        have hextends := hsettled.extend_all hweight hentries hsettles fun _ hentry => hentry
        rw [heq]
        refine ih hextends.sound hbacked ?_
        rw [Finset.mem_insert, not_or]
        exact ⟨Ne.symm hslot, hgoal⟩

theorem run_start (hweight : ∀ i, IsAmount (weight i))
    (hentries : ∀ v, ∀ entry ∈ adj.entries v, entry.slot < adj.size) (horigin : origin < adj.size)
    (goal rounds : ℕ) :
    Frontier.run adj weight goal rounds (Frontier.start adj.size origin) =
      run adj weight goal rounds (start adj.size origin) :=
  run_untrailed hweight hentries horigin (Sound.start horigin) .start (Finset.notMem_empty goal)

end TrailFrontier

end GraphScript
