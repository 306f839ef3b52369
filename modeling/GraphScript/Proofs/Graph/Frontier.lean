import GraphScript.Graph.CheapestPath
import GraphScript.Proofs.Double.Sum
import GraphScript.Proofs.Graph.Adjacency

/-!
# Steps of the search for cheapest paths

The search told with the way to each offer: a `TrailOffer` keeps its trail, and a `TrailFrontier`
has offers with trails in the place of the slots previous to each other. That the trails are what
the previous slots lead to is shown in `GraphScript.Proofs.Graph.Previous`. What the single steps
of a search do, whatever its weights are for:

* `TrailOffer.first?_eq_some`: the offer taken is the cheapest, the oldest of several;
* `TrailFrontier.extend_eq`: an extension pushes one offer, or does nothing;
* `TrailFrontier.mem_drop_iff`: the offer taken leaves, and no other;
* `TrailFrontier.run_succ`: a round of the search in these terms.
-/

namespace GraphScript

open Double

/-! ### Offers -/

theorem Offer.precedes_iff {a b : Offer} (ha : IsAmount a.cost) (hb : IsAmount b.cost) :
    a.precedes b = true ↔
      units a.cost < units b.cost ∨ (units a.cost = units b.cost ∧ a.order < b.order) := by
  rw [precedes, Bool.or_eq_true, Bool.and_eq_true, decide_eq_true_iff, decide_eq_true_iff,
    lt_iff_units ha.isNaN hb.isNaN, beq_iff_units ha.isNaN hb.isNaN]

/-- An offer with the way to its slot. -/
structure TrailOffer extends Offer where
  /-- The slots on the way from the origin, the last one first. -/
  trail : List ℕ

namespace TrailOffer

/-- The offer to be taken next. -/
def first? : List TrailOffer → Option TrailOffer
  | [] => none
  | offer :: rest =>
    match first? rest with
    | some other => if other.precedes offer.toOffer then some other else some offer
    | none => some offer

/-- The slots from the origin to the offered one. -/
def path (o : TrailOffer) : List ℕ :=
  (o.slot :: o.trail).reverse

variable {o : TrailOffer} {offers : List TrailOffer}

/-- Trails do not matter for what is taken next. -/
theorem first?_map (offers : List TrailOffer) :
    Offer.first? (offers.map (·.toOffer)) = (first? offers).map (·.toOffer) := by
  induction offers with
  | nil => rfl
  | cons offer rest ih =>
    rw [List.map_cons, Offer.first?, ih, first?]
    cases first? rest with
    | none => rfl
    | some other =>
      dsimp only [Option.map_some]
      split_ifs <;> rfl

theorem first?_eq_none_iff : first? offers = none ↔ offers = [] := by
  cases offers with
  | nil => simp [first?]
  | cons offer rest =>
    rw [first?]
    split
    · split_ifs <;> simp
    · simp

/-- The offer taken is the least by cost and, among equal costs, by order. -/
theorem first?_eq_some (hamount : ∀ o ∈ offers, IsAmount o.cost) (h : first? offers = some o) :
    o ∈ offers ∧ ∀ o' ∈ offers, units o.cost ≤ units o'.cost ∧
      (units o.cost = units o'.cost → o.order ≤ o'.order) := by
  induction offers generalizing o with
  | nil => cases h
  | cons offer rest ih =>
    have hoffer := hamount offer List.mem_cons_self
    rw [first?] at h
    cases hrest : first? rest with
    | none =>
      rw [hrest] at h
      cases h
      rw [first?_eq_none_iff.1 hrest]
      refine ⟨List.mem_singleton_self _, fun o' ho' => ?_⟩
      rw [List.mem_singleton.1 ho']
      exact ⟨le_rfl, fun _ => le_rfl⟩
    | some other =>
      rw [hrest] at h
      obtain ⟨hmem, hleast⟩ := ih (fun o ho => hamount o (List.mem_cons_of_mem _ ho)) hrest
      have hother := hamount other (List.mem_cons_of_mem _ hmem)
      dsimp only at h
      split_ifs at h with hprecedes
      all_goals rw [Offer.precedes_iff hother hoffer] at hprecedes
      · -- The first of the rest stays, and is before the new offer too.
        cases h
        refine ⟨List.mem_cons_of_mem _ hmem, fun o' ho' => ?_⟩
        rcases List.mem_cons.1 ho' with rfl | ho'
        · omega
        · exact hleast o' ho'
      · cases h
        refine ⟨List.mem_cons_self, fun o' ho' => ?_⟩
        rcases List.mem_cons.1 ho' with rfl | ho'
        · exact ⟨le_rfl, fun _ => le_rfl⟩
        · have := hleast o' ho'
          omega

/-- The offer that an entry of the slot makes. -/
def along (weight : ℕ → Float) (o : TrailOffer) (order : ℕ) (entry : Entry) : TrailOffer where
  cost := o.cost + weight entry.edge
  order := order
  slot := entry.slot
  trail := o.slot :: o.trail

end TrailOffer

/-! ### Frontiers -/

namespace Frontier

theorem unpack_unreached : unreached.toModel.unpack = .infinity .positive := rfl

theorem units_unreached : units unreached = limit :=
  units_of_infinite unpack_unreached

theorem isAmount_unreached : IsAmount unreached :=
  ⟨rfl, units_unreached ▸ Int.natCast_nonneg _⟩

/-- The costs below that of a slot without an offer are the finite ones. -/
theorem lt_unreached_iff {cost : Float} (h : IsAmount cost) :
    cost < unreached ↔ cost.isFinite = true := by
  rw [lt_iff_units h.isNaN isAmount_unreached.isNaN, units_unreached]
  constructor
  · intro hlt
    rcases h.finite_or_infinite with hfinite | hinfinite
    · exact hfinite
    · exact absurd (units_of_infinite hinfinite) hlt.ne
  · exact fun hfinite => (unitsOf_mem_limits (isCanonical_unpack _) hfinite).2

end Frontier

/-- The state of the search, with the ways to its offers. -/
structure TrailFrontier where
  /-- The least cost offered so far for each slot, infinite at first. -/
  costs : List Float
  /-- The offers not yet taken. -/
  offers : List TrailOffer
  /-- The number of offers made so far. -/
  made : ℕ

namespace TrailFrontier

open Frontier (unreached)

/-- The least cost offered for a slot. -/
def cost (f : TrailFrontier) (slot : ℕ) : Float :=
  f.costs.getD slot unreached

/-- The first offer, for the origin. -/
def start (size origin : ℕ) : TrailFrontier where
  costs := (List.replicate size unreached).set origin 0.0
  offers := [{ cost := 0.0, order := 0, slot := origin, trail := [] }]
  made := 1

/-- Extends an offer by an entry of its slot, if that makes the slot cheaper. -/
def extend (weight : ℕ → Float) (o : TrailOffer) (f : TrailFrontier) (entry : Entry) :
    TrailFrontier :=
  let cost := o.cost + weight entry.edge
  if cost < f.cost entry.slot then
    { costs := f.costs.set entry.slot cost
      offers := { cost := cost, order := f.made, slot := entry.slot, trail := o.slot :: o.trail } ::
        f.offers
      made := f.made + 1 }
  else f

/-- The way to the goal, looked for in at most the given number of offers. -/
def run (adj : Adjacency) (weight : ℕ → Float) (goal : ℕ) : ℕ → TrailFrontier → Option (List ℕ)
  | 0, _ => none
  | rounds + 1, f =>
    match TrailOffer.first? f.offers with
    | none => none
    | some o =>
      if o.slot = goal then some o.path
      else
        let f := { f with offers := f.offers.filter (·.order != o.order) }
        if f.cost o.slot < o.cost then run adj weight goal rounds f
        else run adj weight goal rounds ((adj.entries o.slot).foldl (extend weight o) f)

variable {f : TrailFrontier} {o : TrailOffer}

/-- The frontier with one more offer, which is the cheapest for its slot. -/
def push (o : TrailOffer) (f : TrailFrontier) : TrailFrontier where
  costs := f.costs.set o.slot o.cost
  offers := o :: f.offers
  made := f.made + 1

theorem cost_push (h : o.slot < f.costs.length) (v : ℕ) :
    (f.push o).cost v = if v = o.slot then o.cost else f.cost v := by
  rw [cost, cost, push, List.getD_eq_getElem?_getD, List.getD_eq_getElem?_getD]
  split_ifs with hv
  · rw [hv, List.getElem?_set_self h]
    rfl
  · rw [List.getElem?_set_ne (Ne.symm hv)]

theorem cost_push_self (h : o.slot < f.costs.length) : (f.push o).cost o.slot = o.cost := by
  rw [cost_push h, if_pos rfl]

/-- A cheaper offer raises no cost. -/
theorem cost_push_le (h : o.slot < f.costs.length) (hlt : units o.cost < units (f.cost o.slot))
    (v : ℕ) : units ((f.push o).cost v) ≤ units (f.cost v) := by
  rw [cost_push h]
  split_ifs with hv
  · exact hv ▸ hlt.le
  · exact le_rfl

theorem extend_eq (weight : ℕ → Float) (entry : Entry) :
    f.extend weight o entry =
      if (o.along weight f.made entry).cost < f.cost entry.slot then
        f.push (o.along weight f.made entry)
      else f :=
  rfl

/-- The frontier without an offer. -/
def drop (o : TrailOffer) (f : TrailFrontier) : TrailFrontier :=
  { f with offers := f.offers.filter (·.order != o.order) }

theorem mem_drop_iff {o' : TrailOffer} :
    o' ∈ (f.drop o).offers ↔ o' ∈ f.offers ∧ o'.order ≠ o.order := by
  simp [drop]

theorem length_drop_lt (ho : o ∈ f.offers) : (f.drop o).offers.length < f.offers.length := by
  rw [drop, List.length_filter_lt_length_iff_exists]
  exact ⟨o, ho, by simp⟩

theorem cost_start {size origin : ℕ} (h : origin < size) (v : ℕ) :
    (start size origin).cost v = if v = origin then 0.0 else unreached := by
  rw [cost, start, List.getD_eq_getElem?_getD]
  split_ifs with hv
  · rw [hv, List.getElem?_set_self (by rwa [List.length_replicate])]
    rfl
  · rw [List.getElem?_set_ne (Ne.symm hv), List.getElem?_replicate]
    split_ifs <;> rfl

section Run

variable {adj : Adjacency} {weight : ℕ → Float} {goal : ℕ}

theorem run_of_offers_eq_nil (rounds : ℕ) (h : f.offers = []) :
    run adj weight goal rounds f = none := by
  cases rounds with
  | zero => rfl
  | succ rounds => rw [run, h]; rfl

/-- A round takes an offer. It ends the search, or is overtaken, or is extended. -/
theorem run_succ (rounds : ℕ) (hfirst : TrailOffer.first? f.offers = some o) :
    run adj weight goal (rounds + 1) f =
      if o.slot = goal then some o.path
      else if f.cost o.slot < o.cost then run adj weight goal rounds (f.drop o)
      else
        run adj weight goal rounds ((adj.entries o.slot).foldl (extend weight o) (f.drop o)) := by
  rw [run, hfirst]
  rfl

end Run

end TrailFrontier

end GraphScript
