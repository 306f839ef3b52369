import GraphScript.Proofs.Graph.Frontier
import GraphScript.Proofs.Graph.Walk

/-!
# Settled slots

A slot is *settled* once an offer for it has been extended. The invariant of the search for cheapest
paths has two parts. `TrailFrontier.Sound` says what offers are: ways through settled slots, which
cost at least as much as any settled slot. So no extension makes a settled slot cheaper, and an
offer that is neither for a settled slot nor overtaken is the only one of its cost.
`TrailFrontier.Relaxed` says that entries of settled slots have been followed. From the two, every
way costs at least what its end costs, or what some offer does (`Sound.cost_le`).

Sums and comparisons are those of doubles: adding a weight never makes a cost smaller
(`IsAmount.le_units_add`), and never swaps two costs (`IsAmount.units_add_mono`). Thus a search with
rounds enough finds a cheapest way (`TrailFrontier.run_answers`).
-/

namespace GraphScript

open Double

namespace Adjacency.Way

variable {adj : Adjacency} {weight : ℕ → Float} {origin slot : ℕ} {trail : List ℕ} {cost : Float}

theorem isAmount (hweight : ∀ i, IsAmount (weight i))
    (h : adj.Way weight origin slot trail cost) : IsAmount cost := by
  induction h with
  | start => exact isAmount_zero
  | step _ _ ih => exact ih.add (hweight _)

theorem lt_of_mem (hentries : ∀ v, ∀ entry ∈ adj.entries v, entry.slot < adj.size)
    (horigin : origin < adj.size) (h : adj.Way weight origin slot trail cost) {u : ℕ}
    (hu : u ∈ slot :: trail) : u < adj.size := by
  induction h with
  | start => rwa [List.mem_singleton.1 hu]
  | step _ hentry ih =>
    rcases List.mem_cons.1 hu with rfl | hu
    · exact hentries _ _ hentry
    · exact ih hu

end Adjacency.Way

/-- What an answer to a search has to be: a cheapest way, through different slots, or none
    where all ways are infinitely expensive. -/
def Adjacency.Answers (adj : Adjacency) (weight : ℕ → Float) (origin goal : ℕ) :
    Option (List ℕ) → Prop
  | some path => ∃ trail cost, path = (goal :: trail).reverse ∧ (goal :: trail).Nodup ∧
      adj.Way weight origin goal trail cost ∧ units cost < limit ∧
      ∀ trail' cost', adj.Way weight origin goal trail' cost' → units cost ≤ units cost'
  | none => ∀ trail cost, adj.Way weight origin goal trail cost → limit ≤ units cost

/-- An offer of a search that has settled some slots, none of them above the floor. -/
structure TrailOffer.Sound (adj : Adjacency) (weight : ℕ → Float) (origin : ℕ) (settled : Finset ℕ)
    (floor : ℤ) (f : TrailFrontier) (o : TrailOffer) : Prop where
  way : adj.Way weight origin o.slot o.trail o.cost
  trail_nodup : o.trail.Nodup
  trail_settled : ∀ u ∈ o.trail, u ∈ settled
  finite : units o.cost < limit
  order_lt : o.order < f.made
  floor_le : floor ≤ units o.cost
  cost_le : units (f.cost o.slot) ≤ units o.cost
  /-- An offer left over for a settled slot has been overtaken. -/
  overtaken : o.slot ∈ settled → units (f.cost o.slot) < units o.cost

namespace TrailFrontier

open Frontier (isAmount_unreached units_unreached)

/-- A search that has settled some slots, none of them above the floor. -/
structure Sound (adj : Adjacency) (weight : ℕ → Float) (origin : ℕ) (settled : Finset ℕ)
    (floor : ℤ) (f : TrailFrontier) : Prop where
  size : f.costs.length = adj.size
  amount : ∀ v, IsAmount (f.cost v)
  origin_le : units (f.cost origin) ≤ 0
  settled_le : ∀ v ∈ settled, units (f.cost v) ≤ floor
  offers : ∀ o ∈ f.offers, o.Sound adj weight origin settled floor f
  order_inj : ∀ a ∈ f.offers, ∀ b ∈ f.offers, a.order = b.order → a = b
  /-- A slot is offered at one cost only once. -/
  cost_inj : ∀ a ∈ f.offers, ∀ b ∈ f.offers,
    a.slot = b.slot → units a.cost = units b.cost → a = b
  /-- What has been reached and is not settled still has its cheapest offer. -/
  pending : ∀ v, v ∉ settled → units (f.cost v) < limit →
    ∃ o ∈ f.offers, o.slot = v ∧ o.cost = f.cost v

/-- The entries of the settled slots have been followed. -/
def Relaxed (adj : Adjacency) (weight : ℕ → Float) (settled : Finset ℕ) (f : TrailFrontier) : Prop :=
  ∀ v ∈ settled, ∀ entry ∈ adj.entries v,
    units (f.cost entry.slot) ≤ units (f.cost v + weight entry.edge)

variable {adj : Adjacency} {weight : ℕ → Float} {origin goal : ℕ} {settled : Finset ℕ}
  {floor : ℤ} {f : TrailFrontier} {o : TrailOffer}

/-- A sound offer that makes its slot cheaper can be pushed. -/
theorem Sound.push (h : f.Sound adj weight origin settled floor) (hslot : o.slot < adj.size)
    (hamount : IsAmount o.cost) (horder : o.order = f.made)
    (hlt : units o.cost < units (f.cost o.slot))
    (ho : o.Sound adj weight origin settled floor (f.push o)) :
    (f.push o).Sound adj weight origin settled floor := by
  have hlength : o.slot < f.costs.length := h.size ▸ hslot
  have hle := cost_push_le hlength hlt
  constructor
  case size => rw [TrailFrontier.push, List.length_set, h.size]
  case amount =>
    intro v
    rw [cost_push hlength]
    split_ifs
    exacts [hamount, h.amount v]
  case origin_le => exact (hle origin).trans h.origin_le
  case settled_le => exact fun v hv => (hle v).trans (h.settled_le v hv)
  case offers =>
    intro a ha
    rcases List.mem_cons.1 ha with rfl | ha'
    · exact ho
    · have hold := h.offers a ha'
      exact { hold with
        order_lt := hold.order_lt.trans (Nat.lt_succ_self _)
        cost_le := (hle _).trans hold.cost_le
        overtaken := fun hmem => (hle _).trans_lt (hold.overtaken hmem) }
  case order_inj =>
    intro a ha b hb hab
    rcases List.mem_cons.1 ha with rfl | ha' <;> rcases List.mem_cons.1 hb with rfl | hb'
    · rfl
    · exact absurd (h.offers b hb').order_lt (by omega)
    · exact absurd (h.offers a ha').order_lt (by omega)
    · exact h.order_inj a ha' b hb' hab
  case cost_inj =>
    -- The offers there were for the slot cost more than the new one.
    intro a ha b hb hslots hcosts
    rcases List.mem_cons.1 ha with rfl | ha' <;> rcases List.mem_cons.1 hb with rfl | hb'
    · rfl
    · exact absurd (h.offers b hb').cost_le (by rw [← hslots]; omega)
    · exact absurd (h.offers a ha').cost_le (by rw [hslots]; omega)
    · exact h.cost_inj a ha' b hb' hslots hcosts
  case pending =>
    intro v hv hlimit
    rw [cost_push hlength] at hlimit ⊢
    split_ifs at hlimit ⊢ with hvo
    · exact ⟨o, List.mem_cons_self, hvo.symm, rfl⟩
    · obtain ⟨o', ho', hslot', hcost'⟩ := h.pending v hv hlimit
      exact ⟨o', List.mem_cons_of_mem _ ho', hslot', hcost'⟩

/-- A search begins with nothing settled. -/
theorem Sound.start (horigin : origin < adj.size) :
    (start adj.size origin).Sound adj weight origin ∅ 0 := by
  have hcost := cost_start horigin
  constructor
  case size => simp [TrailFrontier.start]
  case amount =>
    intro v
    rw [hcost]
    split_ifs
    exacts [isAmount_zero, isAmount_unreached]
  case origin_le => rw [hcost, if_pos rfl, units_zero]
  case settled_le => exact fun v hv => absurd hv (Finset.notMem_empty v)
  case offers =>
    intro o ho
    rw [List.mem_singleton.1 ho]
    exact {
      way := .start
      trail_nodup := List.nodup_nil
      trail_settled := fun u hu => absurd hu List.not_mem_nil
      finite := units_zero ▸ Int.natCast_pos.2 limit_pos
      order_lt := Nat.zero_lt_one
      floor_le := units_zero.ge
      cost_le := by rw [hcost, if_pos rfl]
      overtaken := fun hmem => absurd hmem (Finset.notMem_empty _) }
  case order_inj =>
    intro a ha b hb _
    rw [List.mem_singleton.1 ha, List.mem_singleton.1 hb]
  case cost_inj =>
    intro a ha b hb _ _
    rw [List.mem_singleton.1 ha, List.mem_singleton.1 hb]
  case pending =>
    intro v _ hlimit
    rw [hcost] at hlimit ⊢
    split_ifs at hlimit ⊢ with hv
    · exact ⟨_, List.mem_singleton_self _, hv.symm, rfl⟩
    · exact absurd hlimit (units_unreached ▸ lt_irrefl _)

/-- What extending an offer by some entries does to a search: no cost rises, that of a settled
    slot stays, and the entries have been followed. -/
structure Extends (adj : Adjacency) (weight : ℕ → Float) (origin : ℕ) (settled : Finset ℕ)
    (floor : ℤ) (o : TrailOffer) (entries : List Entry) (f f' : TrailFrontier) : Prop where
  sound : f'.Sound adj weight origin settled floor
  cost_le : ∀ v, units (f'.cost v) ≤ units (f.cost v)
  cost_settled : ∀ v ∈ settled, f'.cost v = f.cost v
  followed : ∀ entry ∈ entries, units (f'.cost entry.slot) ≤ units (o.cost + weight entry.edge)
  length_le : f'.offers.length ≤ f.offers.length + entries.length

/-- An offer that has just settled its slot. -/
structure Settles (adj : Adjacency) (weight : ℕ → Float) (origin : ℕ) (settled : Finset ℕ)
    (floor : ℤ) (o : TrailOffer) : Prop where
  way : adj.Way weight origin o.slot o.trail o.cost
  nodup : (o.slot :: o.trail).Nodup
  mem : ∀ u ∈ o.slot :: o.trail, u ∈ settled
  floor_le : floor ≤ units o.cost

section Extension

variable (hweight : ∀ i, IsAmount (weight i))
  (hentries : ∀ v, ∀ entry ∈ adj.entries v, entry.slot < adj.size)

include hweight

/-- No extension makes a settled slot cheaper, as it costs no more than the floor. -/
theorem Sound.notMem_of_lt (h : f.Sound adj weight origin settled floor)
    (ho : Settles adj weight origin settled floor o) {entry : Entry}
    (hlt : (o.along weight f.made entry).cost < f.cost entry.slot) : entry.slot ∉ settled := by
  have hamount := ho.way.isAmount hweight
  have hnext : IsAmount (o.along weight f.made entry).cost := hamount.add (hweight _)
  rw [lt_iff_units hnext.isNaN (h.amount _).isNaN] at hlt
  have hfloor : floor ≤ units (o.along weight f.made entry).cost :=
    ho.floor_le.trans (hamount.le_units_add (hweight _))
  exact fun hmem => absurd hlt (not_lt.2 ((h.settled_le _ hmem).trans hfloor))

include hentries

theorem Sound.extend (h : f.Sound adj weight origin settled floor)
    (ho : Settles adj weight origin settled floor o) {entry : Entry}
    (hentry : entry ∈ adj.entries o.slot) :
    Extends adj weight origin settled floor o [entry] f (f.extend weight o entry) := by
  rw [extend_eq]
  set next := o.along weight f.made entry
  have hamount : IsAmount next.cost := (ho.way.isAmount hweight).add (hweight _)
  split_ifs with hless
  · have hnew : next.slot ∉ settled := h.notMem_of_lt hweight ho hless
    have hlt : units next.cost < units (f.cost next.slot) :=
      (lt_iff_units hamount.isNaN (h.amount _).isNaN).1 hless
    have hslot : next.slot < adj.size := hentries _ _ hentry
    have hlength : next.slot < f.costs.length := h.size ▸ hslot
    have hself := congrArg units (cost_push_self hlength)
    have hfloor : floor ≤ units next.cost :=
      ho.floor_le.trans ((ho.way.isAmount hweight).le_units_add (hweight _))
    refine ⟨h.push hslot hamount rfl hlt ?_, cost_push_le hlength hlt, fun v hv => ?_, ?_, le_rfl⟩
    · exact {
        way := ho.way.step hentry
        trail_nodup := ho.nodup
        trail_settled := ho.mem
        finite := hlt.trans_le (units_le_limit _)
        order_lt := Nat.lt_succ_self _
        floor_le := hfloor
        cost_le := hself.le
        overtaken := fun hmem => absurd hmem hnew }
    · rw [cost_push hlength, if_neg fun hv' : v = next.slot => hnew (hv' ▸ hv)]
    · intro entry' hentry'
      rw [List.mem_singleton.1 hentry']
      exact hself.le
  · refine ⟨h, fun _ => le_rfl, fun _ _ => rfl, ?_, Nat.le_add_right _ _⟩
    intro entry' hentry'
    rw [lt_iff_units hamount.isNaN (h.amount _).isNaN] at hless
    rw [List.mem_singleton.1 hentry']
    exact not_lt.1 hless

theorem Sound.extend_all (h : f.Sound adj weight origin settled floor)
    (ho : Settles adj weight origin settled floor o) {entries : List Entry}
    (hsub : ∀ entry ∈ entries, entry ∈ adj.entries o.slot) :
    Extends adj weight origin settled floor o entries f
      (entries.foldl (TrailFrontier.extend weight o) f) := by
  induction entries generalizing f with
  | nil => exact ⟨h, fun _ => le_rfl, fun _ _ => rfl, fun _ h => absurd h List.not_mem_nil, le_rfl⟩
  | cons entry rest ih =>
    have hfirst := h.extend hweight hentries ho (hsub entry List.mem_cons_self)
    have hrest := ih hfirst.sound fun e he => hsub e (List.mem_cons_of_mem _ he)
    refine ⟨hrest.sound, fun v => ?_, fun v hv => ?_, ?_, ?_⟩
    · exact (hrest.cost_le v).trans (hfirst.cost_le v)
    · exact (hrest.cost_settled v hv).trans (hfirst.cost_settled v hv)
    · intro e he
      rcases List.mem_cons.1 he with rfl | he'
      · exact (hrest.cost_le _).trans (hfirst.followed _ (List.mem_singleton_self _))
      · exact hrest.followed e he'
    · have hle := hfirst.length_le
      have hle' := hrest.length_le
      rw [List.length_singleton] at hle
      rw [List.length_cons, List.foldl_cons]
      omega

end Extension

/-- An offer that has been overtaken can be dropped. -/
theorem Sound.drop (h : f.Sound adj weight origin settled floor) (ho : o ∈ f.offers)
    (hlt : units (f.cost o.slot) < units o.cost) :
    (f.drop o).Sound adj weight origin settled floor where
  size := h.size
  amount := h.amount
  origin_le := h.origin_le
  settled_le := h.settled_le
  offers a ha :=
    have hold := h.offers a (mem_drop_iff.1 ha).1
    { hold with }
  order_inj a ha b hb := h.order_inj a (mem_drop_iff.1 ha).1 b (mem_drop_iff.1 hb).1
  cost_inj a ha b hb := h.cost_inj a (mem_drop_iff.1 ha).1 b (mem_drop_iff.1 hb).1
  pending v hv hlimit := by
    -- The cheapest offer for a slot has not been overtaken, so it is another one.
    obtain ⟨a, ha, hslot, hcost⟩ := h.pending v hv hlimit
    refine ⟨a, mem_drop_iff.2 ⟨ha, fun horder => ?_⟩, hslot, hcost⟩
    obtain rfl := h.order_inj a ha o ho horder
    rw [hslot, hcost] at hlt
    exact lt_irrefl _ hlt

/-- An offer that has not been overtaken is for a slot that is not settled. -/
theorem Sound.slot_notMem (h : f.Sound adj weight origin settled floor) (ho : o ∈ f.offers)
    (hle : ¬units (f.cost o.slot) < units o.cost) : o.slot ∉ settled :=
  fun hmem => hle ((h.offers o ho).overtaken hmem)

theorem Sound.nodup (h : f.Sound adj weight origin settled floor) (ho : o ∈ f.offers)
    (hslot : o.slot ∉ settled) : (o.slot :: o.trail).Nodup :=
  List.nodup_cons.2
    ⟨fun hmem => hslot ((h.offers o ho).trail_settled _ hmem), (h.offers o ho).trail_nodup⟩

theorem Sound.settles (h : f.Sound adj weight origin settled floor) (ho : o ∈ f.offers)
    (hslot : o.slot ∉ settled) :
    Settles adj weight origin (insert o.slot settled) (units o.cost) o := by
  refine ⟨(h.offers o ho).way, h.nodup ho hslot, fun u hu => ?_, le_rfl⟩
  rcases List.mem_cons.1 hu with rfl | hu
  · exact Finset.mem_insert_self _ _
  · exact Finset.mem_insert_of_mem ((h.offers o ho).trail_settled u hu)

/-- The cheapest offer settles its slot, unless it has been overtaken. -/
theorem Sound.settle (h : f.Sound adj weight origin settled floor) (ho : o ∈ f.offers)
    (hfirst : ∀ a ∈ f.offers, units o.cost ≤ units a.cost)
    (hle : ¬units (f.cost o.slot) < units o.cost) :
    (f.drop o).Sound adj weight origin (insert o.slot settled) (units o.cost) where
  size := h.size
  amount := h.amount
  origin_le := h.origin_le
  settled_le v hv := by
    rcases Finset.mem_insert.1 hv with rfl | hv
    · exact (h.offers o ho).cost_le
    · exact (h.settled_le v hv).trans (h.offers o ho).floor_le
  offers a ha := by
    obtain ⟨ha, horder⟩ := mem_drop_iff.1 ha
    have hold := h.offers a ha
    refine { hold with
      trail_settled := fun u hu => Finset.mem_insert_of_mem (hold.trail_settled u hu)
      floor_le := hfirst a ha
      overtaken := fun hmem => ?_ }
    rcases Finset.mem_insert.1 hmem with hslot | hmem
    · -- Another offer for the slot has another cost.
      refine lt_of_le_of_ne hold.cost_le fun heq => horder ?_
      change units (f.cost a.slot) = units a.cost at heq
      have hcost := (h.offers o ho).cost_le
      rw [← hslot] at hcost hle
      rw [h.cost_inj a ha o ho hslot (by omega)]
    · exact hold.overtaken hmem
  order_inj a ha b hb := h.order_inj a (mem_drop_iff.1 ha).1 b (mem_drop_iff.1 hb).1
  cost_inj a ha b hb := h.cost_inj a (mem_drop_iff.1 ha).1 b (mem_drop_iff.1 hb).1
  pending v hv hlimit := by
    rw [Finset.mem_insert, not_or] at hv
    obtain ⟨a, ha, hslot, hcost⟩ := h.pending v hv.2 hlimit
    refine ⟨a, mem_drop_iff.2 ⟨ha, fun horder => hv.1 ?_⟩, hslot, hcost⟩
    rw [← h.order_inj a ha o ho horder, hslot]

/-- A way costs at least what has been found for its end, or else what some offer does. -/
theorem Sound.cost_le (h : f.Sound adj weight origin settled floor)
    (hrelaxed : f.Relaxed adj weight settled) (hweight : ∀ i, IsAmount (weight i))
    {slot : ℕ} {trail : List ℕ} {cost : Float} (hway : adj.Way weight origin slot trail cost) :
    units (f.cost slot) ≤ units cost ∨ ∃ o ∈ f.offers, units o.cost ≤ units cost := by
  induction hway with
  | start => exact .inl h.origin_le
  | @step slot trail cost entry hway hentry ih =>
    have hamount := hway.isAmount hweight
    have hgrow : units cost ≤ units (cost + weight entry.edge) := hamount.le_units_add (hweight _)
    rcases ih with hle | ⟨o, ho, hle⟩
    · by_cases hslot : slot ∈ settled
      · left
        calc units (f.cost entry.slot) ≤ units (f.cost slot + weight entry.edge) :=
              hrelaxed slot hslot entry hentry
          _ ≤ units (cost + weight entry.edge) :=
              (h.amount slot).units_add_mono hamount (hweight _) hle
      · -- The way leaves the settled slots here, through an offer or at infinite cost.
        by_cases hlimit : units (f.cost slot) < limit
        · obtain ⟨o, ho, _, hcost⟩ := h.pending slot hslot hlimit
          exact .inr ⟨o, ho, hcost ▸ hle.trans hgrow⟩
        · have := units_le_limit (f.cost entry.slot)
          exact .inl (by omega)
    · exact .inr ⟨o, ho, hle.trans hgrow⟩

/-- A way to a slot that is not settled costs as much as some offer, or is infinitely
    expensive. -/
theorem Sound.exists_offer_le (h : f.Sound adj weight origin settled floor)
    (hrelaxed : f.Relaxed adj weight settled) (hweight : ∀ i, IsAmount (weight i))
    {slot : ℕ} (hslot : slot ∉ settled) {trail : List ℕ} {cost : Float}
    (hway : adj.Way weight origin slot trail cost) :
    (∃ o ∈ f.offers, units o.cost ≤ units cost) ∨ limit ≤ units cost := by
  rcases h.cost_le hrelaxed hweight hway with hle | hoffer
  · by_cases hlimit : units (f.cost slot) < limit
    · obtain ⟨o, ho, _, hcost⟩ := h.pending slot hslot hlimit
      exact .inl ⟨o, ho, hcost ▸ hle⟩
    · exact .inr (by omega)
  · exact .inl hoffer

theorem Relaxed.extend_all (hrelaxed : f.Relaxed adj weight settled)
    (hweight : ∀ i, IsAmount (weight i)) (hamount : IsAmount o.cost) {f' : TrailFrontier}
    (hle : ¬units (f.cost o.slot) < units o.cost)
    (hextends : Extends adj weight origin (insert o.slot settled) floor o (adj.entries o.slot)
      (f.drop o) f') :
    f'.Relaxed adj weight (insert o.slot settled) := by
  intro v hv entry hentry
  have hcost : f'.cost v = f.cost v := hextends.cost_settled v hv
  rcases Finset.mem_insert.1 hv with rfl | hv'
  · calc units (f'.cost entry.slot) ≤ units (o.cost + weight entry.edge) :=
          hextends.followed entry hentry
      _ ≤ units (f'.cost o.slot + weight entry.edge) :=
          hamount.units_add_mono (hextends.sound.amount _) (hweight _) (hcost ▸ not_lt.1 hle)
  · rw [hcost]
    exact (hextends.cost_le entry.slot).trans (hrelaxed v hv' entry hentry)

theorem Sound.answers_none (h : f.Sound adj weight origin settled floor)
    (hrelaxed : f.Relaxed adj weight settled) (hweight : ∀ i, IsAmount (weight i))
    (hgoal : goal ∉ settled) (hempty : f.offers = []) : adj.Answers weight origin goal none := by
  intro trail cost hway
  rcases h.exists_offer_le hrelaxed hweight hgoal hway with ⟨o, ho, _⟩ | hlimit
  · rw [hempty] at ho
    exact absurd ho List.not_mem_nil
  · exact hlimit

theorem Sound.answers_some (h : f.Sound adj weight origin settled floor)
    (hrelaxed : f.Relaxed adj weight settled) (hweight : ∀ i, IsAmount (weight i))
    (ho : o ∈ f.offers) (hfirst : ∀ a ∈ f.offers, units o.cost ≤ units a.cost)
    (hslot : o.slot ∉ settled) : adj.Answers weight origin o.slot (some o.path) := by
  have hsound := h.offers o ho
  refine ⟨o.trail, o.cost, rfl, h.nodup ho hslot, hsound.way, hsound.finite, ?_⟩
  intro trail cost hway
  rcases h.exists_offer_le hrelaxed hweight hslot hway with ⟨a, ha, hle⟩ | hlimit
  · exact (hfirst a ha).trans hle
  · exact hsound.finite.le.trans hlimit

section Run

variable (hweight : ∀ i, IsAmount (weight i))
  (hentries : ∀ v, ∀ entry ∈ adj.entries v, entry.slot < adj.size) (horigin : origin < adj.size)

include hweight hentries horigin

/-- A search with rounds for its offers and the load left finds what it looks for.

    By induction on the rounds: each takes an offer away, and those it makes are taken off
    the load. -/
theorem run_answers {rounds : ℕ} (h : f.Sound adj weight origin settled floor)
    (hrelaxed : f.Relaxed adj weight settled) (hgoal : goal ∉ settled)
    (hrounds : f.offers.length + adj.load settled ≤ rounds) :
    adj.Answers weight origin goal (run adj weight goal rounds f) := by
  induction rounds generalizing settled floor f with
  | zero => exact h.answers_none hrelaxed hweight hgoal (List.length_eq_zero_iff.1 (by omega))
  | succ rounds ih =>
    cases hfirst : TrailOffer.first? f.offers with
    | none =>
      have hempty := TrailOffer.first?_eq_none_iff.1 hfirst
      rw [run_of_offers_eq_nil _ hempty]
      exact h.answers_none hrelaxed hweight hgoal hempty
    | some o =>
      have hamounts : ∀ a ∈ f.offers, IsAmount a.cost :=
        fun a ha => (h.offers a ha).way.isAmount hweight
      obtain ⟨ho, hleast⟩ := TrailOffer.first?_eq_some hamounts hfirst
      have hmin : ∀ a ∈ f.offers, units o.cost ≤ units a.cost := fun a ha => (hleast a ha).1
      have hamount := hamounts o ho
      have hdrop := length_drop_lt ho
      rw [run_succ rounds hfirst]
      split_ifs with hslot hlt
      · -- The goal is tested first; an overtaken offer for it is never the cheapest.
        rw [← hslot] at hgoal ⊢
        exact h.answers_some hrelaxed hweight ho hmin hgoal
      · rw [lt_iff_units (h.amount _).isNaN hamount.isNaN] at hlt
        exact ih (h.drop ho hlt) hrelaxed hgoal (by omega)
      · rw [lt_iff_units (h.amount _).isNaN hamount.isNaN] at hlt
        have hnew := h.slot_notMem ho hlt
        have hextends := (h.settle ho hmin hlt).extend_all hweight hentries (h.settles ho hnew)
          (fun _ hentry => hentry)
        have hload := Adjacency.load_insert ((h.offers o ho).way.lt_of_mem hentries horigin
          List.mem_cons_self) hnew
        have hlength := hextends.length_le
        refine ih hextends.sound (hrelaxed.extend_all hweight hamount hlt hextends) ?_ (by omega)
        rw [Finset.mem_insert, not_or]
        exact ⟨Ne.symm hslot, hgoal⟩

theorem start_answers (hsize : adj.slots.length = adj.size) :
    adj.Answers weight origin goal
      (run adj weight goal (adj.slots.flatten.length + 1) (start adj.size origin)) := by
  refine run_answers hweight hentries horigin (Sound.start horigin) ?_ (Finset.notMem_empty goal) ?_
  · exact fun v hv => absurd hv (Finset.notMem_empty v)
  · rw [Adjacency.load_empty hsize]
    exact (Nat.add_comm _ _).le

end Run

end TrailFrontier

end GraphScript
