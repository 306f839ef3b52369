import GraphScript.Graph.Checks
import GraphScript.Proofs.Graph.Parents
import GraphScript.Proofs.Graph.Tracks
import Mathlib.Algebra.GroupWithZero.Nat
import Mathlib.Algebra.Order.BigOperators.Group.Finset

/-!
# The check for cycles

The check descends from slot to slot, and the links that it enters slots by are its *tree*. What it
keeps (`Descent.Sound`):

* the tree is a forest, as a slot that is entered is at none of its links yet, and it connects the
  slots of the stack;
* the links of the entries that have been looked at are in the tree, and at a slot of the stack
  there are no others in the tree, apart from the one that it was entered by.

So an entry to a slot of the stack, by an edge other than that, is a link outside of the tree
between slots that the tree connects: the links are no forest (`Sound.not_forest`). An entry to a
slot that has been left is in the tree already, since it has been looked at from the other end. When
all slots have been left, the tree thus has all links (`Sound.forest_links`).

Each round looks at an entry or leaves a slot, and the entries and slots that are left for this are
counted (`Descent.work`), so the rounds are enough. Hence the check succeeds exactly when the links
are a forest (`Graph.isAcyclic_iff_forest`).
-/

namespace GraphScript

open Adjacency

theorem Graph.mem_entries_iff_link {g : Graph} {slot : ℕ} {entry : Entry} :
    entry ∈ (undirected g).entries slot ↔
      ∃ l ∈ g.links, l.edge = entry.edge ∧ l.Joins slot entry.slot := by
  rw [undirected, mem_entries_iff]
  constructor
  · rintro ⟨e, he, ⟨hsource, htarget⟩ | ⟨-, htarget, hsource⟩⟩
    · exact ⟨⟨slot, entry.slot, entry.edge⟩, mem_links_iff.2 ⟨e, he, hsource, htarget⟩, rfl,
        .inl ⟨rfl, rfl⟩⟩
    · exact ⟨⟨entry.slot, slot, entry.edge⟩, mem_links_iff.2 ⟨e, he, hsource, htarget⟩, rfl,
        .inr ⟨rfl, rfl⟩⟩
  · rintro ⟨l, hl, hedge, hjoins⟩
    obtain ⟨e, he, hsource, htarget⟩ := mem_links_iff.1 hl
    refine ⟨e, hedge ▸ he, ?_⟩
    rw [hsource, htarget]
    obtain ⟨hslot, hslot'⟩ | ⟨hslot', hslot⟩ := hjoins
    · exact .inl ⟨congrArg some hslot, congrArg some hslot'⟩
    · exact .inr ⟨rfl, congrArg some hslot, congrArg some hslot'⟩

/-- What no link is at is connected to itself only. -/
theorem Connected.eq_of_untouched {links : List Link} {a b : ℕ} (h : Connected links a b)
    (hb : ∀ l ∈ links, l.source ≠ b ∧ l.target ≠ b) : a = b := by
  cases h with
  | refl => rfl
  | tail _ hlinked =>
    obtain ⟨l, hl, ⟨-, htarget⟩ | ⟨hsource, -⟩⟩ := hlinked
    exacts [absurd htarget (hb l hl).2, absurd hsource (hb l hl).1]

/-- The tree has the links that a slot of the stack has been entered by and looked along, and no
    others at this slot. -/
structure Station.Sound (g : Graph) (tree : List Link) (s : Station) : Prop where
  arrived : ∀ edge, s.arrivedBy = some edge → ∃ l ∈ tree, l.edge = edge
  passed : ∀ entry ∈ ((undirected g).entries s.slot).take s.cursor, ∃ l ∈ tree, l.edge = entry.edge
  taken : ∀ l ∈ tree, l.source = s.slot ∨ l.target = s.slot → s.arrivedBy = some l.edge ∨
    ∃ entry ∈ ((undirected g).entries s.slot).take s.cursor, entry.edge = l.edge

/-! ### Stations -/

namespace Station

variable {g : Graph} {tree : List Link} {s : Station} {entry : Entry} {l : Link}

theorem take_succ_of_getElem? {entries : List Entry} {cursor : ℕ}
    (hentry : entries[cursor]? = some entry) :
    entries.take (cursor + 1) = entries.take cursor ++ [entry] := by
  rw [List.take_add_one, hentry]
  rfl

/-- An entry whose link is in the tree may be passed by. -/
theorem Sound.pass (h : s.Sound g tree)
    (hentry : ((undirected g).entries s.slot)[s.cursor]? = some entry)
    (hlink : ∃ l ∈ tree, l.edge = entry.edge) :
    { s with cursor := s.cursor + 1 : Station }.Sound g tree where
  arrived := h.arrived
  passed e he := by
    rw [take_succ_of_getElem? hentry] at he
    rcases List.mem_append.1 he with he | he
    · exact h.passed e he
    · rwa [List.mem_singleton.1 he]
  taken l hl hat := by
    refine (h.taken l hl hat).imp_right fun ⟨e, he, hedge⟩ => ⟨e, ?_, hedge⟩
    rw [take_succ_of_getElem? hentry]
    exact List.mem_append_left _ he

theorem exists_edge_concat {edge : ℕ} (h : ∃ l ∈ tree, l.edge = edge) (l : Link) :
    ∃ l' ∈ tree ++ [l], l'.edge = edge := by
  obtain ⟨l', hl', hedge⟩ := h
  exact ⟨l', List.mem_append_left _ hl', hedge⟩

/-- The tree may grow by a link at other slots. -/
theorem Sound.of_untouched (h : s.Sound g tree) (hl : l.source ≠ s.slot ∧ l.target ≠ s.slot) :
    s.Sound g (tree ++ [l]) where
  arrived edge heq := exists_edge_concat (h.arrived edge heq) l
  passed e he := exists_edge_concat (h.passed e he) l
  taken l' hl' hat := by
    rcases List.mem_append.1 hl' with hl' | hl'
    · exact h.taken l' hl' hat
    · rw [List.mem_singleton.1 hl'] at hat
      exact absurd hat (not_or.2 hl)

/-- The tree may grow by the link of the next entry. -/
theorem Sound.take (h : s.Sound g tree)
    (hentry : ((undirected g).entries s.slot)[s.cursor]? = some entry) (hedge : l.edge = entry.edge) :
    { s with cursor := s.cursor + 1 : Station }.Sound g (tree ++ [l]) where
  arrived edge heq := exists_edge_concat (h.arrived edge heq) l
  passed e he := by
    rw [take_succ_of_getElem? hentry] at he
    rcases List.mem_append.1 he with he | he
    · exact exists_edge_concat (h.passed e he) l
    · rw [List.mem_singleton.1 he, ← hedge]
      exact ⟨l, by simp, rfl⟩
  taken l' hl' hat := by
    rw [take_succ_of_getElem? hentry]
    rcases List.mem_append.1 hl' with hl' | hl'
    · exact (h.taken l' hl' hat).imp_right fun ⟨e, he, hedge⟩ =>
        ⟨e, List.mem_append_left _ he, hedge⟩
    · rw [List.mem_singleton.1 hl']
      exact .inr ⟨entry, by simp, hedge.symm⟩

/-- A slot at which the tree has no links may be entered by a link. -/
theorem Sound.first {slot : ℕ} (h : ∀ l' ∈ tree, l'.source ≠ slot ∧ l'.target ≠ slot) :
    Sound g (tree ++ [l]) ⟨slot, some l.edge, 0⟩ where
  arrived edge heq := ⟨l, by simp, Option.some_inj.1 heq⟩
  passed e he := absurd he List.not_mem_nil
  taken l' hl' hat := by
    rcases List.mem_append.1 hl' with hl' | hl'
    · exact absurd hat (not_or.2 (h l' hl'))
    · exact .inl (congrArg _ (congrArg _ (List.mem_singleton.1 hl').symm))

/-- The entries of a slot that are left to look at, and the slot that is left to leave. -/
def work (g : Graph) (s : Station) : ℕ :=
  ((undirected g).entries s.slot).length - s.cursor + 1

end Station

namespace Descent

/-- The slot has been entered. -/
def Visited (d : Descent) (slot : ℕ) : Prop :=
  d.visited.getD slot false = true

/-- The marks of a descent fit its stack: the slots of the stack are different, they have been
    entered, and they are those that are marked as being on it. -/
structure Marks (g : Graph) (d : Descent) : Prop where
  length_visited : d.visited.length = g.nodes.length
  length_onStack : d.onStack.length = g.nodes.length
  onStack_iff : ∀ slot, d.onStack.getD slot false = true ↔ slot ∈ d.stack.map (·.slot)
  nodup : (d.stack.map (·.slot)).Nodup
  visited : ∀ slot ∈ d.stack.map (·.slot), d.Visited slot

/-- A descent that has entered slots by the links of a tree. -/
structure Sound (g : Graph) (d : Descent) (tree : List Link) : Prop extends Marks g d where
  stations : ∀ s ∈ d.stack, s.Sound g tree
  connected : ∀ slot ∈ d.stack.map (·.slot), ∀ slot' ∈ d.stack.map (·.slot),
    Connected tree slot slot'
  tree_subset : tree ⊆ g.links
  tree_forest : Forest tree
  tree_visited : ∀ l ∈ tree, d.Visited l.source ∧ d.Visited l.target
  finished : ∀ slot, d.Visited slot → slot ∉ d.stack.map (·.slot) →
    ∀ entry ∈ (undirected g).entries slot, ∃ l ∈ tree, l.edge = entry.edge

variable {g : Graph} {d : Descent} {tree : List Link} {station : Station} {below : List Station}
  {entry : Entry} {l : Link}

/-! ### Marks -/

/-- The next entry of the last slot entered has been looked at. -/
def advance (d : Descent) (station : Station) (below : List Station) : Descent :=
  { d with stack := { station with cursor := station.cursor + 1 } :: below }

theorem slots_advance (hstack : d.stack = station :: below) :
    (d.advance station below).stack.map (·.slot) = d.stack.map (·.slot) := by
  rw [hstack]
  rfl

theorem visited_enter {slot : ℕ} (h : slot < d.visited.length) (arrivedBy : Option ℕ) (other : ℕ) :
    (d.enter slot arrivedBy).Visited other ↔ other = slot ∨ d.Visited other := by
  rw [Visited, Visited, enter]
  by_cases hother : slot = other
  · rw [← hother, getD_set_self h]
    simp
  · rw [getD_set_ne hother]
    simp [Ne.symm hother]

theorem onStack_enter {slot : ℕ} (h : slot < d.onStack.length) (arrivedBy : Option ℕ) (other : ℕ) :
    (d.enter slot arrivedBy).onStack.getD other false = true ↔
      other = slot ∨ d.onStack.getD other false = true := by
  rw [enter]
  by_cases hother : slot = other
  · rw [← hother, getD_set_self h]
    simp
  · rw [getD_set_ne hother]
    simp [Ne.symm hother]

theorem Marks.advance (h : d.Marks g) (hstack : d.stack = station :: below) :
    (d.advance station below).Marks g := by
  have hslots := slots_advance hstack
  exact ⟨h.length_visited, h.length_onStack, hslots ▸ h.onStack_iff, hslots ▸ h.nodup,
    hslots ▸ h.visited⟩

theorem Marks.enter (h : d.Marks g) {slot : ℕ} (hslot : slot < g.nodes.length)
    (hnew : ¬d.Visited slot) (arrivedBy : Option ℕ) : (d.enter slot arrivedBy).Marks g where
  length_visited := List.length_set.trans h.length_visited
  length_onStack := List.length_set.trans h.length_onStack
  onStack_iff other := by
    rw [onStack_enter (h.length_onStack ▸ hslot), h.onStack_iff]
    exact List.mem_cons.symm
  nodup := List.nodup_cons.2 ⟨fun hmem => hnew (h.visited slot hmem), h.nodup⟩
  visited other hother := by
    rw [visited_enter (h.length_visited ▸ hslot)]
    exact (List.mem_cons.1 hother).imp_right (h.visited other)

theorem Marks.leave (h : d.Marks g) (hstack : d.stack = station :: below) :
    { d with onStack := d.onStack.set station.slot false, stack := below : Descent }.Marks g := by
  obtain ⟨hvisited, honStack, hon, hnodup, hentered⟩ := h
  rw [hstack, List.map_cons] at hon hnodup hentered
  have hlt : station.slot < d.onStack.length := by
    by_contra hge
    have htop := (hon station.slot).2 List.mem_cons_self
    rw [List.getD_eq_getElem?_getD, List.getElem?_eq_none (not_lt.1 hge)] at htop
    cases htop
  refine ⟨hvisited, List.length_set.trans honStack, fun slot => ?_, (List.nodup_cons.1 hnodup).2,
    fun slot hslot => hentered slot (List.mem_cons_of_mem _ hslot)⟩
  dsimp only
  by_cases hslot : station.slot = slot
  · rw [← hslot, getD_set_self hlt]
    simp [(List.nodup_cons.1 hnodup).1]
  · rw [getD_set_ne hslot, hon, List.mem_cons]
    simp [Ne.symm hslot]

/-! ### The tree -/

theorem Sound.start (g : Graph) : (start g.nodes.length).Sound g [] where
  length_visited := List.length_replicate
  length_onStack := List.length_replicate
  onStack_iff slot := by simp only [Descent.start, getD_replicate]; simp
  nodup := List.nodup_nil
  visited := List.forall_mem_nil _
  stations := List.forall_mem_nil _
  connected := List.forall_mem_nil _
  tree_subset := List.nil_subset _
  tree_forest _ _ _ heq := absurd heq (by simp)
  tree_visited := List.forall_mem_nil _
  finished slot hvisited := by
    simp only [Visited, Descent.start, getD_replicate] at hvisited
    cases hvisited

theorem Sound.visited_top (h : d.Sound g tree) (hstack : d.stack = station :: below) :
    d.Visited station.slot :=
  h.visited _ (hstack ▸ List.mem_cons_self)

/-- The tree has no links at a slot that has not been entered. -/
theorem Sound.untouched (h : d.Sound g tree) {slot : ℕ} (hslot : ¬d.Visited slot) (hl : l ∈ tree) :
    l.source ≠ slot ∧ l.target ≠ slot := by
  obtain ⟨hsource, htarget⟩ := h.tree_visited l hl
  exact ⟨fun heq => hslot (heq ▸ hsource), fun heq => hslot (heq ▸ htarget)⟩

/-- A link from the last slot entered to one that has not been entered is not at the slots further
    down. -/
theorem Sound.untouched_below (h : d.Sound g tree) (hstack : d.stack = station :: below)
    (hjoins : l.Joins station.slot entry.slot) (hnew : ¬d.Visited entry.slot) {s : Station}
    (hs : s ∈ below) : l.source ≠ s.slot ∧ l.target ≠ s.slot := by
  have hnodup := h.nodup
  rw [hstack, List.map_cons, List.nodup_cons] at hnodup
  have hvisited : d.Visited s.slot :=
    h.visited _ (hstack ▸ List.mem_cons_of_mem _ (List.mem_map_of_mem hs))
  have hstation : station.slot ≠ s.slot := fun heq => hnodup.1 (heq ▸ List.mem_map_of_mem hs)
  have hchild : entry.slot ≠ s.slot := fun heq => hnew (heq ▸ hvisited)
  obtain ⟨hsource, htarget⟩ | ⟨hsource, htarget⟩ := hjoins
  · rw [hsource, htarget]
    exact ⟨hstation, hchild⟩
  · rw [hsource, htarget]
    exact ⟨hchild, hstation⟩

/-- A descent may begin at any slot that has not been entered. -/
theorem Sound.enter_root (h : d.Sound g tree) (hstack : d.stack = []) {root : ℕ}
    (hroot : root < g.nodes.length) (hnew : ¬d.Visited root) :
    (d.enter root none).Sound g tree := by
  have hvisited := visited_enter (h.length_visited ▸ hroot) none
  have honly : (d.enter root none).stack = [⟨root, none, 0⟩] := by rw [enter, hstack]
  refine { h.toMarks.enter hroot hnew none with
    stations := ?stations
    connected := ?connected
    tree_subset := h.tree_subset
    tree_forest := h.tree_forest
    tree_visited := fun l hl => (h.tree_visited l hl).imp
      (fun hslot => (hvisited _).2 (.inr hslot)) fun hslot => (hvisited _).2 (.inr hslot)
    finished := ?finished }
  case stations =>
    rw [honly]
    refine List.forall_mem_singleton.2 ⟨fun edge hedge => ?_, fun entry hentry => ?_, ?_⟩
    · cases hedge
    · exact absurd hentry List.not_mem_nil
    · rintro l hl (hsource | htarget)
      exacts [absurd hsource (h.untouched hnew hl).1, absurd htarget (h.untouched hnew hl).2]
  case connected =>
    rw [honly]
    exact List.forall_mem_singleton.2 (List.forall_mem_singleton.2 (.refl _ _))
  case finished =>
    intro slot hslot hnot
    rw [honly] at hnot
    rcases (hvisited slot).1 hslot with rfl | hslot
    · exact absurd List.mem_cons_self hnot
    · exact h.finished slot hslot (by simp [hstack])

/-! ### Steps -/

/-- Where all entries of the last slot entered have been looked at, it may be left. -/
theorem Sound.leave (h : d.Sound g tree) (hstack : d.stack = station :: below)
    (hend : ((undirected g).entries station.slot)[station.cursor]? = none) :
    { d with onStack := d.onStack.set station.slot false, stack := below : Descent }.Sound g
      tree := by
  have hsub : ∀ s ∈ below, s ∈ d.stack := fun s hs => hstack ▸ List.mem_cons_of_mem _ hs
  have hslots : below.map (·.slot) ⊆ d.stack.map (·.slot) := List.map_subset _ hsub
  refine { h with
    toMarks := h.toMarks.leave hstack
    stations := fun s hs => h.stations s (hsub s hs)
    connected := fun slot hslot slot' hslot' =>
      h.connected slot (hslots hslot) slot' (hslots hslot')
    finished := fun slot hslot hnot entry hentry => ?_ }
  by_cases heq : slot = station.slot
  · rw [heq] at hentry
    refine (h.stations station (hstack ▸ List.mem_cons_self)).passed entry ?_
    rwa [List.take_of_length_le (List.getElem?_eq_none_iff.1 hend)]
  · refine h.finished slot hslot ?_ entry hentry
    rw [hstack, List.map_cons, List.mem_cons, not_or]
    exact ⟨heq, hnot⟩

/-- An entry whose link is in the tree may be passed by. -/
theorem Sound.pass (h : d.Sound g tree) (hstack : d.stack = station :: below)
    (hentry : ((undirected g).entries station.slot)[station.cursor]? = some entry)
    (hlink : ∃ l ∈ tree, l.edge = entry.edge) : (d.advance station below).Sound g tree := by
  have hslots := slots_advance hstack
  have hstations := h.stations
  rw [hstack] at hstations
  obtain ⟨htop, hbelow⟩ := List.forall_mem_cons.1 hstations
  exact { h with
    toMarks := h.toMarks.advance hstack
    stations := List.forall_mem_cons.2 ⟨htop.pass hentry hlink, hbelow⟩
    connected := hslots ▸ h.connected
    finished := hslots ▸ h.finished }

/-- A slot that has not been entered may be entered by an entry, whose link joins the tree. -/
theorem Sound.enter_child (h : d.Sound g tree) (hstack : d.stack = station :: below)
    (hentry : ((undirected g).entries station.slot)[station.cursor]? = some entry)
    (hl : l ∈ g.links) (hedge : l.edge = entry.edge) (hjoins : l.Joins station.slot entry.slot)
    (hlt : entry.slot < g.nodes.length) (hnew : ¬d.Visited entry.slot) :
    ((d.advance station below).enter entry.slot (some entry.edge)).Sound g (tree ++ [l]) := by
  have hslots := slots_advance hstack
  have hvisited : ∀ slot, ((d.advance station below).enter entry.slot (some entry.edge)).Visited
      slot ↔ slot = entry.slot ∨ d.Visited slot :=
    visited_enter (h.length_visited ▸ hlt) (some entry.edge)
  have hstations := h.stations
  rw [hstack] at hstations
  obtain ⟨htop, hbelow⟩ := List.forall_mem_cons.1 hstations
  -- The new link connects the new slot to the last one entered, and so to all others.
  have hfrom : ∀ slot ∈ entry.slot :: (d.advance station below).stack.map (·.slot),
      Connected (tree ++ [l]) station.slot slot := by
    rw [hslots, List.forall_mem_cons]
    refine ⟨.of_linked ⟨l, by simp, hjoins⟩, fun slot hslot => ?_⟩
    exact (h.connected _ (hstack ▸ List.mem_cons_self) slot hslot).mono
      (List.subset_append_left _ _)
  refine { (h.toMarks.advance hstack).enter hlt hnew (some entry.edge) with
    stations := ?stations
    connected := fun slot hslot slot' hslot' => (hfrom slot hslot).symm.trans (hfrom slot' hslot')
    tree_subset := List.append_subset.2 ⟨h.tree_subset, by simpa using hl⟩
    tree_forest := ?forest
    tree_visited := ?visited
    finished := ?finished }
  case stations =>
    refine List.forall_mem_cons.2 ⟨?_, List.forall_mem_cons.2 ⟨?_, fun s hs => ?_⟩⟩
    · rw [← hedge]
      exact .first fun l' hl' => h.untouched hnew hl'
    · exact htop.take hentry hedge
    · exact (hbelow s hs).of_untouched (h.untouched_below hstack hjoins hnew hs)
  case forest =>
    refine h.tree_forest.concat fun hconnected => hnew ?_
    have heq := (hjoins.connected_iff.2 hconnected).eq_of_untouched fun l' hl' =>
      h.untouched hnew hl'
    exact heq ▸ h.visited_top hstack
  case visited =>
    intro l' hl'
    rcases List.mem_append.1 hl' with hl' | hl'
    · exact (h.tree_visited l' hl').imp (fun hslot => (hvisited _).2 (.inr hslot))
        fun hslot => (hvisited _).2 (.inr hslot)
    · have hstation := (hvisited station.slot).2 (.inr (h.visited_top hstack))
      have hchild := (hvisited entry.slot).2 (.inl rfl)
      rw [List.mem_singleton.1 hl']
      obtain ⟨hsource, htarget⟩ | ⟨hsource, htarget⟩ := hjoins
      · rw [hsource, htarget]
        exact ⟨hstation, hchild⟩
      · rw [hsource, htarget]
        exact ⟨hchild, hstation⟩
  case finished =>
    intro slot hslot hnot e he
    change slot ∉ entry.slot :: (d.advance station below).stack.map (·.slot) at hnot
    rw [List.mem_cons, not_or, hslots] at hnot
    exact Station.exists_edge_concat
      (h.finished slot (((hvisited slot).1 hslot).resolve_left hnot.1) hnot.2 e he) l

/-- An entry to a slot of the stack, by an edge other than the one that the slot was entered by, is
    on a cycle. -/
theorem Sound.not_forest (h : d.Sound g tree) (hstack : d.stack = station :: below)
    (hentry : ((undirected g).entries station.slot)[station.cursor]? = some entry)
    (hl : l ∈ g.links) (hedge : l.edge = entry.edge) (hjoins : l.Joins station.slot entry.slot)
    (hother : some entry.edge ≠ station.arrivedBy) (hon : d.onStack.getD entry.slot false = true) :
    ¬Forest g.links := by
  have htop : station ∈ d.stack := hstack ▸ List.mem_cons_self
  have hconnected := h.connected _ (List.mem_map_of_mem htop) _ ((h.onStack_iff _).1 hon)
  refine not_forest_of_connected h.tree_subset hl (fun hmem => ?_) hjoins hconnected
  have hat : l.source = station.slot ∨ l.target = station.slot := by
    obtain ⟨hsource, -⟩ | ⟨-, htarget⟩ := hjoins
    exacts [.inl hsource, .inr htarget]
  rcases (h.stations station htop).taken l hmem hat with harrived | ⟨e, he, he'⟩
  · exact hother (hedge ▸ harrived.symm)
  · -- The entries before are by other edges.
    obtain ⟨i, hi⟩ := List.getElem?_of_mem he
    rw [List.getElem?_take] at hi
    split_ifs at hi with hlt
    obtain ⟨hi', rfl⟩ := List.getElem?_eq_some_iff.1 hi
    obtain ⟨hcursor, rfl⟩ := List.getElem?_eq_some_iff.1 hentry
    have hless := List.pairwise_iff_getElem.1 (pairwise_edge_entries station.slot) i station.cursor
      hi' hcursor hlt
    exact absurd (he'.trans hedge) hless.ne

/-! ### Work left -/

/-- The work on the slots of the stack, and on those that have not been entered. -/
def work (g : Graph) (d : Descent) : ℕ :=
  (d.stack.map (Station.work g)).sum +
    ∑ slot ∈ Finset.range g.nodes.length with d.visited.getD slot false = false,
      (((undirected g).entries slot).length + 1)

theorem work_enter (hlength : d.visited.length = g.nodes.length) {slot : ℕ}
    (hslot : slot < g.nodes.length) (hnew : ¬d.Visited slot) (arrivedBy : Option ℕ) :
    (d.enter slot arrivedBy).work g = d.work g := by
  have hold : slot ∈ (Finset.range g.nodes.length).filter
      fun slot => d.visited.getD slot false = false :=
    Finset.mem_filter.2 ⟨Finset.mem_range.2 hslot, Bool.eq_false_of_not_eq_true hnew⟩
  have hrest : (Finset.range g.nodes.length).filter
        (fun other => (d.visited.set slot true).getD other false = false) =
      ((Finset.range g.nodes.length).filter
        fun other => d.visited.getD other false = false).erase slot := by
    ext other
    rw [Finset.mem_erase, Finset.mem_filter, Finset.mem_filter]
    by_cases hother : slot = other
    · rw [← hother, getD_set_self (hlength ▸ hslot)]
      simp
    · rw [getD_set_ne hother]
      simp [Ne.symm hother]
  rw [work, work, enter, hrest, ← Finset.add_sum_erase _ _ hold, List.map_cons, List.sum_cons,
    Station.work]
  dsimp only
  omega

/-- Each round does one piece of the work: it passes an entry, with or without entering its slot, or
    leaves a slot. -/
theorem work_pass (hstack : d.stack = station :: below)
    (hentry : ((undirected g).entries station.slot)[station.cursor]? = some entry) :
    (d.advance station below).work g + 1 = d.work g := by
  obtain ⟨hlt, -⟩ := List.getElem?_eq_some_iff.1 hentry
  rw [advance]
  simp only [work, hstack, List.map_cons, List.sum_cons, Station.work]
  omega

theorem work_leave (hstack : d.stack = station :: below)
    (hend : ((undirected g).entries station.slot)[station.cursor]? = none) (onStack : List Bool) :
    { d with onStack := onStack, stack := below : Descent }.work g + 1 = d.work g := by
  have hle := List.getElem?_eq_none_iff.1 hend
  simp only [work, hstack, List.map_cons, List.sum_cons, Station.work]
  omega

/-- A descent that has just begun has no more work than there are entries and slots. -/
theorem work_le_of_stack_eq_nil (hstack : d.stack = []) :
    d.work g ≤ (undirected g).slots.flatten.length + g.nodes.length := by
  have hall : ∑ slot ∈ Finset.range g.nodes.length, (((undirected g).entries slot).length + 1) =
      (undirected g).slots.flatten.length + g.nodes.length := by
    rw [Finset.sum_add_distrib, undirected, ← load_empty length_slots_build, load, Finset.sdiff_empty,
      size_build]
    simp
  rw [work, hstack, List.map_nil, List.sum_nil, Nat.zero_add, ← hall]
  exact Finset.sum_le_sum_of_subset (Finset.filter_subset _ _)

/-! ### Rounds -/

/-- A step stays sound and does some of the work, or comes upon a cycle. -/
theorem Sound.step (h : d.Sound g tree) (hstack : d.stack = station :: below) :
    (∃ d' tree', d.step (undirected g) station below = some d' ∧ d'.Sound g tree' ∧
      d'.work g + 1 = d.work g ∧ ∀ slot, d.Visited slot → d'.Visited slot) ∨
      (d.step (undirected g) station below = none ∧ ¬Forest g.links) := by
  rw [Descent.step]
  rcases hentry : ((undirected g).entries station.slot)[station.cursor]? with _ | entry
  · exact .inl ⟨_, tree, rfl, h.leave hstack hentry, work_leave hstack hentry _, fun _ => id⟩
  · obtain ⟨l, hl, hedge, hjoins⟩ := Graph.mem_entries_iff_link.1 (List.mem_of_getElem? hentry)
    have htop : station ∈ d.stack := hstack ▸ List.mem_cons_self
    have hwork : (d.advance station below).work g + 1 = d.work g := work_pass hstack hentry
    have hlt : entry.slot < g.nodes.length := by
      rw [← size_undirected]
      exact slot_lt_of_mem_entries (List.mem_of_getElem? hentry)
    dsimp only
    split_ifs with harrived hnew hon
    · have hlink := (h.stations station htop).arrived entry.edge harrived.symm
      exact .inl ⟨_, tree, rfl, h.pass hstack hentry hlink, hwork, fun _ => id⟩
    · have hnew : ¬d.Visited entry.slot := by simpa [Visited] using hnew
      refine .inl ⟨_, tree ++ [l], rfl, h.enter_child hstack hentry hl hedge hjoins hlt hnew, ?_, ?_⟩
      · have henter := work_enter (d := d.advance station below) h.length_visited hlt hnew
          (some entry.edge)
        exact (congrArg (· + 1) henter).trans hwork
      · exact fun slot hslot => (visited_enter (h.length_visited ▸ hlt) _ slot).2 (.inr hslot)
    · exact .inr ⟨rfl, h.not_forest hstack hentry hl hedge hjoins harrived hon⟩
    · -- The slot has been left, and the entry at its end has been looked at.
      have hback : Entry.mk station.slot entry.edge ∈ (undirected g).entries entry.slot :=
        Graph.mem_entries_iff_link.2 ⟨l, hl, hedge, hjoins.symm⟩
      have hlink := h.finished entry.slot (by simpa [Visited] using hnew)
        (fun hmem => hon ((h.onStack_iff _).2 hmem)) _ hback
      exact .inl ⟨_, tree, rfl, h.pass hstack hentry hlink, hwork, fun _ => id⟩

/-- Rounds for all of the work empty the stack, or come upon a cycle. -/
theorem Sound.run {rounds : ℕ} (h : d.Sound g tree) (hrounds : d.work g ≤ rounds) :
    (∃ d' tree', run (undirected g) rounds d = some d' ∧ d'.Sound g tree' ∧ d'.stack = [] ∧
      ∀ slot, d.Visited slot → d'.Visited slot) ∨
      (run (undirected g) rounds d = none ∧ ¬Forest g.links) := by
  induction rounds generalizing d tree with
  | zero =>
    refine .inl ⟨d, tree, rfl, h, ?_, fun _ => id⟩
    cases hstack : d.stack with
    | nil => rfl
    | cons station below => simp [work, hstack, Station.work] at hrounds
  | succ rounds ih =>
    rw [Descent.run]
    cases hstack : d.stack with
    | nil => exact .inl ⟨d, tree, rfl, h, hstack, fun _ => id⟩
    | cons station below =>
      dsimp only
      rcases h.step hstack with ⟨d', tree', hstep, h', hwork, hvisited⟩ | ⟨hstep, hforest⟩
      · rw [hstep, Option.bind_some]
        rcases ih h' (by omega) with ⟨d'', tree'', hrun, h'', hempty, hvisited'⟩ | hnone
        · exact .inl ⟨d'', tree'', hrun, h'', hempty, fun slot hslot =>
            hvisited' slot (hvisited slot hslot)⟩
        · exact .inr hnone
      · rw [hstep]
        exact .inr ⟨rfl, hforest⟩

theorem Sound.descend {root : ℕ} (h : d.Sound g tree) (hstack : d.stack = [])
    (hroot : root < g.nodes.length) :
    (∃ d' tree', descend (undirected g) d root = some d' ∧ d'.Sound g tree' ∧ d'.stack = [] ∧
      ∀ slot, slot = root ∨ d.Visited slot → d'.Visited slot) ∨
      (descend (undirected g) d root = none ∧ ¬Forest g.links) := by
  rw [Descent.descend]
  split_ifs with hvisited
  · refine .inl ⟨d, tree, rfl, h, hstack, ?_⟩
    rintro slot (rfl | hslot)
    exacts [hvisited, hslot]
  · have hwork : (d.enter root none).work g ≤
        (undirected g).slots.flatten.length + (undirected g).size := by
      rw [work_enter h.length_visited hroot hvisited, size_undirected]
      exact work_le_of_stack_eq_nil hstack
    rcases (h.enter_root hstack hroot hvisited).run hwork with
      ⟨d', tree', hrun, h', hempty, hkept⟩ | hnone
    · refine .inl ⟨d', tree', hrun, h', hempty, fun slot hslot => hkept slot ?_⟩
      exact (visited_enter (h.length_visited ▸ hroot) none slot).2 hslot
    · exact .inr hnone

theorem Sound.descendAll {roots : List ℕ} (h : d.Sound g tree) (hstack : d.stack = [])
    (hroots : ∀ root ∈ roots, root < g.nodes.length) :
    (∃ d' tree', roots.foldlM (Descent.descend (undirected g)) d = some d' ∧ d'.Sound g tree' ∧
      d'.stack = [] ∧ ∀ slot, slot ∈ roots ∨ d.Visited slot → d'.Visited slot) ∨
      (roots.foldlM (Descent.descend (undirected g)) d = none ∧ ¬Forest g.links) := by
  induction roots generalizing d tree with
  | nil => exact .inl ⟨d, tree, rfl, h, hstack, fun slot hslot => hslot.resolve_left List.not_mem_nil⟩
  | cons root rest ih =>
    obtain ⟨hroot, hrest⟩ := List.forall_mem_cons.1 hroots
    rw [List.foldlM_cons]
    rcases h.descend hstack hroot with ⟨d', tree', hrun, h', hempty, hkept⟩ | ⟨hrun, hforest⟩
    · rw [hrun]
      rcases ih h' hempty hrest with ⟨d'', tree'', hrun', h'', hempty', hkept'⟩ | hnone
      · refine .inl ⟨d'', tree'', hrun', h'', hempty', fun slot hslot => hkept' slot ?_⟩
        rw [List.mem_cons, or_assoc, or_left_comm] at hslot
        exact hslot.imp_right (hkept slot)
      · exact .inr hnone
    · rw [hrun]
      exact .inr ⟨rfl, hforest⟩

/-- When all slots have been left, all links are in the tree. -/
theorem Sound.forest_links (h : d.Sound g tree) (hstack : d.stack = [])
    (hall : ∀ slot < g.nodes.length, d.Visited slot) : Forest g.links := by
  refine h.tree_forest.of_subset (fun l hl => ?_) (g.nodup_edges_links.of_map _)
  have hentry : Entry.mk l.target l.edge ∈ (undirected g).entries l.source :=
    Graph.mem_entries_iff_link.2 ⟨l, hl, rfl, .inl ⟨rfl, rfl⟩⟩
  obtain ⟨l', hl', hedge⟩ :=
    h.finished l.source (hall _ (Graph.links_lt hl).1) (by simp [hstack]) _ hentry
  -- An edge has one link.
  have heq : l' = l :=
    List.inj_on_of_nodup_map g.nodup_edges_links (h.tree_subset hl') hl hedge
  exact heq ▸ hl'

end Descent

/-- The check for cycles finds out whether the links are a forest. -/
theorem Graph.isAcyclic_iff_forest {g : Graph} : g.isAcyclic = true ↔ Forest g.links := by
  have hroots : ∀ root ∈ List.range g.nodes.length, root < g.nodes.length :=
    fun root => List.mem_range.1
  rw [isAcyclic, size_undirected]
  rcases (Descent.Sound.start g).descendAll rfl hroots with
    ⟨d, tree, hrun, h, hempty, hvisited⟩ | ⟨hrun, hforest⟩
  · rw [hrun]
    refine iff_of_true rfl (h.forest_links hempty fun slot hslot => ?_)
    exact hvisited slot (.inl (List.mem_range.2 hslot))
  · rw [hrun]
    exact iff_of_false Bool.false_ne_true hforest

end GraphScript
