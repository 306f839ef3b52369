import GraphScript.Graph.Adjacency
import Mathlib.Algebra.BigOperators.Group.Finset.Basic
import Mathlib.Data.List.Nodup

/-!
# Adjacency in terms of edges

An id stands for the last slot with it (`slot?_eq_some_iff`), so that of the slots of repeated ids
only one has entries. That is what is left in the map when all ids have been put into it, a later
slot in the place of an earlier one (`SlotMap.get?_insertAll`).

An edge whose two ids stand for slots is a *link* (`Graph.links`); other edges are left out. Each
edge that is entered gives its entries to the two slots at once (`getD_enter`), so at the end the
entries of a slot are those of the links at it, one for each and in order (`entries_build`). In
terms of edges (`mem_entries_iff`): an edge leads from the slot of its source to that of its target,
and in the view of both directions also back (`mem_entries_comm`). Entries are in range and in the
order of the edges (`Indexes`). All of this holds of every graph (`build_indexes_edges`).
-/

namespace GraphScript

/-- An edge between slots. -/
structure Link where
  source : Nat
  target : Nat
  /-- The position of the edge among the edges of the graph. -/
  edge : Nat
  deriving DecidableEq, Repr

/-- The link of an edge, if both of its ids stand for slots. -/
def Link.of? (slot? : String → Option ℕ) (e : Edge) (edge : ℕ) : Option Link :=
  (slot? e.source).bind fun source =>
    (slot? e.target).map fun target => { source := source, target := target, edge := edge }

theorem Link.of?_eq_some_iff {slot? : String → Option ℕ} {e : Edge} {edge : ℕ} {l : Link} :
    Link.of? slot? e edge = some l ↔
      edge = l.edge ∧ slot? e.source = some l.source ∧ slot? e.target = some l.target := by
  simp only [Link.of?, Option.bind_eq_some_iff, Option.map_eq_some_iff]
  constructor
  · rintro ⟨source, hsource, target, htarget, rfl⟩
    exact ⟨rfl, hsource, htarget⟩
  · rintro ⟨rfl, hsource, htarget⟩
    exact ⟨l.source, hsource, l.target, htarget, rfl⟩

/-- The last position of an id. -/
def lastIndex? (id : String) : List String → Option Nat
  | [] => none
  | first :: rest =>
    match lastIndex? id rest with
    | some index => some (index + 1)
    | none => if first = id then some 0 else none

theorem lastIndex?_eq_none_iff {id : String} {ids : List String} :
    lastIndex? id ids = none ↔ id ∉ ids := by
  induction ids with
  | nil => simp [lastIndex?]
  | cons first rest ih =>
    rw [lastIndex?]
    cases h : lastIndex? id rest with
    | some index =>
      have hmem : id ∈ rest := by
        by_contra hnot
        rw [ih.2 hnot] at h
        cases h
      simp [hmem]
    | none =>
      have hnot := ih.1 h
      by_cases hfirst : first = id
      · simp [hfirst]
      · simp [hfirst, hnot, Ne.symm hfirst]

/-- A position holds an id, and no later one does. -/
structure LastAt (id : String) (i : ℕ) (ids : List String) : Prop where
  getElem?_eq : ids[i]? = some id
  le : ∀ j, ids[j]? = some id → j ≤ i

theorem LastAt.unique {id : String} {i i' : ℕ} {ids : List String} (h : LastAt id i ids)
    (h' : LastAt id i' ids) : i = i' :=
  Nat.le_antisymm (h'.le i h.getElem?_eq) (h.le i' h'.getElem?_eq)

theorem lastAt_of_lastIndex? {id : String} {ids : List String} {i : ℕ}
    (h : lastIndex? id ids = some i) : LastAt id i ids := by
  induction ids generalizing i with
  | nil => cases h
  | cons first rest ih =>
    rw [lastIndex?] at h
    cases hrest : lastIndex? id rest with
    | some index =>
      rw [hrest] at h
      cases h
      refine ⟨(ih hrest).getElem?_eq, fun j hj => ?_⟩
      cases j with
      | zero => exact Nat.zero_le _
      | succ j => exact Nat.succ_le_succ ((ih hrest).le j hj)
    | none =>
      rw [hrest] at h
      split_ifs at h with hfirst
      cases h
      refine ⟨by rw [List.getElem?_cons_zero, hfirst], fun j hj => ?_⟩
      cases j with
      | zero => exact Nat.le_refl _
      | succ j =>
        rw [List.getElem?_cons_succ] at hj
        exact absurd (List.mem_of_getElem? hj) (lastIndex?_eq_none_iff.1 hrest)

theorem lastIndex?_eq_some_iff {id : String} {ids : List String} {i : ℕ} :
    lastIndex? id ids = some i ↔ LastAt id i ids := by
  refine ⟨lastAt_of_lastIndex?, fun h => ?_⟩
  cases hfound : lastIndex? id ids with
  | none => exact absurd (List.mem_of_getElem? h.getElem?_eq) (lastIndex?_eq_none_iff.1 hfound)
  | some i' => rw [(lastAt_of_lastIndex? hfound).unique h]

/-! ### The map of slots -/

namespace SlotMap

theorem get?_insert (map : SlotMap) (id id' : String) (slot : ℕ) :
    (map.insert id' slot).get? id = if id = id' then some slot else map.get? id := by
  rw [get?, get?, insert, List.lookup_cons]
  by_cases hid : id = id'
  · simp [hid]
  · -- What is taken out of the map is not what is looked for.
    have hbeq : (id == id') = false := beq_false_of_ne hid
    have hfilter : (map.filter (·.1 != id')).lookup id = map.lookup id := by
      induction map with
      | nil => rfl
      | cons pair rest ih =>
        by_cases hpair : pair.1 = id'
        · rw [List.filter_cons_of_neg (by simp [hpair]), ih, List.lookup_cons]
          simp [hpair, hbeq]
        · rw [List.filter_cons_of_pos (by simp [hpair]), List.lookup_cons, List.lookup_cons, ih]
    simp [hid, hbeq, hfilter]

/-- When ids have been put into a map, each has its last position among them, if it is one of
    them, and else the slot that it had. -/
theorem get?_insertAll (ids : List String) (map : SlotMap) (first : ℕ) (id : String) :
    ((ids.zipIdx first).foldl (fun map x => map.insert x.1 x.2) map).get? id =
      ((lastIndex? id ids).map (first + ·)).or (map.get? id) := by
  induction ids generalizing map first with
  | nil => rfl
  | cons next rest ih =>
    rw [List.zipIdx_cons, List.foldl_cons, ih, get?_insert, lastIndex?]
    cases lastIndex? id rest with
    | some index =>
      simp only [Option.map_some, Option.some_or]
      congr 1
      omega
    | none =>
      by_cases hid : next = id
      · simp [hid]
      · simp [hid, Ne.symm hid]

theorem get?_ofIds (ids : List String) : (ofIds ids).get? = fun id => lastIndex? id ids := by
  funext id
  have h := get?_insertAll ids [] 0 id
  simp only [Nat.zero_add, Option.map_id'] at h
  rw [ofIds]
  exact h.trans Option.or_none

end SlotMap

namespace Graph

/-- The slot that an id stands for. -/
def slot? (g : Graph) (id : String) : Option Nat :=
  lastIndex? id g.ids

/-- The links of a graph, in the order of its edges. -/
def links (g : Graph) : List Link :=
  g.edges.zipIdx.filterMap fun x => Link.of? g.slot? x.1 x.2

variable {g : Graph}

theorem slot?_eq_none_iff {id : String} : g.slot? id = none ↔ id ∉ g.ids :=
  lastIndex?_eq_none_iff

/-- An id stands for the last slot with it. -/
theorem slot?_eq_some_iff {id : String} {slot : ℕ} :
    g.slot? id = some slot ↔ LastAt id slot g.ids :=
  lastIndex?_eq_some_iff

theorem slot?_eq_some {id : String} {slot : ℕ} (h : g.slot? id = some slot) :
    g.ids[slot]? = some id :=
  (slot?_eq_some_iff.1 h).getElem?_eq

theorem slot?_lt {id : String} {slot : ℕ} (h : g.slot? id = some slot) :
    slot < g.nodes.length := by
  obtain ⟨hlt, _⟩ := List.getElem?_eq_some_iff.1 (slot?_eq_some h)
  simpa [ids] using hlt

theorem mem_links_iff {l : Link} : l ∈ g.links ↔ ∃ e, g.edges[l.edge]? = some e ∧
    g.slot? e.source = some l.source ∧ g.slot? e.target = some l.target := by
  simp only [links, List.mem_filterMap, Link.of?_eq_some_iff, Prod.exists,
    List.mem_zipIdx_iff_getElem?]
  constructor
  · rintro ⟨e, _, he, rfl, hends⟩
    exact ⟨e, he, hends⟩
  · rintro ⟨e, he, hends⟩
    exact ⟨e, l.edge, he, rfl, hends⟩

/-- Links are in the order of their edges. -/
theorem pairwise_edge_links (g : Graph) : g.links.Pairwise fun l l' => l.edge < l'.edge := by
  have hordered : g.edges.zipIdx.Pairwise fun x y => x.2 < y.2 := by
    rw [← List.pairwise_map (f := Prod.snd) (R := (· < ·)), List.zipIdx_map_snd]
    exact List.pairwise_lt_range'
  rw [links, List.pairwise_filterMap]
  refine hordered.imp fun hlt l hl l' hl' => ?_
  rwa [← (Link.of?_eq_some_iff.1 hl).1, ← (Link.of?_eq_some_iff.1 hl').1]

theorem nodup_edges_links (g : Graph) : (g.links.map (·.edge)).Nodup := by
  rw [List.Nodup, List.pairwise_map]
  exact g.pairwise_edge_links.imp Nat.ne_of_lt

end Graph

/-- The entry that a link gives to a slot. -/
def Link.entryAt? (forward : Bool) (slot : Nat) (l : Link) : Option Entry :=
  if l.source = slot then some { slot := l.target, edge := l.edge }
  else if !forward && l.target = slot then some { slot := l.source, edge := l.edge }
  else none

/-- A link gives an entry to its source, and in the view of both directions to its target; a
    loop gives one to both of them at once. -/
theorem Link.entryAt?_eq_some_iff {forward : Bool} {slot : ℕ} {l : Link} {entry : Entry} :
    l.entryAt? forward slot = some entry ↔ entry.edge = l.edge ∧
      ((l.source = slot ∧ l.target = entry.slot) ∨
        (forward = false ∧ l.target = slot ∧ l.source = entry.slot)) := by
  obtain ⟨source, target, edge⟩ := l
  obtain ⟨other, edge'⟩ := entry
  rw [entryAt?]
  dsimp only
  by_cases hsource : source = slot
  · rw [if_pos hsource, Option.some_inj, Entry.mk.injEq]
    constructor
    · rintro ⟨rfl, rfl⟩
      exact ⟨rfl, .inl ⟨hsource, rfl⟩⟩
    · rintro ⟨rfl, ⟨_, rfl⟩ | ⟨_, htarget, hother⟩⟩
      · exact ⟨rfl, rfl⟩
      · -- A loop, whose two entries are the same.
        exact ⟨by rw [htarget, ← hother, hsource], rfl⟩
  · rw [if_neg hsource]
    by_cases htarget : (!forward && decide (target = slot)) = true
    · rw [if_pos htarget, Option.some_inj, Entry.mk.injEq]
      simp only [Bool.and_eq_true, Bool.not_eq_true', decide_eq_true_eq] at htarget
      constructor
      · rintro ⟨rfl, rfl⟩
        exact ⟨rfl, .inr ⟨htarget.1, htarget.2, rfl⟩⟩
      · rintro ⟨rfl, ⟨hsource', _⟩ | ⟨_, _, rfl⟩⟩
        · exact absurd hsource' hsource
        · exact ⟨rfl, rfl⟩
    · rw [if_neg htarget]
      simp only [Bool.and_eq_true, Bool.not_eq_true', decide_eq_true_eq, not_and] at htarget
      constructor
      · rintro ⟨⟩
      · rintro ⟨_, ⟨hsource', _⟩ | ⟨hforward, htarget', _⟩⟩
        · exact absurd hsource' hsource
        · exact absurd htarget' (htarget hforward)

namespace Adjacency

variable {g : Graph} {forward : Bool}

theorem slot?_build {id : String} : (build g forward).slot? id = g.slot? id :=
  congrFun (SlotMap.get?_ofIds g.ids) id

theorem size_build : (build g forward).size = g.nodes.length := by
  simp [size, build, Graph.ids]

theorem size_undirected (g : Graph) : (undirected g).size = g.nodes.length :=
  size_build

theorem lt_size_of_slot? {id : String} {slot : ℕ} (h : g.slot? id = some slot) :
    slot < (build g forward).size := by
  rw [size_build]
  exact Graph.slot?_lt h

/-! ### The entries -/

theorem getD_push {slots : List (List Entry)} {slot : ℕ} (h : slot < slots.length) (other : ℕ)
    (entry : Entry) : (push slots other entry).getD slot [] =
      slots.getD slot [] ++ (if other = slot then [entry] else []) := by
  rw [push, List.getD_eq_getElem?_getD, List.getD_eq_getElem?_getD, List.getElem?_modify]
  split_ifs with hother <;> simp [h]

theorem length_push (slots : List (List Entry)) (slot : ℕ) (entry : Entry) :
    (push slots slot entry).length = slots.length :=
  List.length_modify _ _ _

/-- Entering an edge puts the entry of its link behind those of a slot, if there is one. -/
theorem getD_enter {index : SlotMap} {slots : List (List Entry)} {slot : ℕ}
    (h : slot < slots.length) (e : Edge) (edge : ℕ) :
    (enter index forward slots e edge).getD slot [] =
      slots.getD slot [] ++ ((Link.of? index.get? e edge).bind (·.entryAt? forward slot)).toList := by
  rw [enter, Link.of?]
  cases index.get? e.source with
  | none => simp
  | some source =>
  cases index.get? e.target with
  | none => simp
  | some target =>
    dsimp only [Option.bind_some, Option.map_some, Link.entryAt?]
    by_cases htwo : (source != target && !forward) = true
    · rw [if_pos htwo, getD_push (by rwa [length_push]), getD_push h]
      simp only [Bool.and_eq_true, bne_iff_ne, Bool.not_eq_true'] at htwo
      by_cases hsource : source = slot
      · have htarget : ¬target = slot := fun htarget => htwo.1 (hsource.trans htarget.symm)
        simp [hsource, htarget]
      · by_cases htarget : target = slot <;> simp [hsource, htarget, htwo.2]
    · -- The edge is a loop, or it is entered at its source only.
      rw [if_neg htwo, getD_push h]
      simp only [Bool.and_eq_true, bne_iff_ne, Bool.not_eq_true', not_and, ne_eq,
        Bool.not_eq_false] at htwo
      by_cases hsource : source = slot
      · simp [hsource]
      · by_cases htarget : target = slot
        · have hforward := htwo (fun heq => hsource (heq.trans htarget))
          simp [hsource, hforward]
        · simp [hsource, htarget]

theorem length_enter {index : SlotMap} (slots : List (List Entry)) (e : Edge) (edge : ℕ) :
    (enter index forward slots e edge).length = slots.length := by
  rw [enter]
  split
  · dsimp only
    split_ifs <;> simp only [length_push]
  · rfl

theorem length_enterAll {index : SlotMap} (edges : List (Edge × ℕ)) (slots : List (List Entry)) :
    (edges.foldl (fun slots x => enter index forward slots x.1 x.2) slots).length =
      slots.length := by
  induction edges generalizing slots with
  | nil => rfl
  | cons x rest ih => rw [List.foldl_cons, ih, length_enter]

/-- Entering edges one after the other puts the entries of their links behind those of a slot, in
    the same order. -/
theorem getD_enterAll {index : SlotMap} (edges : List (Edge × ℕ)) {slots : List (List Entry)}
    {slot : ℕ} (h : slot < slots.length) :
    (edges.foldl (fun slots x => enter index forward slots x.1 x.2) slots).getD slot [] =
      slots.getD slot [] ++ (edges.filterMap fun x => Link.of? index.get? x.1 x.2).filterMap
        (·.entryAt? forward slot) := by
  induction edges generalizing slots with
  | nil => simp
  | cons x rest ih =>
    rw [List.foldl_cons, ih (by rwa [length_enter]), getD_enter h, List.append_assoc]
    congr 1
    cases hlink : Link.of? index.get? x.1 x.2 with
    | none => simp [hlink]
    | some l => cases hentry : l.entryAt? forward slot <;> simp [hlink, hentry]

theorem entries_build {slot : ℕ} (h : slot < g.nodes.length) :
    (build g forward).entries slot = g.links.filterMap (·.entryAt? forward slot) := by
  have hlength : slot < (List.replicate g.ids.length ([] : List Entry)).length := by
    rwa [List.length_replicate, Graph.ids, List.length_map]
  have hentered : (build g forward).entries slot = _ := getD_enterAll g.edges.zipIdx hlength
  have hempty : (List.replicate g.ids.length ([] : List Entry)).getD slot [] = [] := by
    rw [List.getD_eq_getElem?_getD, List.getElem?_eq_getElem hlength, List.getElem_replicate,
      Option.getD_some]
  rw [SlotMap.get?_ofIds, hempty, List.nil_append] at hentered
  exact hentered

/-- Every slot has entries, if only none. -/
theorem length_slots_build : (build g forward).slots.length = (build g forward).size := by
  rw [build, size]
  exact (length_enterAll _ _).trans List.length_replicate

theorem entries_eq_nil {slot : ℕ} (h : ¬slot < g.nodes.length) :
    (build g forward).entries slot = [] := by
  have hlength : (build g forward).slots.length ≤ slot := by
    rw [length_slots_build, size_build]
    exact Nat.not_lt.1 h
  rw [entries, List.getD_eq_getElem?_getD, List.getElem?_eq_none hlength]
  rfl

/-- The entries of a slot are in the order of their edges, which are thus distinct. -/
theorem pairwise_edge_entries (slot : ℕ) :
    ((build g forward).entries slot).Pairwise fun e e' => e.edge < e'.edge := by
  by_cases hslot : slot < g.nodes.length
  · rw [entries_build hslot, List.pairwise_filterMap]
    refine g.pairwise_edge_links.imp fun hlt e he e' he' => ?_
    rwa [(Link.entryAt?_eq_some_iff.1 he).1, (Link.entryAt?_eq_some_iff.1 he').1]
  · rw [entries_eq_nil hslot]
    exact .nil

/-- The entries of a slot are the edges at it with both ends in the graph, seen from there. -/
theorem mem_entries_iff {slot : ℕ} {entry : Entry} :
    entry ∈ (build g forward).entries slot ↔ ∃ e, g.edges[entry.edge]? = some e ∧
      ((g.slot? e.source = some slot ∧ g.slot? e.target = some entry.slot) ∨
        (forward = false ∧ g.slot? e.target = some slot ∧ g.slot? e.source = some entry.slot)) := by
  by_cases hslot : slot < g.nodes.length
  · rw [entries_build hslot, List.mem_filterMap]
    constructor
    · rintro ⟨l, hl, hentry⟩
      obtain ⟨hedge, hends⟩ := Link.entryAt?_eq_some_iff.1 hentry
      obtain ⟨e, he, hsource, htarget⟩ := Graph.mem_links_iff.1 hl
      refine ⟨e, hedge ▸ he, ?_⟩
      rw [hsource, htarget]
      simpa only [Option.some_inj] using hends
    · rintro ⟨e, he, hends⟩
      obtain ⟨source, target, hsource, htarget⟩ : ∃ source target,
          g.slot? e.source = some source ∧ g.slot? e.target = some target := by
        obtain ⟨hsource, htarget⟩ | ⟨_, htarget, hsource⟩ := hends
        exacts [⟨_, _, hsource, htarget⟩, ⟨_, _, hsource, htarget⟩]
      refine ⟨⟨source, target, entry.edge⟩, Graph.mem_links_iff.2 ⟨e, he, hsource, htarget⟩, ?_⟩
      rw [hsource, htarget] at hends
      rw [Link.entryAt?_eq_some_iff]
      exact ⟨rfl, by simpa only [Option.some_inj] using hends⟩
  · -- There is no such slot, and no id stands for it.
    rw [entries_eq_nil hslot]
    constructor
    · exact fun h => absurd h List.not_mem_nil
    · rintro ⟨e, _, ⟨hsource, _⟩ | ⟨_, htarget, _⟩⟩
      · exact absurd (Graph.slot?_lt hsource) hslot
      · exact absurd (Graph.slot?_lt htarget) hslot

theorem slot_lt_of_mem_entries {slot : ℕ} {entry : Entry}
    (h : entry ∈ (build g forward).entries slot) : entry.slot < (build g forward).size := by
  rw [size_build]
  obtain ⟨e, _, ⟨_, htarget⟩ | ⟨_, _, hsource⟩⟩ := mem_entries_iff.1 h
  exacts [Graph.slot?_lt htarget, Graph.slot?_lt hsource]

theorem edge_lt_of_mem_entries {slot : ℕ} {entry : Entry}
    (h : entry ∈ (build g forward).entries slot) : entry.edge < g.edges.length := by
  obtain ⟨e, he, _⟩ := mem_entries_iff.1 h
  exact (List.getElem?_eq_some_iff.1 he).1

/-- In the forward view, the entries of a slot are the edges from its id, if it is the last slot
    with this id. -/
theorem mem_entries_forward_iff {slot : ℕ} {entry : Entry} :
    entry ∈ (build g true).entries slot ↔ ∃ e, g.edges[entry.edge]? = some e ∧
      LastAt e.source slot g.ids ∧ LastAt e.target entry.slot g.ids := by
  simp only [mem_entries_iff, Graph.slot?_eq_some_iff, Bool.true_eq_false, false_and, or_false]

/-- In the view of both directions, they are the edges at its id. -/
theorem mem_entries_undirected_iff {slot : ℕ} {entry : Entry} :
    entry ∈ (undirected g).entries slot ↔ ∃ e, g.edges[entry.edge]? = some e ∧
      ((LastAt e.source slot g.ids ∧ LastAt e.target entry.slot g.ids) ∨
        (LastAt e.target slot g.ids ∧ LastAt e.source entry.slot g.ids)) := by
  simp only [undirected, mem_entries_iff, Graph.slot?_eq_some_iff, true_and]

/-- An edge is seen from both of its ends, or from neither. -/
theorem mem_entries_comm {slot slot' edge : ℕ} :
    ⟨slot', edge⟩ ∈ (undirected g).entries slot ↔ ⟨slot, edge⟩ ∈ (undirected g).entries slot' := by
  simp only [mem_entries_undirected_iff]
  refine exists_congr fun e => and_congr_right fun _ => ?_
  rw [or_comm, and_comm, and_comm (a := LastAt e.source slot g.ids)]

/-! ### Ranges and order -/

/-- An adjacency has a slot for each node, and its entries are in range and in the order of their
    edges. -/
structure Indexes (adj : Adjacency) (g : Graph) : Prop where
  ids_eq : adj.ids = g.nodes.map (·.id)
  size_eq : adj.size = g.nodes.length
  slot_lt : ∀ slot, ∀ entry ∈ adj.entries slot, entry.slot < g.nodes.length
  edge_lt : ∀ slot, ∀ entry ∈ adj.entries slot, entry.edge < g.edges.length
  ordered : ∀ slot, (adj.entries slot).Pairwise fun e e' => e.edge < e'.edge

theorem indexes_build (g : Graph) (forward : Bool) : (build g forward).Indexes g where
  ids_eq := rfl
  size_eq := size_build
  slot_lt _ _ h := size_build (g := g) ▸ slot_lt_of_mem_entries h
  edge_lt _ _ h := edge_lt_of_mem_entries h
  ordered := pairwise_edge_entries

/-- Whatever the ids and the ends of the edges of a graph are, an id stands for the last slot with
    it, both views are in range and in order, and the entries of a slot are the edges between the
    slots that ids stand for: in the forward view from source to target, in the other view both
    ways, so that it is symmetric. -/
theorem build_indexes_edges (g : Graph) :
    (∀ forward id slot, (build g forward).slot? id = some slot ↔ LastAt id slot g.ids) ∧
      (∀ forward, (build g forward).Indexes g) ∧
      (∀ u v i, ⟨v, i⟩ ∈ (build g true).entries u ↔ ∃ e, g.edges[i]? = some e ∧
        LastAt e.source u g.ids ∧ LastAt e.target v g.ids) ∧
      (∀ u v i, ⟨v, i⟩ ∈ (build g false).entries u ↔ ∃ e, g.edges[i]? = some e ∧
        ((LastAt e.source u g.ids ∧ LastAt e.target v g.ids) ∨
          (LastAt e.target u g.ids ∧ LastAt e.source v g.ids))) ∧
      ∀ u v i, ⟨v, i⟩ ∈ (build g false).entries u ↔ ⟨u, i⟩ ∈ (build g false).entries v :=
  ⟨fun _ _ _ => slot?_build ▸ Graph.slot?_eq_some_iff, indexes_build g,
    fun _ _ _ => mem_entries_forward_iff,
    fun _ _ _ => mem_entries_undirected_iff, fun _ _ _ => mem_entries_comm⟩

example :
    let g : Graph :=
      { Graph.empty "g" with
        nodes := [.new "a" none, .new "b" none, .new "a" none]
        edges := [⟨"a", "b", 1⟩, ⟨"a", "a", 1⟩, ⟨"b", "c", 1⟩, ⟨"b", "a", 1⟩] }
    (build g true).slots = [[], [⟨2, 3⟩], [⟨1, 0⟩, ⟨2, 1⟩]] ∧
      (undirected g).slots = [[], [⟨2, 0⟩, ⟨2, 3⟩], [⟨1, 0⟩, ⟨2, 1⟩, ⟨1, 3⟩]] := by
  decide

/-! ### Entries left

A search that settles slots one after the other has the entries of the others left. What it takes
off these bounds its rounds.
-/

section

variable {adj : Adjacency} {settled : Finset ℕ}

/-- The number of entries of the slots that are not settled. -/
def load (adj : Adjacency) (settled : Finset ℕ) : ℕ :=
  ∑ v ∈ Finset.range adj.size \ settled, (adj.entries v).length

theorem load_empty (hsize : adj.slots.length = adj.size) :
    adj.load ∅ = adj.slots.flatten.length := by
  rw [load, Finset.sdiff_empty, ← hsize]
  change ∑ v ∈ Finset.range adj.slots.length, (adj.slots.getD v []).length = _
  generalize adj.slots = slots
  induction slots with
  | nil => rfl
  | cons first rest ih =>
    rw [List.length_cons, Finset.sum_range_succ', List.flatten_cons, List.length_append, ← ih,
      add_comm]
    rfl

/-- Settling a slot takes its entries off the load. -/
theorem load_insert {v : ℕ} (hv : v < adj.size) (hnew : v ∉ settled) :
    (adj.entries v).length + adj.load (insert v settled) = adj.load settled := by
  rw [load, load, Finset.sdiff_insert]
  exact Finset.add_sum_erase _ (fun v => (adj.entries v).length)
    (Finset.mem_sdiff.2 ⟨Finset.mem_range.2 hv, hnew⟩)

end

end Adjacency

end GraphScript
