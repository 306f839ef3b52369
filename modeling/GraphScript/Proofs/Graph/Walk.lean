import GraphScript.Graph.CheapestPath
import GraphScript.Proofs.Graph.Adjacency

/-!
# Walks

A walk goes from node to node along edges, from source to target or, where directions do not
matter, either way. Both ends of an edge in use are nodes, so an edge with a missing end is
on no walk. The cost of a walk is the sum of the weights of its edges, added from its start.

A *way* is what a search sees of a walk: slots and entries in place of ids and edges. The two
are the same (`Way.walk`, `Walk.way`), also where ids are repeated: entries are found at the
slots that ids stand for, and only there.
-/

namespace GraphScript

/-- Whether an edge can be taken from one node to another. -/
def Edge.Leads (forward : Bool) (e : Edge) (a b : String) : Prop :=
  (e.source = a ∧ e.target = b) ∨ (forward = false ∧ e.target = a ∧ e.source = b)

/-- The walks from a node: where they end, the nodes on them and what they cost. -/
inductive Graph.Walk (g : Graph) (forward : Bool) (start : String) :
    String → List String → Float → Prop
  | start : start ∈ g.ids → Walk g forward start start [start] 0.0
  | step {a b : String} {path : List String} {cost : Float} {e : Edge} :
    Walk g forward start a path cost → e ∈ g.edges → e.Leads forward a b → b ∈ g.ids →
      Walk g forward start b (path ++ [b]) (cost + e.weight)

/-- The ways from a slot: where they end, the slots before, the last one first, and what they
    cost. -/
inductive Adjacency.Way (adj : Adjacency) (weight : ℕ → Float) (origin : ℕ) :
    ℕ → List ℕ → Float → Prop
  | start : Way adj weight origin origin [] 0.0
  | step {slot : ℕ} {trail : List ℕ} {cost : Float} {entry : Entry} :
    Way adj weight origin slot trail cost → entry ∈ adj.entries slot →
      Way adj weight origin entry.slot (slot :: trail) (cost + weight entry.edge)

namespace Graph

variable {g : Graph} {forward : Bool} {start : String}

theorem Walk.head? {target : String} {path : List String} {cost : Float}
    (h : g.Walk forward start target path cost) : path.head? = some start := by
  induction h with
  | start _ => rfl
  | step _ _ _ _ ih => rw [List.head?_append, ih, Option.some_or]

theorem Walk.getLast? {target : String} {path : List String} {cost : Float}
    (h : g.Walk forward start target path cost) : path.getLast? = some target := by
  cases h with
  | start _ => rfl
  | step _ _ _ _ => exact List.getLast?_concat

theorem weightAt_of_getElem? {i : ℕ} {e : Edge} (h : g.edges[i]? = some e) :
    g.weightAt i = e.weight := by
  rw [weightAt, h]
  rfl

theorem exists_slot? {id : String} (h : id ∈ g.ids) : ∃ slot, g.slot? id = some slot :=
  Option.ne_none_iff_exists'.1 fun hnone => slot?_eq_none_iff.1 hnone h

/-- Two ids that stand for one slot are the same. -/
theorem slot?_inj {id id' : String} {slot : ℕ} (h : g.slot? id = some slot)
    (h' : g.slot? id' = some slot) : id = id' :=
  Option.some_inj.1 ((slot?_eq_some h).symm.trans (slot?_eq_some h'))

end Graph

namespace Adjacency

variable {g : Graph} {forward : Bool} {start : String} {origin : ℕ}

/-- The entries of the slot of a node are the edges that lead on from there. -/
theorem mem_entries_of_slot? {a : String} {slot : ℕ} {entry : Entry}
    (ha : g.slot? a = some slot) :
    entry ∈ (build g forward).entries slot ↔ ∃ e b, g.edges[entry.edge]? = some e ∧
      e.Leads forward a b ∧ g.slot? b = some entry.slot := by
  rw [mem_entries_iff]
  constructor
  · rintro ⟨e, he, ⟨hsource, htarget⟩ | ⟨hforward, htarget, hsource⟩⟩
    · exact ⟨e, e.target, he, .inl ⟨Graph.slot?_inj hsource ha, rfl⟩, htarget⟩
    · exact ⟨e, e.source, he, .inr ⟨hforward, Graph.slot?_inj htarget ha, rfl⟩, hsource⟩
  · rintro ⟨e, b, he, ⟨rfl, rfl⟩ | ⟨hforward, rfl, rfl⟩, hb⟩
    · exact ⟨e, he, .inl ⟨ha, hb⟩⟩
    · exact ⟨e, he, .inr ⟨hforward, ha, hb⟩⟩

theorem names_append {id : String} {slot : ℕ} (h : g.slot? id = some slot) (slots : List ℕ) :
    (build g forward).names (slots ++ [slot]) = (build g forward).names slots ++ [id] := by
  simp [names, build, Graph.slot?_eq_some h]

/-- A way is a walk through the nodes that its slots stand for. -/
theorem Way.walk (horigin : g.slot? start = some origin) {slot : ℕ} {trail : List ℕ}
    {cost : Float} (h : (build g forward).Way g.weightAt origin slot trail cost) :
    ∃ id, g.slot? id = some slot ∧
      g.Walk forward start id ((build g forward).names (slot :: trail).reverse) cost := by
  induction h with
  | start =>
    refine ⟨start, horigin, ?_⟩
    rw [List.reverse_singleton, ← List.nil_append [origin], names_append horigin]
    exact .start (List.mem_of_getElem? (Graph.slot?_eq_some horigin))
  | step _ hentry ih =>
    obtain ⟨a, ha, hwalk⟩ := ih
    obtain ⟨e, b, he, hleads, hb⟩ := (mem_entries_of_slot? ha).1 hentry
    refine ⟨b, hb, ?_⟩
    rw [List.reverse_cons, names_append hb, Graph.weightAt_of_getElem? he]
    exact .step hwalk (List.mem_of_getElem? he) hleads
      (List.mem_of_getElem? (Graph.slot?_eq_some hb))

/-- Every slot on a way is the one that some id stands for. -/
theorem Way.exists_slot? (horigin : g.slot? start = some origin) {slot : ℕ} {trail : List ℕ}
    {cost : Float} (h : (build g forward).Way g.weightAt origin slot trail cost) :
    ∀ s ∈ slot :: trail, ∃ id, g.slot? id = some s := by
  induction h with
  | start =>
    intro s hs
    rw [List.mem_singleton.1 hs]
    exact ⟨start, horigin⟩
  | step _ hentry ih =>
    intro s hs
    rcases List.mem_cons.1 hs with rfl | hs
    · obtain ⟨a, ha⟩ := ih _ List.mem_cons_self
      obtain ⟨_, b, _, _, hb⟩ := (mem_entries_of_slot? ha).1 hentry
      exact ⟨b, hb⟩
    · exact ih s hs

/-- Different slots that ids stand for are different nodes. -/
theorem nodup_names {slots : List ℕ} (hnodup : slots.Nodup)
    (hslots : ∀ s ∈ slots, ∃ id, g.slot? id = some s) :
    ((build g forward).names slots).Nodup := by
  refine hnodup.map_on fun s hs s' hs' hname => ?_
  obtain ⟨id, hid⟩ := hslots s hs
  obtain ⟨id', hid'⟩ := hslots s' hs'
  have hids : id = id' := by
    simpa [build, Graph.slot?_eq_some hid, Graph.slot?_eq_some hid'] using hname
  exact Option.some_inj.1 (hid.symm.trans (hids ▸ hid'))

theorem Way.nodup_names (horigin : g.slot? start = some origin) {slot : ℕ} {trail : List ℕ}
    {cost : Float} (h : (build g forward).Way g.weightAt origin slot trail cost)
    (hnodup : (slot :: trail).Nodup) :
    ((build g forward).names (slot :: trail).reverse).Nodup :=
  Adjacency.nodup_names (List.nodup_reverse.2 hnodup) fun s hs =>
    h.exists_slot? horigin s (List.mem_reverse.1 hs)

end Adjacency

/-- A walk is a way through the slots of its nodes, at the same cost. -/
theorem Graph.Walk.way {g : Graph} {forward : Bool} {start target : String} {origin : ℕ}
    {path : List String} {cost : Float} (horigin : g.slot? start = some origin)
    (h : g.Walk forward start target path cost) :
    ∃ slot trail, g.slot? target = some slot ∧
      (Adjacency.build g forward).Way g.weightAt origin slot trail cost ∧
      path = (Adjacency.build g forward).names (slot :: trail).reverse := by
  induction h with
  | start _ =>
    refine ⟨origin, [], horigin, .start, ?_⟩
    rw [List.reverse_singleton, ← List.nil_append [origin], Adjacency.names_append horigin]
    rfl
  | step _ he hleads htarget ih =>
    obtain ⟨slot, trail, hslot, hway, rfl⟩ := ih
    obtain ⟨i, hi⟩ := List.getElem?_of_mem he
    obtain ⟨slot', hslot'⟩ := exists_slot? htarget
    have hentry : ⟨slot', i⟩ ∈ (Adjacency.build g forward).entries slot :=
      (Adjacency.mem_entries_of_slot? hslot).2 ⟨_, _, hi, hleads, hslot'⟩
    refine ⟨slot', slot :: trail, hslot', ?_, ?_⟩
    · rw [← weightAt_of_getElem? hi]
      exact .step hway hentry
    · conv_rhs => rw [List.reverse_cons, Adjacency.names_append hslot']

end GraphScript
