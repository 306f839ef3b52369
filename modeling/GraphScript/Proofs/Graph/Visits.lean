import GraphScript.Graph.Search
import Mathlib.Data.Finset.Card
import Mathlib.Data.List.Nodup

/-!
# Visits

A breadth-first search told with the way to each slot: a *visit* keeps the trail that led to its
slot. It is the search of `Graph.Search` with the trails in the place of the parents (see
`GraphScript.Proofs.Graph.Parents`), and everything about its order and its paths is proved here
and in the modules behind.

A visit's distance is the length of its trail. `Adjacency.Queued` says what the search keeps:
no slot is visited twice, and the queue holds visits of one distance, followed by visits of
the next (`Queued.sorted`, `Queued.near`). A round keeps it (`Queued.round`).
-/

namespace GraphScript

/-- A slot that a search has found. -/
structure Visit where
  slot : Nat
  /-- The slots on the way from the origin, the last one first. -/
  trail : List Nat
  deriving DecidableEq, Repr

/-- The slots from the origin to the visited one. -/
def Visit.path (v : Visit) : List Nat :=
  (v.slot :: v.trail).reverse

namespace Adjacency

/-- What the entries of a visited slot add to the visits known so far. -/
def discover (v : Visit) (known : List Visit) : List Entry → List Visit
  | [] => []
  | entry :: rest =>
    if known.any (·.slot == entry.slot) then discover v known rest
    else
      let found : Visit := { slot := entry.slot, trail := v.slot :: v.trail }
      found :: discover v (found :: known) rest

/-- Works off the queue for at most the given number of rounds. -/
def explore (adj : Adjacency) : Nat → List Visit → List Visit → List Visit
  | 0, done, _ => done
  | _ + 1, done, [] => done
  | rounds + 1, done, v :: queue =>
    explore adj rounds (done ++ [v])
      (queue ++ discover v (done ++ v :: queue) (adj.entries v.slot))

/-- The visits from an origin. Each round ends one visit and no slot is visited
    twice, so a round for each slot is enough. -/
def search (adj : Adjacency) (origin : Nat) : List Visit :=
  explore adj adj.size [] [{ slot := origin, trail := [] }]

/-- A search from each of the given slots that no earlier search has visited. -/
def searchAll (adj : Adjacency) : List Nat → List Nat → List (List Visit)
  | [], _ => []
  | origin :: rest, assigned =>
    if assigned.contains origin then searchAll adj rest assigned
    else
      let visits := adj.search origin
      visits :: searchAll adj rest (visits.map (·.slot) ++ assigned)

/-- The visits of all slots, a list for each connected component. -/
def searches (adj : Adjacency) : List (List Visit) :=
  searchAll adj (List.range adj.size) []

variable {adj : Adjacency} {v : Visit} {known : List Visit} {entries : List Entry}

/-- What is found through a visit has that visit on its trail. -/
theorem of_mem_discover {d : Visit} (h : d ∈ discover v known entries) :
    d.trail = v.slot :: v.trail ∧ ∃ entry ∈ entries, entry.slot = d.slot := by
  induction entries generalizing known with
  | nil => cases h
  | cons entry rest ih =>
    rw [discover] at h
    split_ifs at h
    · obtain ⟨htrail, entry', hentry', hslot⟩ := ih h
      exact ⟨htrail, entry', List.mem_cons_of_mem _ hentry', hslot⟩
    · rcases List.mem_cons.1 h with rfl | h
      · exact ⟨rfl, entry, List.mem_cons_self, rfl⟩
      · obtain ⟨htrail, entry', hentry', hslot⟩ := ih h
        exact ⟨htrail, entry', List.mem_cons_of_mem _ hentry', hslot⟩

theorem any_slot_iff {slot : ℕ} :
    known.any (·.slot == slot) = true ↔ ∃ x ∈ known, x.slot = slot := by
  simp

/-- What is found is new. -/
theorem slot_ne_of_mem_discover {d x : Visit} (h : d ∈ discover v known entries)
    (hx : x ∈ known) : x.slot ≠ d.slot := by
  induction entries generalizing known with
  | nil => cases h
  | cons entry rest ih =>
    rw [discover] at h
    split_ifs at h with hknown
    · exact ih h hx
    · rcases List.mem_cons.1 h with rfl | h
      · exact fun hslot => hknown (any_slot_iff.2 ⟨x, hx, hslot⟩)
      · exact ih h (List.mem_cons_of_mem _ hx)

theorem nodup_discover : ((discover v known entries).map (·.slot)).Nodup := by
  induction entries generalizing known with
  | nil => exact List.nodup_nil
  | cons entry rest ih =>
    rw [discover]
    split_ifs
    · exact ih
    · rw [List.map_cons, List.nodup_cons]
      refine ⟨fun hmem => ?_, ih⟩
      obtain ⟨d, hd, hslot⟩ := List.mem_map.1 hmem
      exact slot_ne_of_mem_discover hd List.mem_cons_self hslot.symm

theorem length_discover_le : (discover v known entries).length ≤ entries.length := by
  induction entries generalizing known with
  | nil => exact le_rfl
  | cons entry rest ih =>
    rw [discover]
    split_ifs
    · exact ih.trans (Nat.le_succ _)
    · exact Nat.succ_le_succ ih

/-- The search never takes back a visit. -/
theorem prefix_explore (rounds : ℕ) (done queue : List Visit) :
    done <+: adj.explore rounds done queue := by
  induction rounds generalizing done queue with
  | zero => exact List.prefix_rfl
  | succ rounds ih =>
    cases queue with
    | nil => exact List.prefix_rfl
    | cons v queue => exact (List.prefix_append done [v]).trans (ih _ _)

theorem explore_nil (rounds : ℕ) (done : List Visit) : adj.explore rounds done [] = done := by
  cases rounds <;> rfl

/-- The visits ended and those to come, between two rounds of a search. -/
structure Queued (adj : Adjacency) (done queue : List Visit) : Prop where
  nodup : ((done ++ queue).map (·.slot)).Nodup
  slot_lt : ∀ v ∈ done ++ queue, v.slot < adj.size
  sorted : queue.Pairwise fun a b => a.trail.length ≤ b.trail.length
  near : ∀ a ∈ queue, ∀ b ∈ done ++ queue, b.trail.length ≤ a.trail.length + 1
  length_le : ∀ v ∈ queue, v.trail.length ≤ done.length

namespace Queued

variable {done queue : List Visit}

theorem length_add_le (h : adj.Queued done queue) : done.length + queue.length ≤ adj.size := by
  have hsub : ((done ++ queue).map (·.slot)).toFinset ⊆ Finset.range adj.size := by
    intro slot hslot
    obtain ⟨v, hv, rfl⟩ := List.mem_map.1 (List.mem_toFinset.1 hslot)
    exact Finset.mem_range.2 (h.slot_lt v hv)
  have hcard := Finset.card_le_card hsub
  rwa [List.toFinset_card_of_nodup h.nodup, Finset.card_range, List.length_map,
    List.length_append] at hcard

/-- A visit in the queue is to a slot that no earlier visit was to. -/
theorem slot_ne (h : adj.Queued done (v :: queue)) {x : Visit} (hx : x ∈ done) :
    x.slot ≠ v.slot := by
  have hnodup := h.nodup
  rw [List.map_append, List.nodup_append] at hnodup
  exact hnodup.2.2 _ (List.mem_map_of_mem hx) _ (List.mem_map_of_mem List.mem_cons_self)

theorem start {origin : ℕ} (h : origin < adj.size) : adj.Queued [] [⟨origin, []⟩] where
  nodup := List.nodup_singleton _
  slot_lt v hv := by rwa [List.mem_singleton.1 hv]
  sorted := List.pairwise_singleton _ _
  near a ha b hb := by rw [List.mem_singleton.1 hb]; exact Nat.zero_le _
  length_le v hv := by rw [List.mem_singleton.1 hv]; exact le_rfl

theorem round (hentries : ∀ v, ∀ entry ∈ adj.entries v, entry.slot < adj.size)
    (h : adj.Queued done (v :: queue)) :
    adj.Queued (done ++ [v])
      (queue ++ discover v (done ++ v :: queue) (adj.entries v.slot)) := by
  set found := discover v (done ++ v :: queue) (adj.entries v.slot)
  have hassoc : done ++ [v] ++ (queue ++ found) = done ++ v :: queue ++ found := by simp
  have hfound : ∀ d ∈ found, d.trail.length = v.trail.length + 1 := by
    intro d hd
    rw [(of_mem_discover hd).1, List.length_cons]
  have hsorted := List.pairwise_cons.1 h.sorted
  have hnear : ∀ b ∈ done ++ v :: queue ++ found, b.trail.length ≤ v.trail.length + 1 := by
    intro b hb
    rcases List.mem_append.1 hb with hb | hb
    · exact h.near v List.mem_cons_self b hb
    · exact (hfound b hb).le
  constructor
  case nodup =>
    rw [hassoc, List.map_append, List.nodup_append]
    refine ⟨h.nodup, nodup_discover, fun slot hslot slot' hslot' => ?_⟩
    obtain ⟨x, hx, rfl⟩ := List.mem_map.1 hslot
    obtain ⟨d, hd, rfl⟩ := List.mem_map.1 hslot'
    exact slot_ne_of_mem_discover hd hx
  case slot_lt =>
    rw [hassoc]
    intro x hx
    rcases List.mem_append.1 hx with hx | hx
    · exact h.slot_lt x hx
    · obtain ⟨_, entry, hentry, hslot⟩ := of_mem_discover hx
      exact hslot ▸ hentries _ entry hentry
  case sorted =>
    refine List.pairwise_append.2 ⟨hsorted.2, List.pairwise_iff_forall_sublist.2 ?_, ?_⟩
    · intro a b hab
      rw [hfound a (hab.subset (by simp)), hfound b (hab.subset (by simp))]
    · intro a ha d hd
      rw [hfound d hd]
      exact h.near v List.mem_cons_self a (by simp [ha])
  case near =>
    -- Nothing left in the queue is nearer than the visit that ends.
    rw [hassoc]
    intro a ha b hb
    have hle : v.trail.length ≤ a.trail.length := by
      rcases List.mem_append.1 ha with ha | ha
      · exact hsorted.1 a ha
      · rw [hfound a ha]
        exact Nat.le_succ _
    exact (hnear b hb).trans (Nat.succ_le_succ hle)
  case length_le =>
    intro a ha
    rw [List.length_append, List.length_singleton]
    rcases List.mem_append.1 ha with ha | ha
    · exact (h.length_le a (List.mem_cons_of_mem _ ha)).trans (Nat.le_succ _)
    · rw [hfound a ha]
      exact Nat.succ_le_succ (h.length_le v List.mem_cons_self)

end Queued

/-- What every round keeps holds at the end of the search. No slot is visited twice, so a round for
    each slot is enough to get there. -/
theorem explore_keeps (hentries : ∀ v, ∀ entry ∈ adj.entries v, entry.slot < adj.size)
    {kept : List Visit → List Visit → Prop}
    (hround : ∀ done v queue, adj.Queued done (v :: queue) → kept done (v :: queue) →
      kept (done ++ [v]) (queue ++ discover v (done ++ v :: queue) (adj.entries v.slot)))
    {rounds : ℕ} {done queue : List Visit} (hrounds : adj.size ≤ rounds + done.length)
    (hqueued : adj.Queued done queue) (h : kept done queue) :
    kept (adj.explore rounds done queue) [] := by
  induction rounds generalizing done queue with
  | zero =>
    have hle := hqueued.length_add_le
    obtain rfl : queue = [] := List.length_eq_zero_iff.1 (by omega)
    exact h
  | succ rounds ih =>
    cases queue with
    | nil => exact h
    | cons v queue =>
      refine ih ?_ (hqueued.round hentries) (hround done v queue hqueued h)
      rw [List.length_append, List.length_singleton]
      omega

/-- The search visits its origin first. -/
theorem exists_search_eq_cons {origin : ℕ} (h : origin < adj.size) :
    ∃ rest, adj.search origin = ⟨origin, []⟩ :: rest := by
  obtain ⟨rounds, hrounds⟩ : ∃ rounds, adj.size = rounds + 1 := ⟨adj.size - 1, by omega⟩
  obtain ⟨rest, hrest⟩ := adj.prefix_explore rounds ([] ++ [⟨origin, []⟩])
    ([] ++ discover ⟨origin, []⟩ ([] ++ [⟨origin, []⟩]) (adj.entries origin))
  refine ⟨rest, ?_⟩
  rw [search, hrounds, explore]
  exact hrest.symm

end Adjacency

end GraphScript
