import GraphScript.Proofs.Graph.Visits
import GraphScript.Proofs.Graph.Walk
import Mathlib.Logic.Relation

/-!
# Connectivity

Two slots are *connected* when links lead from the one to the other, in either direction
(`Connected`). This is an equivalence, and one more link makes two classes of it one
(`connected_concat`).

The breadth-first search visits the slots that are connected to its origin, and visits each of
them once (`mem_search_iff`): at its end the visits are closed under entries (`Explores.closed`),
and every visit has come there along its trail (`Explores.ways`). So the search for all slots
begins anew at the *leaders* only, the slots that come first in their classes (`searches_eq`).
-/

namespace GraphScript

/-! ### Links -/

/-- Some link joins the two slots. -/
def Linked (links : List Link) (a b : ℕ) : Prop :=
  ∃ l ∈ links, (l.source = a ∧ l.target = b) ∨ (l.source = b ∧ l.target = a)

/-- Links lead from the one slot to the other. -/
def Connected (links : List Link) : ℕ → ℕ → Prop :=
  Relation.ReflTransGen (Linked links)

variable {links links' : List Link} {l : Link} {a b c n : ℕ}

theorem Linked.symm (h : Linked links a b) : Linked links b a := by
  obtain ⟨l, hl, hends⟩ := h
  exact ⟨l, hl, hends.symm⟩

theorem linked_of_mem (h : l ∈ links) : Linked links l.source l.target :=
  ⟨l, h, .inl ⟨rfl, rfl⟩⟩

namespace Connected

theorem refl (links : List Link) (a : ℕ) : Connected links a a :=
  Relation.ReflTransGen.refl

theorem trans (h : Connected links a b) (h' : Connected links b c) : Connected links a c :=
  Relation.ReflTransGen.trans h h'

theorem of_linked (h : Linked links a b) : Connected links a b :=
  Relation.ReflTransGen.single h

theorem symm (h : Connected links a b) : Connected links b a := by
  induction h with
  | refl => exact refl links a
  | tail _ hlinked ih => exact (of_linked hlinked.symm).trans ih

theorem of_mem (h : l ∈ links) : Connected links l.source l.target := of_linked (linked_of_mem h)

theorem mono (h : Connected links a b) (hsubset : links ⊆ links') : Connected links' a b := by
  induction h with
  | refl => exact refl links' a
  | tail _ hlinked ih =>
    obtain ⟨l, hl, hends⟩ := hlinked
    exact ih.trans (of_linked ⟨l, hsubset hl, hends⟩)

/-- Links between slots lead to slots. -/
theorem lt (h : Connected links a b) (hlinks : ∀ l ∈ links, l.source < n ∧ l.target < n)
    (ha : a < n) : b < n := by
  induction h with
  | refl => exact ha
  | tail _ hlinked _ =>
    obtain ⟨l, hl, ⟨-, rfl⟩ | ⟨rfl, -⟩⟩ := hlinked
    exacts [(hlinks l hl).2, (hlinks l hl).1]

end Connected

/-- A link connects what its two ends were connected to. -/
theorem connected_concat : Connected (links ++ [l]) a b ↔ Connected links a b ∨
    (Connected links a l.source ∧ Connected links l.target b) ∨
      (Connected links a l.target ∧ Connected links l.source b) := by
  have hsubset : links ⊆ links ++ [l] := List.subset_append_left _ _
  have hlast : Connected (links ++ [l]) l.source l.target :=
    .of_mem (List.mem_append_right _ List.mem_cons_self)
  constructor
  · intro h
    induction h with
    | refl => exact .inl (.refl links a)
    | @tail c d _ hlinked ih =>
      obtain ⟨l', hl', hends⟩ := hlinked
      rcases List.mem_append.1 hl' with hl' | hl'
      · -- A step along one of the old links goes on where the way has come to.
        have hstep : Connected links c d := .of_linked ⟨l', hl', hends⟩
        exact ih.imp (·.trans hstep)
          (Or.imp (And.imp_right (·.trans hstep)) (And.imp_right (·.trans hstep)))
      · -- A step along the new link ends at one of its ends, wherever it came from.
        obtain rfl := List.mem_singleton.1 hl'
        obtain ⟨rfl, rfl⟩ | ⟨rfl, rfl⟩ := hends
        · rcases ih with h | ⟨h, -⟩ | ⟨h, -⟩
          exacts [.inr (.inl ⟨h, .refl _ _⟩), .inr (.inl ⟨h, .refl _ _⟩), .inl h]
        · rcases ih with h | ⟨h, -⟩ | ⟨h, -⟩
          exacts [.inr (.inr ⟨h, .refl _ _⟩), .inl h, .inr (.inr ⟨h, .refl _ _⟩)]
  · rintro (h | ⟨h, h'⟩ | ⟨h, h'⟩)
    · exact h.mono hsubset
    · exact ((h.mono hsubset).trans hlast).trans (h'.mono hsubset)
    · exact ((h.mono hsubset).trans hlast.symm).trans (h'.mono hsubset)

/-! ### Entries -/

namespace Graph

variable {g : Graph}

theorem links_lt (h : l ∈ g.links) : l.source < g.nodes.length ∧ l.target < g.nodes.length := by
  obtain ⟨e, -, hsource, htarget⟩ := mem_links_iff.1 h
  exact ⟨slot?_lt hsource, slot?_lt htarget⟩

/-- Where directions do not matter, entries lead along links either way. -/
theorem exists_entry_iff :
    (∃ entry ∈ (Adjacency.undirected g).entries a, entry.slot = b) ↔ Linked g.links a b := by
  constructor
  · rintro ⟨entry, hentry, rfl⟩
    obtain ⟨e, he, ⟨hsource, htarget⟩ | ⟨-, htarget, hsource⟩⟩ := Adjacency.mem_entries_iff.1 hentry
    · exact ⟨⟨a, entry.slot, entry.edge⟩, mem_links_iff.2 ⟨e, he, hsource, htarget⟩,
        .inl ⟨rfl, rfl⟩⟩
    · exact ⟨⟨entry.slot, a, entry.edge⟩, mem_links_iff.2 ⟨e, he, hsource, htarget⟩,
        .inr ⟨rfl, rfl⟩⟩
  · rintro ⟨l, hl, hends⟩
    obtain ⟨e, he, hsource, htarget⟩ := mem_links_iff.1 hl
    refine ⟨⟨b, l.edge⟩, Adjacency.mem_entries_iff.2 ⟨e, he, ?_⟩, rfl⟩
    obtain ⟨rfl, rfl⟩ | ⟨rfl, rfl⟩ := hends
    exacts [.inl ⟨hsource, htarget⟩, .inr ⟨rfl, htarget, hsource⟩]

/-- Two slots are linked when they are the slots of the ends of an edge. -/
theorem linked_iff_edge : Linked g.links a b ↔ ∃ e ∈ g.edges,
    (g.slot? e.source = some a ∧ g.slot? e.target = some b) ∨
      (g.slot? e.source = some b ∧ g.slot? e.target = some a) := by
  constructor
  · rintro ⟨l, hl, hends⟩
    obtain ⟨e, he, hsource, htarget⟩ := mem_links_iff.1 hl
    refine ⟨e, List.mem_of_getElem? he, ?_⟩
    obtain ⟨rfl, rfl⟩ | ⟨rfl, rfl⟩ := hends
    exacts [.inl ⟨hsource, htarget⟩, .inr ⟨hsource, htarget⟩]
  · rintro ⟨e, he, hends⟩
    obtain ⟨i, hi⟩ := List.getElem?_of_mem he
    obtain ⟨hsource, htarget⟩ | ⟨hsource, htarget⟩ := hends
    · exact ⟨⟨a, b, i⟩, mem_links_iff.2 ⟨e, hi, hsource, htarget⟩, .inl ⟨rfl, rfl⟩⟩
    · exact ⟨⟨b, a, i⟩, mem_links_iff.2 ⟨e, hi, hsource, htarget⟩, .inr ⟨rfl, rfl⟩⟩

end Graph

/-! ### The search -/

namespace Adjacency

variable {adj : Adjacency} {weight : ℕ → Float} {origin : ℕ} {v : Visit}
  {done queue known : List Visit}

/-- The slot of every entry is known, or found through it. -/
theorem exists_of_mem_entries {entries : List Entry} {entry : Entry} (h : entry ∈ entries) :
    ∃ w ∈ known ++ discover v known entries, w.slot = entry.slot := by
  induction entries generalizing known with
  | nil => exact absurd h List.not_mem_nil
  | cons first rest ih =>
    rw [discover]
    split_ifs with hknown
    · rcases List.mem_cons.1 h with rfl | h
      · obtain ⟨w, hw, hslot⟩ := any_slot_iff.1 hknown
        exact ⟨w, List.mem_append_left _ hw, hslot⟩
      · exact ih h
    · rcases List.mem_cons.1 h with rfl | h
      · exact ⟨_, List.mem_append_right _ List.mem_cons_self, rfl⟩
      · obtain ⟨w, hw, hslot⟩ := @ih (⟨first.slot, v.slot :: v.trail⟩ :: known) h
        refine ⟨w, ?_, hslot⟩
        simp only [List.mem_append, List.mem_cons] at hw ⊢
        tauto

/-- What the search from an origin keeps: every visit has come along its trail, and what the
    visits that have ended lead to is known. -/
structure Explores (adj : Adjacency) (weight : ℕ → Float) (origin : ℕ) (done queue : List Visit) :
    Prop extends Queued adj done queue where
  ways : ∀ v ∈ done ++ queue, ∃ cost, adj.Way weight origin v.slot v.trail cost
  closed : ∀ v ∈ done, ∀ entry ∈ adj.entries v.slot, ∃ w ∈ done ++ queue, w.slot = entry.slot
  begun : ∃ v ∈ done ++ queue, v.slot = origin

theorem Explores.start (h : origin < adj.size) :
    adj.Explores weight origin [] [⟨origin, []⟩] where
  toQueued := .start h
  ways v hv := by
    rw [List.mem_singleton.1 hv]
    exact ⟨_, .start⟩
  closed := List.forall_mem_nil _
  begun := ⟨_, List.mem_cons_self, rfl⟩

theorem Explores.round (hentries : ∀ v, ∀ entry ∈ adj.entries v, entry.slot < adj.size)
    (h : adj.Explores weight origin done (v :: queue)) :
    adj.Explores weight origin (done ++ [v])
      (queue ++ discover v (done ++ v :: queue) (adj.entries v.slot)) := by
  set found := discover v (done ++ v :: queue) (adj.entries v.slot)
  have hassoc : done ++ [v] ++ (queue ++ found) = done ++ v :: queue ++ found := by simp
  have hold {slot : ℕ} (hknown : ∃ w ∈ done ++ v :: queue, w.slot = slot) :
      ∃ w ∈ done ++ v :: queue ++ found, w.slot = slot := by
    obtain ⟨w, hw, hslot⟩ := hknown
    exact ⟨w, List.mem_append_left _ hw, hslot⟩
  refine ⟨h.toQueued.round hentries, ?_, ?_, ?_⟩
  · rw [hassoc]
    intro w hw
    rcases List.mem_append.1 hw with hw | hw
    · exact h.ways w hw
    · obtain ⟨cost, hway⟩ := h.ways v (by simp)
      obtain ⟨htrail, entry, hentry, hslot⟩ := of_mem_discover hw
      rw [htrail, ← hslot]
      exact ⟨_, hway.step hentry⟩
  · rw [hassoc]
    intro w hw entry hentry
    rcases List.mem_append.1 hw with hw | hw
    · exact hold (h.closed w hw entry hentry)
    · rw [List.mem_singleton.1 hw] at hentry
      exact exists_of_mem_entries hentry
  · rw [hassoc]
    exact hold h.begun

theorem Explores.explore (hentries : ∀ v, ∀ entry ∈ adj.entries v, entry.slot < adj.size)
    {rounds : ℕ} (hrounds : adj.size ≤ rounds + done.length)
    (h : adj.Explores weight origin done queue) :
    adj.Explores weight origin (adj.explore rounds done queue) [] :=
  explore_keeps hentries (fun _ _ _ _ hexplores => hexplores.round hentries) hrounds h.toQueued h

theorem Way.connected {g : Graph} {slot : ℕ} {trail : List ℕ} {cost : Float}
    (h : (undirected g).Way weight origin slot trail cost) : Connected g.links origin slot := by
  induction h with
  | start => exact .refl _ _
  | step _ hentry ih => exact ih.trans (.of_linked (Graph.exists_entry_iff.1 ⟨_, hentry, rfl⟩))

end Adjacency

namespace Graph

open Adjacency

variable {g : Graph} {origin slot : ℕ}

theorem search_explores (g : Graph) (weight : ℕ → Float) (h : origin < g.nodes.length) :
    (undirected g).Explores weight origin ((undirected g).search origin) [] := by
  have hsize : (undirected g).size = g.nodes.length := size_build
  exact (Explores.start (hsize ▸ h)).explore (fun _ _ => slot_lt_of_mem_entries)
    (Nat.le_add_right _ _)

/-- The search visits what is connected to its origin. -/
theorem mem_search_iff (h : origin < g.nodes.length) :
    slot ∈ ((undirected g).search origin).map (·.slot) ↔ Connected g.links origin slot := by
  have hexplores := g.search_explores g.weightAt h
  have hclosed := hexplores.closed
  obtain ⟨first, hfirst, horigin⟩ := hexplores.begun
  rw [List.append_nil] at hclosed hfirst
  rw [List.mem_map]
  constructor
  · rintro ⟨v, hv, rfl⟩
    obtain ⟨cost, hway⟩ := hexplores.ways v (List.mem_append_left _ hv)
    exact hway.connected
  · intro hconnected
    induction hconnected with
    | refl => exact ⟨first, hfirst, horigin⟩
    | tail _ hlinked ih =>
      obtain ⟨v, hv, rfl⟩ := ih
      obtain ⟨entry, hentry, rfl⟩ := exists_entry_iff.2 hlinked
      exact hclosed v hv entry hentry

theorem nodup_search (h : origin < g.nodes.length) :
    (((undirected g).search origin).map (·.slot)).Nodup := by
  have hnodup := (g.search_explores g.weightAt h).nodup
  rwa [List.append_nil] at hnodup

/-! ### Leaders -/

/-- The slot is the first of those that it is connected to. -/
def IsLeader (g : Graph) (slot : ℕ) : Prop :=
  ∀ earlier < slot, ¬Connected g.links earlier slot

open Classical in
/-- The leaders, in order. -/
noncomputable def leaders (g : Graph) : List ℕ :=
  (List.range g.nodes.length).filter fun slot => g.IsLeader slot

theorem mem_leaders : slot ∈ g.leaders ↔ slot < g.nodes.length ∧ g.IsLeader slot := by
  simp [leaders]

/-- Every slot has a leader. -/
theorem exists_leader (h : slot < g.nodes.length) :
    ∃ leader ∈ g.leaders, Connected g.links leader slot := by
  induction slot using Nat.strong_induction_on with
  | _ slot ih =>
    by_cases hleader : g.IsLeader slot
    · exact ⟨slot, mem_leaders.2 ⟨h, hleader⟩, .refl _ _⟩
    · simp only [IsLeader, not_forall, not_not] at hleader
      obtain ⟨earlier, hlt, hconnected⟩ := hleader
      obtain ⟨leader, hmem, hleads⟩ := ih earlier hlt (hlt.trans h)
      exact ⟨leader, hmem, hleads.trans hconnected⟩

/-- Connected leaders are the same. -/
theorem leader_unique {leader leader' : ℕ} (h : leader ∈ g.leaders) (h' : leader' ∈ g.leaders)
    (hconnected : Connected g.links leader leader') : leader = leader' := by
  rcases lt_trichotomy leader leader' with hlt | heq | hgt
  · exact absurd hconnected ((mem_leaders.1 h').2 _ hlt)
  · exact heq
  · exact absurd hconnected.symm ((mem_leaders.1 h).2 _ hgt)

open Classical in
/-- The search for all slots, when the slots connected to those before some number are assigned
    already. -/
theorem searchAll_eq {more first : ℕ} (hlast : first + more = g.nodes.length)
    {assigned : List ℕ}
    (hassigned : ∀ slot, slot ∈ assigned ↔ ∃ earlier < first, Connected g.links earlier slot) :
    (undirected g).searchAll (List.range' first more) assigned =
      ((List.range' first more).filter fun slot => g.IsLeader slot).map
        (undirected g).search := by
  induction more generalizing first assigned with
  | zero => rfl
  | succ more ih =>
    have hfirst : first < g.nodes.length := by omega
    have hnext : first + 1 + more = g.nodes.length := by omega
    rw [List.range'_succ, searchAll]
    by_cases hmem : first ∈ assigned
    · -- What is connected to this slot is connected to an earlier one.
      obtain ⟨earlier, hlt, hconnected⟩ := (hassigned first).1 hmem
      have hleader : ¬g.IsLeader first := fun hleader => hleader earlier hlt hconnected
      rw [if_pos (List.contains_iff_mem.2 hmem), List.filter_cons_of_neg (by simpa using hleader)]
      refine ih hnext fun slot => (hassigned slot).trans ⟨?_, ?_⟩
      · rintro ⟨other, hother, hslot⟩
        exact ⟨other, Nat.lt_succ_of_lt hother, hslot⟩
      · rintro ⟨other, hother, hslot⟩
        rcases Nat.lt_succ_iff_lt_or_eq.1 hother with hother | rfl
        exacts [⟨other, hother, hslot⟩, ⟨earlier, hlt, hconnected.trans hslot⟩]
    · have hleader : g.IsLeader first := fun earlier hlt hconnected =>
        hmem ((hassigned first).2 ⟨earlier, hlt, hconnected⟩)
      rw [if_neg (fun h => hmem (List.contains_iff_mem.1 h)),
        List.filter_cons_of_pos (by simpa using hleader), List.map_cons]
      refine congrArg _ (ih hnext fun slot => ?_)
      rw [List.mem_append, mem_search_iff hfirst, hassigned]
      constructor
      · rintro (hslot | ⟨other, hother, hslot⟩)
        exacts [⟨first, Nat.lt_succ_self _, hslot⟩, ⟨other, Nat.lt_succ_of_lt hother, hslot⟩]
      · rintro ⟨other, hother, hslot⟩
        rcases Nat.lt_succ_iff_lt_or_eq.1 hother with hother | rfl
        exacts [.inr ⟨other, hother, hslot⟩, .inl hslot]

/-- The searches begin at the leaders. -/
theorem searches_eq (g : Graph) :
    (undirected g).searches = g.leaders.map (undirected g).search := by
  have hsize : (undirected g).size = g.nodes.length := size_build
  rw [searches, hsize, leaders, List.range_eq_range']
  refine searchAll_eq (Nat.zero_add _) fun slot => ?_
  simp

end Graph

end GraphScript
