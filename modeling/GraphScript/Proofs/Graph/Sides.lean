import GraphScript.Proofs.Graph.Forest

/-!
# Sides

Sides *divide* links when the two ends of each link are on different sides (`Divides`). The check
for two sides gives sides to the slots as it finds them. What it keeps (`Division.Sound`):

* the slots that have a side and are not in the queue any more have all their neighbours on the
  other side;
* whatever sides divide the links, connected slots are on one side for the check when they are on
  one side for these.

So two neighbours on one side mean that no sides divide the links, and when the queue has been worked
off for all slots, the sides that have been given divide them. Hence the check succeeds whenever
there are any sides that divide the links (`isBipartite_iff`), or equally the nodes
(`isBipartite_iff_exists_sides`). Each round takes a slot off the queue, on which every slot gets
once, so there are no more rounds than slots (`Division.left`).

There are such sides in a forest: each link joins two classes of connected slots, and all of one
class may change sides (`Forest.exists_divides`).
-/

namespace GraphScript

variable {links : List Link} {l : Link} {side : ℕ → Bool} {a b : ℕ}

/-- The two ends of each link are on different sides. -/
def Divides (side : ℕ → Bool) (links : List Link) : Prop :=
  ∀ l ∈ links, side l.source ≠ side l.target

theorem Divides.ne (h : Divides side links) (hlinked : Linked links a b) : side a ≠ side b := by
  obtain ⟨l, hl, ⟨rfl, rfl⟩ | ⟨rfl, rfl⟩⟩ := hlinked
  exacts [h l hl, (h l hl).symm]

open Classical in
/-- Two classes of connected slots may be joined by a link, if need be with the sides of one of
    them exchanged. -/
theorem Divides.exists_concat (h : Divides side links)
    (hl : ¬Connected links l.source l.target) : ∃ side', Divides side' (links ++ [l]) := by
  by_cases hne : side l.source ≠ side l.target
  · exact ⟨side, List.forall_mem_append.2 ⟨h, List.forall_mem_singleton.2 hne⟩⟩
  · rw [not_not] at hne
    refine ⟨fun slot => if Connected links l.source slot then !side slot else side slot,
      List.forall_mem_append.2 ⟨fun l' hl' => ?_, List.forall_mem_singleton.2 ?_⟩⟩
    · -- The ends of the other links are in one class, which changes sides as a whole.
      have hsame : Connected links l.source l'.source ↔ Connected links l.source l'.target :=
        ⟨(·.trans (.of_mem hl')), (·.trans (Connected.of_mem hl').symm)⟩
      have hne' := h l' hl'
      by_cases hclass : Connected links l.source l'.target <;> simpa [hsame, hclass] using hne'
    · simp [hl, Connected.refl, hne]

theorem Forest.exists_divides (h : Forest links) : ∃ side, Divides side links := by
  induction links using List.reverseRecOn with
  | nil => exact ⟨fun _ => false, List.forall_mem_nil _⟩
  | append_singleton links l ih =>
    obtain ⟨side, hside⟩ := ih h.of_append
    exact hside.exists_concat h.of_concat

/-! ### The check for two sides -/

namespace Division

open Adjacency

variable {g : Graph} {sides sides' : List (Option Bool)} {queue : List ℕ} {current root : ℕ}
  {onSide : Bool} {entry : Entry}

/-- Sides that have been given, where the slots that are pending have neighbours yet to be given
    theirs. -/
structure Sound (g : Graph) (sides : List (Option Bool)) (pending : List ℕ) : Prop where
  length_eq : sides.length = g.nodes.length
  given : ∀ slot ∈ pending, ∃ onSide, sides.getD slot none = some onSide
  faced : ∀ slot onSide, sides.getD slot none = some onSide → slot ∈ pending ∨
    ∀ entry ∈ (undirected g).entries slot, sides.getD entry.slot none = some !onSide
  agrees : ∀ side, Divides side g.links → ∀ a b onSide onSide', Connected g.links a b →
    sides.getD a none = some onSide → sides.getD b none = some onSide' →
      (onSide = onSide' ↔ side a = side b)

/-- Sides that have been given stay. -/
def Extends (sides sides' : List (Option Bool)) : Prop :=
  ∀ slot onSide, sides.getD slot none = some onSide → sides'.getD slot none = some onSide

theorem extends_set (hnew : sides.getD root none = none) (onSide : Bool) :
    Extends sides (sides.set root (some onSide)) := by
  intro slot other hslot
  have hne : root ≠ slot := by
    rintro rfl
    rw [hnew] at hslot
    cases hslot
  rwa [getD_set_ne hne]

/-- A slot may be given a side that agrees with those of the slots that it is connected to. -/
theorem Sound.give (h : Sound g sides queue) (hroot : root < g.nodes.length)
    (hnew : sides.getD root none = none)
    (hagrees : ∀ side, Divides side g.links → ∀ b onSide', Connected g.links root b →
      sides.getD b none = some onSide' → (onSide = onSide' ↔ side root = side b)) :
    Sound g (sides.set root (some onSide)) (queue ++ [root]) := by
  have hlt : root < sides.length := h.length_eq ▸ hroot
  have hextends := extends_set hnew onSide
  constructor
  case length_eq => exact List.length_set.trans h.length_eq
  case given =>
    refine List.forall_mem_append.2 ⟨fun slot hslot => ?_, List.forall_mem_singleton.2 ?_⟩
    · obtain ⟨other, hother⟩ := h.given slot hslot
      exact ⟨other, hextends slot other hother⟩
    · exact ⟨onSide, getD_set_self hlt _ _⟩
  case faced =>
    intro slot other hslot
    by_cases heq : root = slot
    · exact .inl (List.mem_append_right _ (List.mem_singleton.2 heq.symm))
    · rw [getD_set_ne heq] at hslot
      exact (h.faced slot other hslot).imp (List.mem_append_left _) fun hfaced entry hentry =>
        hextends _ _ (hfaced entry hentry)
  case agrees =>
    intro side hside a b sideA sideB hconnected ha hb
    by_cases hrootA : root = a <;> by_cases hrootB : root = b
    · rw [← hrootA, getD_set_self hlt, Option.some_inj] at ha
      rw [← hrootB, getD_set_self hlt, Option.some_inj] at hb
      simp [← ha, ← hb, ← hrootA, ← hrootB]
    · rw [← hrootA] at ha hconnected ⊢
      rw [getD_set_self hlt, Option.some_inj] at ha
      rw [getD_set_ne hrootB] at hb
      rw [← ha]
      exact hagrees side hside b sideB hconnected hb
    · rw [← hrootB] at hb hconnected ⊢
      rw [getD_set_ne hrootA] at ha
      rw [getD_set_self hlt, Option.some_inj] at hb
      rw [← hb, eq_comm, eq_comm (a := side a)]
      exact hagrees side hside a sideA hconnected.symm ha
    · rw [getD_set_ne hrootA] at ha
      rw [getD_set_ne hrootB] at hb
      exact h.agrees side hside a b sideA sideB hconnected ha hb

/-- The slots on the queue, and those without a side. -/
def left (d : Division) : ℕ :=
  d.queue.length + d.sides.count none

theorem left_mk : left ⟨sides, queue⟩ = queue.length + sides.count none := rfl

theorem count_none_set (hroot : root < sides.length) (hnew : sides.getD root none = none)
    (onSide : Bool) :
    (sides.set root (some onSide)).count none + 1 = sides.count none := by
  have hget : sides[root] = none := by simpa [hroot] using hnew
  have hmem : none ∈ sides := hget ▸ List.getElem_mem hroot
  have hpos : 0 < sides.count none := List.count_pos_iff.2 hmem
  rw [List.count_set hroot, hget]
  simp
  omega

/-- What an entry leads to is put across, unless there are no sides that divide the links. -/
theorem Sound.face (h : Sound g sides (current :: queue))
    (hside : sides.getD current none = some onSide)
    (hentry : entry ∈ (undirected g).entries current) :
    (∃ d, face onSide ⟨sides, queue⟩ entry = some d ∧ Sound g d.sides (current :: d.queue) ∧
      Extends sides d.sides ∧ d.sides.getD entry.slot none = some (!onSide) ∧
      d.left = left ⟨sides, queue⟩) ∨
      (face onSide ⟨sides, queue⟩ entry = none ∧ ¬∃ side, Divides side g.links) := by
  have hlinked : Linked g.links current entry.slot := Graph.exists_entry_iff.1 ⟨entry, hentry, rfl⟩
  have hlt : entry.slot < g.nodes.length := by
    rw [← size_undirected]
    exact slot_lt_of_mem_entries hentry
  rw [Division.face]
  rcases hother : sides.getD entry.slot none with _ | other
  · refine .inl ⟨_, rfl, ?_, extends_set hother _, getD_set_self (h.length_eq ▸ hlt) _ _, ?_⟩
    · refine h.give hlt hother fun side hdivides b onSide' hconnected hb => ?_
      -- The neighbour is across from the current slot, on the sides given as well as on others.
      have hagrees := h.agrees side hdivides current b onSide onSide'
        ((Connected.of_linked hlinked).trans hconnected) hside hb
      have hne := hdivides.ne hlinked
      revert hagrees hne
      cases onSide <;> cases onSide' <;> cases side current <;> cases side b <;>
        cases side entry.slot <;> simp
    · have hcount := count_none_set (h.length_eq ▸ hlt) hother (!onSide)
      rw [left_mk, left_mk, List.length_append, List.length_singleton]
      dsimp only
      omega
  · dsimp only
    split_ifs with heq
    · refine .inr ⟨rfl, ?_⟩
      rintro ⟨side, hdivides⟩
      exact hdivides.ne hlinked ((h.agrees side hdivides current entry.slot onSide other
        (.of_linked hlinked) hside hother).1 heq.symm)
    · exact .inl ⟨_, rfl, h, fun _ _ => id, by rw [hother, Bool.eq_not.2 heq], rfl⟩

theorem Sound.faceAll {entries : List Entry} (h : Sound g sides (current :: queue))
    (hside : sides.getD current none = some onSide)
    (hentries : ∀ entry ∈ entries, entry ∈ (undirected g).entries current) :
    (∃ d, entries.foldlM (Division.face onSide) ⟨sides, queue⟩ = some d ∧
      Sound g d.sides (current :: d.queue) ∧ Extends sides d.sides ∧
      (∀ entry ∈ entries, d.sides.getD entry.slot none = some (!onSide)) ∧
      d.left = left ⟨sides, queue⟩) ∨
      (entries.foldlM (Division.face onSide) ⟨sides, queue⟩ = none ∧
        ¬∃ side, Divides side g.links) := by
  induction entries generalizing sides queue with
  | nil => exact .inl ⟨_, rfl, h, fun _ _ => id, List.forall_mem_nil _, rfl⟩
  | cons entry rest ih =>
    obtain ⟨hentry, hrest⟩ := List.forall_mem_cons.1 hentries
    rw [List.foldlM_cons]
    rcases h.face hside hentry with ⟨d, hface, h', hextends, hacross, hleft⟩ | ⟨hface, hnone⟩
    · rw [hface]
      rcases ih h' (hextends _ _ hside) hrest with
        ⟨d', hrun, h'', hextends', hacross', hleft'⟩ | hnone
      · exact .inl ⟨d', hrun, h'', fun slot other hslot => hextends' _ _ (hextends _ _ hslot),
          List.forall_mem_cons.2 ⟨hextends' _ _ hacross, hacross'⟩, hleft'.trans hleft⟩
      · exact .inr hnone
    · rw [hface]
      exact .inr ⟨rfl, hnone⟩

/-- When all of its neighbours are across from it, a slot is not pending any more. -/
theorem Sound.done (h : Sound g sides (current :: queue))
    (hside : sides.getD current none = some onSide)
    (hacross : ∀ entry ∈ (undirected g).entries current,
      sides.getD entry.slot none = some (!onSide)) : Sound g sides queue where
  length_eq := h.length_eq
  given slot hslot := h.given slot (List.mem_cons_of_mem _ hslot)
  faced slot other hslot := by
    by_cases heq : slot = current
    · obtain rfl : onSide = other := Option.some_inj.1 (hside.symm.trans (heq ▸ hslot))
      exact .inr (heq ▸ hacross)
    · exact (h.faced slot other hslot).imp_left fun hmem => (List.mem_cons.1 hmem).resolve_left heq
  agrees := h.agrees

theorem run_cons (hside : sides.getD current none = some onSide) (adj : Adjacency) (rounds : ℕ) :
    run adj (rounds + 1) ⟨sides, current :: queue⟩ =
      ((adj.entries current).foldlM (Division.face onSide) ⟨sides, queue⟩).bind (run adj rounds) := by
  rw [Division.run]
  dsimp only
  rw [hside, Option.getD_some]

/-- As many rounds as there are slots left work off the queue, unless there are no sides that divide
    the links. -/
theorem Sound.run {rounds : ℕ} (h : Sound g sides queue) (hrounds : left ⟨sides, queue⟩ ≤ rounds) :
    (∃ d, run (undirected g) rounds ⟨sides, queue⟩ = some d ∧ Sound g d.sides [] ∧
      Extends sides d.sides) ∨
      (run (undirected g) rounds ⟨sides, queue⟩ = none ∧ ¬∃ side, Divides side g.links) := by
  induction rounds generalizing sides queue with
  | zero =>
    obtain rfl : queue = [] := List.length_eq_zero_iff.1 (by rw [left_mk] at hrounds; omega)
    exact .inl ⟨_, rfl, h, fun _ _ => id⟩
  | succ rounds ih =>
    rcases queue with _ | ⟨current, queue⟩
    · exact .inl ⟨_, rfl, h, fun _ _ => id⟩
    obtain ⟨onSide, hside⟩ := h.given current List.mem_cons_self
    rw [run_cons hside]
    rcases h.faceAll hside fun _ => id with ⟨d, hface, h', hextends, hacross, hleft⟩ | ⟨hface, hnone⟩
    · rw [hface, Option.bind_some]
      have hrounds' : d.left ≤ rounds := by
        rw [hleft, left_mk]
        rw [left_mk, List.length_cons] at hrounds
        omega
      rcases ih (h'.done (hextends _ _ hside) hacross) hrounds' with ⟨d', hrun, h'', hextends'⟩ | hnone
      · exact .inl ⟨d', hrun, h'', fun slot other hslot => hextends' _ _ (hextends _ _ hslot)⟩
      · exact .inr hnone
    · rw [hface]
      exact .inr ⟨rfl, hnone⟩

/-- With nothing pending, what is connected to a slot with a side has one as well. -/
theorem Sound.given_of_connected (h : Sound g sides []) {a b : ℕ} (hconnected : Connected g.links a b)
    (ha : ∃ onSide, sides.getD a none = some onSide) : ∃ onSide, sides.getD b none = some onSide := by
  induction hconnected with
  | refl => exact ha
  | tail _ hlinked ih =>
    obtain ⟨onSide, hside⟩ := ih
    obtain ⟨entry, hentry, rfl⟩ := Graph.exists_entry_iff.2 hlinked
    exact ⟨_, (h.faced _ _ hside).resolve_left List.not_mem_nil entry hentry⟩

theorem Sound.divide (h : Sound g sides []) (hroot : root < g.nodes.length) :
    (∃ sides', divide (undirected g) sides root = some sides' ∧ Sound g sides' [] ∧
      Extends sides sides' ∧ ∃ onSide, sides'.getD root none = some onSide) ∨
      (divide (undirected g) sides root = none ∧ ¬∃ side, Divides side g.links) := by
  rw [Division.divide]
  split_ifs with hgiven
  · exact .inl ⟨sides, rfl, h, fun _ _ => id, Option.isSome_iff_exists.1 hgiven⟩
  · have hnew : sides.getD root none = none := Option.not_isSome_iff_eq_none.1 hgiven
    have hlt : root < sides.length := h.length_eq ▸ hroot
    -- Nothing that is connected to the slot has a side yet.
    have hstart : Sound g (sides.set root (some false)) [root] := by
      refine h.give hroot hnew fun side _ b onSide hconnected hb => ?_
      obtain ⟨other, hother⟩ := h.given_of_connected hconnected.symm ⟨onSide, hb⟩
      rw [hnew] at hother
      cases hother
    have hleft : left ⟨sides.set root (some false), [root]⟩ ≤ (undirected g).size := by
      have hcount := count_none_set hlt hnew false
      have hle : sides.count none ≤ sides.length := List.count_le_length
      rw [size_undirected, ← h.length_eq, left_mk, List.length_singleton]
      omega
    rcases hstart.run hleft with ⟨d, hrun, h', hextends⟩ | ⟨hrun, hnone⟩
    · rw [hrun]
      exact .inl ⟨d.sides, rfl, h', fun slot other hslot =>
        hextends _ _ (extends_set hnew _ _ _ hslot), false, hextends _ _ (getD_set_self hlt _ _)⟩
    · rw [hrun]
      exact .inr ⟨rfl, hnone⟩

theorem Sound.divideAll {roots : List ℕ} (h : Sound g sides [])
    (hroots : ∀ root ∈ roots, root < g.nodes.length) :
    (∃ sides', roots.foldlM (Division.divide (undirected g)) sides = some sides' ∧
      Sound g sides' [] ∧ Extends sides sides' ∧
      ∀ root ∈ roots, ∃ onSide, sides'.getD root none = some onSide) ∨
      (roots.foldlM (Division.divide (undirected g)) sides = none ∧
        ¬∃ side, Divides side g.links) := by
  induction roots generalizing sides with
  | nil => exact .inl ⟨sides, rfl, h, fun _ _ => id, List.forall_mem_nil _⟩
  | cons root rest ih =>
    obtain ⟨hroot, hrest⟩ := List.forall_mem_cons.1 hroots
    rw [List.foldlM_cons]
    rcases h.divide hroot with ⟨sides', hdivide, h', hextends, onSide, hside⟩ | ⟨hdivide, hnone⟩
    · rw [hdivide]
      rcases ih h' hrest with ⟨sides'', hrun, h'', hextends', hgiven⟩ | hnone
      · exact .inl ⟨sides'', hrun, h'', fun slot other hslot => hextends' _ _ (hextends _ _ hslot),
          List.forall_mem_cons.2 ⟨⟨onSide, hextends' _ _ hside⟩, hgiven⟩⟩
      · exact .inr hnone
    · rw [hdivide]
      exact .inr ⟨rfl, hnone⟩

/-- With nothing pending, sides of all slots divide the links. -/
theorem Sound.divides (h : Sound g sides [])
    (hall : ∀ slot < g.nodes.length, ∃ onSide, sides.getD slot none = some onSide) :
    Divides (fun slot => (sides.getD slot none).getD false) g.links := by
  intro l hl
  obtain ⟨onSide, hside⟩ := hall _ (Graph.links_lt hl).1
  obtain ⟨entry, hentry, htarget⟩ := Graph.exists_entry_iff.2 ⟨l, hl, .inl ⟨rfl, rfl⟩⟩
  have hacross := (h.faced _ _ hside).resolve_left List.not_mem_nil entry hentry
  rw [htarget] at hacross
  simp only [hside, hacross, Option.getD_some]
  exact Bool.self_ne_not onSide

end Division

namespace Graph

open Adjacency

variable {g : Graph} {slot : ℕ}

/-- The check finds two sides whenever there are any. -/
theorem isBipartite_iff : g.isBipartite = true ↔ ∃ side, Divides side g.links := by
  have hroots : ∀ root ∈ List.range g.nodes.length, root < g.nodes.length :=
    fun root => List.mem_range.1
  have hnone (slot : ℕ) : (List.replicate g.nodes.length (none : Option Bool)).getD slot none = none :=
    getD_replicate _ _ _
  have hstart : Division.Sound g (List.replicate g.nodes.length none) [] :=
    { length_eq := List.length_replicate
      given := List.forall_mem_nil _
      faced := fun slot onSide hslot => by rw [hnone] at hslot; cases hslot
      agrees := fun side _ a _ _ _ _ ha => by rw [hnone] at ha; cases ha }
  rw [isBipartite, size_undirected]
  rcases hstart.divideAll hroots with ⟨sides, hrun, h, -, hgiven⟩ | ⟨hrun, hnone⟩
  · rw [hrun]
    refine iff_of_true rfl ⟨_, h.divides fun slot hslot => ?_⟩
    exact hgiven slot (List.mem_range.2 hslot)
  · rw [hrun]
    exact iff_of_false Bool.false_ne_true hnone

/-- Sides of the slots are sides of the nodes, by the slots that ids stand for. -/
theorem exists_divides_iff : (∃ side, Divides side g.links) ↔ ∃ side : String → Bool,
    ∀ e ∈ g.edges, e.source ∈ g.ids → e.target ∈ g.ids → side e.source ≠ side e.target := by
  constructor
  · rintro ⟨side, h⟩
    refine ⟨fun id => side ((g.slot? id).getD 0), fun e he hsource htarget => ?_⟩
    obtain ⟨source, hsource⟩ := exists_slot? hsource
    obtain ⟨target, htarget⟩ := exists_slot? htarget
    obtain ⟨i, hi⟩ := List.getElem?_of_mem he
    have hlink : ⟨source, target, i⟩ ∈ g.links := mem_links_iff.2 ⟨e, hi, hsource, htarget⟩
    simpa [hsource, htarget] using h _ hlink
  · rintro ⟨side, h⟩
    refine ⟨fun slot => side (g.ids.getD slot ""), fun l hl => ?_⟩
    obtain ⟨e, he, hsource, htarget⟩ := mem_links_iff.1 hl
    have hsource' := slot?_eq_some hsource
    have htarget' := slot?_eq_some htarget
    have hne := h e (List.mem_of_getElem? he) (List.mem_of_getElem? hsource')
      (List.mem_of_getElem? htarget')
    simpa [hsource', htarget'] using hne

/-- The check for two sides succeeds when the nodes have two sides such that the ends of every edge
    between nodes are on different ones. A loop at a node leaves no such sides. -/
theorem isBipartite_iff_exists_sides (g : Graph) :
    (g.isBipartite = true ↔ ∃ side : String → Bool, ∀ e ∈ g.edges, e.source ∈ g.ids →
      e.target ∈ g.ids → side e.source ≠ side e.target) ∧
    (∀ e ∈ g.edges, e.source ∈ g.ids → e.isLoop = true → g.isBipartite = false) := by
  have hsides := isBipartite_iff.trans (exists_divides_iff (g := g))
  refine ⟨hsides, fun e he hsource hloop => ?_⟩
  have heq : e.source = e.target := beq_iff_eq.1 hloop
  rw [← Bool.not_eq_true, hsides]
  rintro ⟨side, h⟩
  exact h e he hsource (heq ▸ hsource) (congrArg side heq)

/-- A square has two sides, and a loop at a node that does not exist changes nothing. With one of
    its diagonals there are none. -/
theorem isBipartite_iff_exists_sides_square :
    let square : Graph := { Graph.empty "main" with
      nodes := ["a", "b", "c", "d"].map (Node.new · none)
      edges := [⟨"a", "b", 1.0⟩, ⟨"c", "b", 1.0⟩, ⟨"c", "d", 1.0⟩, ⟨"d", "a", 1.0⟩, ⟨"e", "e", 1.0⟩] }
    let crossed : Graph := { square with edges := square.edges ++ [⟨"c", "a", 1.0⟩] }
    (∃ side : String → Bool, ∀ e ∈ square.edges, e.source ∈ square.ids → e.target ∈ square.ids →
      side e.source ≠ side e.target) ∧
    ¬∃ side : String → Bool, ∀ e ∈ crossed.edges, e.source ∈ crossed.ids →
      e.target ∈ crossed.ids → side e.source ≠ side e.target := by
  intro square crossed
  have hsquare := (isBipartite_iff_exists_sides square).1
  have hcrossed := (isBipartite_iff_exists_sides crossed).1
  exact ⟨hsquare.1 (by decide), fun h => absurd (hcrossed.2 h) (by decide)⟩

end Graph

end GraphScript
