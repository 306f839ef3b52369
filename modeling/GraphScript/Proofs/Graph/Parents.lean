import GraphScript.Proofs.Graph.Adjacency
import GraphScript.Proofs.Graph.Visits

/-!
# Parents

The breadth-first search keeps one array of parents for all of its paths, and it may stop at a goal.
Told with trails (`Adjacency.search`), it goes on to the end and keeps every path for itself. The
two are the same: along the trail of a visit, each slot has the next one as its parent, and the
origin has none (`LeadsBack`). That stays so, since a slot is given its parent when it is found, and
on the trails there are only slots that have been found before.

So the parents are followed to the origin, and by then in fewer steps than there are slots
(`climb_eq`); the slots that are passed are the trail (`unwind_eq`). A round keeps all of this
(`Search.Records.meetAll`), and hence so does the search, whether it stops at its goal or not
(`Search.exists_records_run`). What is built on the search is then told with trails:
`Graph.reachable_eq`, `Graph.shortestPath?_eq` and `Graph.components_eq_searches`.
-/

namespace GraphScript

/-! ### Ways back -/

/-- Each slot of a way has the next one as its parent, and the last one has none. -/
def LeadsBack (parents : List (Option ℕ)) : List ℕ → Prop
  | [] => True
  | slot :: rest => parents.getD slot none = rest.head? ∧ LeadsBack parents rest

section

variable {parents : List (Option ℕ)} {way trail path : List ℕ} {slot goal cursor : ℕ}

theorem getD_set_self {α : Type} {l : List α} {i : ℕ} (h : i < l.length) (a d : α) :
    (l.set i a).getD i d = a := by
  simp [h]

theorem getD_set_ne {α : Type} {l : List α} {i j : ℕ} (h : i ≠ j) (a d : α) :
    (l.set i a).getD j d = l.getD j d := by
  rw [List.getD_eq_getElem?_getD, List.getElem?_set_ne h, List.getD_eq_getElem?_getD]

theorem getD_replicate {α : Type} (n i : ℕ) (a : α) : (List.replicate n a).getD i a = a := by
  rw [List.getD_eq_getElem?_getD, List.getElem?_replicate]
  split_ifs <;> rfl

/-- A new parent of a slot that is not on the way does not matter. -/
theorem LeadsBack.set (h : LeadsBack parents way) (hslot : slot ∉ way) (parent : Option ℕ) :
    LeadsBack (parents.set slot parent) way := by
  induction way with
  | nil => exact trivial
  | cons first rest ih =>
    rw [List.mem_cons, not_or] at hslot
    exact ⟨(getD_set_ne hslot.1 _ _).trans h.1, ih h.2 hslot.2⟩

/-- The parents are followed to the end of the way, however many steps are allowed beyond that. -/
theorem climb_eq {steps : ℕ} (h : LeadsBack parents (cursor :: trail))
    (hsteps : trail.length ≤ steps) :
    climb parents steps cursor path = trail.reverse ++ path := by
  induction trail generalizing cursor path steps with
  | nil =>
    cases steps with
    | zero => rfl
    | succ steps => rw [climb, h.1]; rfl
  | cons parent rest ih =>
    obtain ⟨steps, rfl⟩ : ∃ n, steps = n + 1 := ⟨steps - 1, by rw [List.length_cons] at hsteps; omega⟩
    have hparent : parents.getD cursor none = some parent := h.1
    rw [climb, hparent]
    dsimp only
    rw [ih h.2 (Nat.le_of_succ_le_succ hsteps), List.reverse_cons, List.append_assoc]
    rfl

/-- The path to a slot by the parents is the way from it, turned around. -/
theorem unwind_eq (h : LeadsBack parents (goal :: trail)) (hnodup : (goal :: trail).Nodup)
    (hlt : ∀ slot ∈ goal :: trail, slot < parents.length) :
    unwind parents goal = (goal :: trail).reverse := by
  have hsubset : goal :: trail ⊆ List.range parents.length := fun slot hslot =>
    List.mem_range.2 (hlt slot hslot)
  have hlength := hnodup.length_le_of_subset hsubset
  rw [List.length_cons, List.length_range] at hlength
  rw [unwind, climb_eq h (Nat.le_of_succ_le hlength), List.reverse_cons]

end

/-! ### Rounds -/

namespace Search

/-- The arrays of a search from an origin that has found the slots of some visits. -/
structure Records (size origin : ℕ) (s : Search) (known : List Visit) : Prop where
  length_visited : s.visited.length = size
  length_parents : s.parents.length = size
  visited_iff : ∀ slot, s.visited.getD slot false = true ↔ ∃ v ∈ known, v.slot = slot
  leadsBack : ∀ v ∈ known, LeadsBack s.parents (v.slot :: v.trail)
  nodup : ∀ v ∈ known, (v.slot :: v.trail).Nodup
  trail_known : ∀ v ∈ known, ∀ u ∈ v.trail, ∃ w ∈ known, w.slot = u
  eq_origin : ∀ v ∈ known, v.trail = [] → v.slot = origin
  no_parent : ∀ slot, (∀ v ∈ known, v.slot ≠ slot) → s.parents.getD slot none = none

variable {size origin : ℕ} {s : Search} {known known' : List Visit} {v : Visit}

theorem Records.of_mem_iff (h : s.Records size origin known) (hmem : ∀ v, v ∈ known' ↔ v ∈ known) :
    s.Records size origin known' := by
  obtain ⟨hvisited, hparents, hiff, hback, hnodup, htrail, horigin, hnone⟩ := h
  refine ⟨hvisited, hparents, fun slot => ?_, fun v hv => hback v ((hmem v).1 hv),
    fun v hv => hnodup v ((hmem v).1 hv), fun v hv u hu => ?_,
    fun v hv => horigin v ((hmem v).1 hv), fun slot hslot => ?_⟩
  · simpa only [hmem] using hiff slot
  · simpa only [hmem] using htrail v ((hmem v).1 hv) u hu
  · exact hnone slot fun v hv => hslot v ((hmem v).2 hv)

/-- All slots of a trail have been found. -/
theorem Records.found (h : s.Records size origin known) (hv : v ∈ known) {slot : ℕ}
    (hslot : slot ∈ v.slot :: v.trail) : ∃ w ∈ known, w.slot = slot := by
  rcases List.mem_cons.1 hslot with rfl | hslot
  · exact ⟨v, hv, rfl⟩
  · exact h.trail_known v hv slot hslot

theorem Records.lt (h : s.Records size origin known) (hv : v ∈ known) {slot : ℕ}
    (hslot : slot ∈ v.slot :: v.trail) : slot < size := by
  have hvisited := (h.visited_iff slot).2 (h.found hv hslot)
  by_contra hge
  have hlength : s.visited.length ≤ slot := h.length_visited ▸ not_lt.1 hge
  rw [List.getD_eq_getElem?_getD, List.getElem?_eq_none hlength] at hvisited
  cases hvisited

theorem Records.unwind (h : s.Records size origin known) (hv : v ∈ known) :
    unwind s.parents v.slot = v.path :=
  unwind_eq (h.leadsBack v hv) (h.nodup v hv) fun _ hslot => h.length_parents ▸ h.lt hv hslot

theorem Records.start (horigin : origin < size) :
    (start size origin).Records size origin [⟨origin, []⟩] where
  length_visited := by simp [Search.start]
  length_parents := by simp [Search.start]
  visited_iff slot := by
    simp only [Search.start, List.mem_singleton, exists_eq_left]
    by_cases hslot : origin = slot
    · rw [← hslot, getD_set_self (by simpa using horigin)]
      simp
    · rw [getD_set_ne hslot, getD_replicate]
      simp [hslot]
  leadsBack v hv := by
    rw [List.mem_singleton.1 hv]
    exact ⟨getD_replicate _ _ _, trivial⟩
  nodup v hv := by rw [List.mem_singleton.1 hv]; exact List.nodup_singleton _
  trail_known v hv u hu := by
    rw [List.mem_singleton.1 hv] at hu
    exact absurd hu List.not_mem_nil
  eq_origin v hv _ := by rw [List.mem_singleton.1 hv]
  no_parent slot _ := getD_replicate _ _ _

/-- A slot that has not been found is given its parent, and joins the queue. -/
theorem Records.meet (h : s.Records size origin known) (hv : v ∈ known) {entry : Entry}
    (hlt : entry.slot < size) (hnew : ∀ w ∈ known, w.slot ≠ entry.slot) :
    (s.meet v.slot entry).Records size origin (⟨entry.slot, v.slot :: v.trail⟩ :: known) ∧
      (s.meet v.slot entry).order = s.order ∧
      (s.meet v.slot entry).queue = s.queue ++ [entry.slot] := by
  have hunvisited : ¬s.visited.getD entry.slot false = true := by
    rw [h.visited_iff]
    rintro ⟨w, hw, hslot⟩
    exact hnew w hw hslot
  rw [Search.meet, if_neg hunvisited]
  refine ⟨?_, rfl, rfl⟩
  -- No slot of a trail is the new one.
  have hoff : ∀ w ∈ known, entry.slot ∉ w.slot :: w.trail := by
    intro w hw hmem
    obtain ⟨x, hx, hslot⟩ := h.found hw hmem
    exact hnew x hx hslot
  constructor
  case length_visited => simp [h.length_visited]
  case length_parents => simp [h.length_parents]
  case visited_iff =>
    intro slot
    simp only [List.mem_cons, exists_eq_or_imp]
    by_cases hslot : entry.slot = slot
    · rw [← hslot, getD_set_self (by rwa [h.length_visited])]
      simp
    · rw [getD_set_ne hslot, h.visited_iff]
      simp [hslot]
  case leadsBack =>
    intro w hw
    rcases List.mem_cons.1 hw with rfl | hw
    · refine ⟨?_, (h.leadsBack v hv).set (hoff v hv) _⟩
      exact getD_set_self (by rwa [h.length_parents]) _ _
    · exact (h.leadsBack w hw).set (hoff w hw) _
  case nodup =>
    intro w hw
    rcases List.mem_cons.1 hw with rfl | hw
    · exact List.nodup_cons.2 ⟨hoff v hv, h.nodup v hv⟩
    · exact h.nodup w hw
  case trail_known =>
    intro w hw u hu
    have hfound : ∃ x ∈ known, x.slot = u := by
      rcases List.mem_cons.1 hw with rfl | hw
      · exact h.found hv hu
      · exact h.trail_known w hw u hu
    obtain ⟨x, hx, hslot⟩ := hfound
    exact ⟨x, List.mem_cons_of_mem _ hx, hslot⟩
  case eq_origin =>
    intro w hw htrail
    rcases List.mem_cons.1 hw with rfl | hw
    · exact absurd htrail (List.cons_ne_nil _ _)
    · exact h.eq_origin w hw htrail
  case no_parent =>
    intro slot hslot
    obtain ⟨hne, hslot⟩ := List.forall_mem_cons.1 hslot
    exact (getD_set_ne hne _ _).trans (h.no_parent slot hslot)

/-- Looking at the entries of a slot finds what its visit discovers. -/
theorem Records.meetAll (h : s.Records size origin known) (hv : v ∈ known) {entries : List Entry}
    (hlt : ∀ entry ∈ entries, entry.slot < size) :
    (entries.foldl (Search.meet v.slot) s).Records size origin
        (known ++ Adjacency.discover v known entries) ∧
      (entries.foldl (Search.meet v.slot) s).order = s.order ∧
      (entries.foldl (Search.meet v.slot) s).queue =
        s.queue ++ (Adjacency.discover v known entries).map (·.slot) := by
  induction entries generalizing s known with
  | nil => simpa [Adjacency.discover] using h
  | cons entry rest ih =>
    rw [List.forall_mem_cons] at hlt
    rw [List.foldl_cons, Adjacency.discover]
    by_cases hknown : known.any (·.slot == entry.slot) = true
    · have hvisited := (h.visited_iff entry.slot).2 (Adjacency.any_slot_iff.1 hknown)
      rw [if_pos hknown, Search.meet, if_pos hvisited]
      exact ih h hv hlt.2
    · have hnew : ∀ w ∈ known, w.slot ≠ entry.slot := fun w hw hslot =>
        hknown (Adjacency.any_slot_iff.2 ⟨w, hw, hslot⟩)
      obtain ⟨hmeet, horder, hqueue⟩ := h.meet hv hlt.1 hnew
      obtain ⟨hrest, horder', hqueue'⟩ := ih hmeet (List.mem_cons_of_mem _ hv) hlt.2
      rw [if_neg hknown]
      refine ⟨hrest.of_mem_iff fun w => ?_, horder'.trans horder, ?_⟩
      · simp only [List.mem_append, List.mem_cons, List.cons_append]
        exact or_left_comm
      · rw [hqueue', hqueue, List.append_assoc]
        rfl

/-! ### The search -/

variable {adj : Adjacency} {goal : Option ℕ} {done queue : List Visit}

/-- A search comes to the first of the visits, in order, until one of them is to the goal, and else
    to all of them.

    By induction on the rounds. Up to the goal both searches come to the same slots. -/
theorem exists_records_run (hentries : ∀ v, ∀ entry ∈ adj.entries v, entry.slot < adj.size)
    {rounds : ℕ} (h : s.Records adj.size origin (done ++ queue))
    (horder : s.order = done.map (·.slot)) (hqueue : s.queue = queue.map (·.slot))
    (hqueued : adj.Queued done queue) (hrounds : adj.size ≤ rounds + done.length) :
    ∃ done' queue', (run adj goal rounds s).Records adj.size origin (done' ++ queue') ∧
      (run adj goal rounds s).order = done'.map (·.slot) ∧
      done' <+: adj.explore rounds done queue ∧
      ((∃ v ∈ done', goal = some v.slot) ∨
        (queue' = [] ∧ done' = adj.explore rounds done queue)) := by
  induction rounds generalizing s done queue with
  | zero =>
    have hlength := hqueued.length_add_le
    obtain rfl : queue = [] := List.length_eq_zero_iff.1 (by omega)
    exact ⟨done, [], h, horder, List.prefix_rfl, .inr ⟨rfl, rfl⟩⟩
  | succ rounds ih =>
    cases queue with
    | nil =>
      have hrun : run adj goal (rounds + 1) s = s := by rw [run, hqueue]; rfl
      rw [hrun, Adjacency.explore_nil]
      exact ⟨done, [], h, horder, List.prefix_rfl, .inr ⟨rfl, rfl⟩⟩
    | cons v queue =>
      have hassoc : done ++ v :: queue = done ++ [v] ++ queue := by simp
      set s' : Search :=
        { s with order := s.order ++ [v.slot], queue := queue.map (·.slot) } with hs'
      have hrun : run adj goal (rounds + 1) s = if goal = some v.slot then s'
          else run adj goal rounds ((adj.entries v.slot).foldl (Search.meet v.slot) s') := by
        rw [run, hqueue]
        rfl
      have horder' : s'.order = (done ++ [v]).map (·.slot) := by
        rw [hs', horder, List.map_append, List.map_singleton]
      have hrecords : s'.Records adj.size origin (done ++ v :: queue) := { h with }
      rw [hrun, Adjacency.explore]
      split_ifs with hgoal
      · rw [hassoc] at hrecords
        exact ⟨done ++ [v], queue, hrecords, horder', adj.prefix_explore _ _ _,
          .inl ⟨v, by simp, hgoal⟩⟩
      · obtain ⟨hmeet, hmeet_order, hmeet_queue⟩ :=
          hrecords.meetAll (v := v) (by simp) (hentries v.slot)
        set found := Adjacency.discover v (done ++ v :: queue) (adj.entries v.slot)
        rw [hassoc, List.append_assoc] at hmeet
        refine ih hmeet (hmeet_order.trans horder') ?_ (hqueued.round hentries) ?_
        · rw [hmeet_queue, hs', List.map_append]
        · rw [List.length_append, List.length_singleton]
          omega

end Search

namespace Adjacency

variable {adj : Adjacency} (hentries : ∀ v, ∀ entry ∈ adj.entries v, entry.slot < adj.size)
  {origin : ℕ}

include hentries

theorem exists_records_searchFrom (horigin : origin < adj.size) (goal : Option ℕ) :
    ∃ done queue, (adj.searchFrom origin goal).Records adj.size origin (done ++ queue) ∧
      (adj.searchFrom origin goal).order = done.map (·.slot) ∧
      done <+: adj.search origin ∧
      ((∃ v ∈ done, goal = some v.slot) ∨ (queue = [] ∧ done = adj.search origin)) :=
  Search.exists_records_run hentries (Search.Records.start horigin) rfl rfl (.start horigin)
    (Nat.le_add_right _ _)

/-- Without a goal, the search comes to the slots of all visits. -/
theorem order_searchFrom (horigin : origin < adj.size) :
    (adj.searchFrom origin none).order = (adj.search origin).map (·.slot) := by
  obtain ⟨done, queue, -, horder, -, ⟨v, -, hgoal⟩ | ⟨-, rfl⟩⟩ :=
    exists_records_searchFrom hentries horigin none
  · cases hgoal
  · exact horder

/-- The parents lead back from the goal along the trail of its visit, and if there is none, the goal
    has no parent and is not the origin. -/
theorem unwind_searchFrom (horigin : origin < adj.size) (goal : ℕ) :
    let parents := (adj.searchFrom origin (some goal)).parents
    (if origin != goal && (parents.getD goal none).isNone then none
      else some (unwind parents goal)) =
      ((adj.search origin).find? (·.slot == goal)).map Visit.path := by
  intro parents
  obtain ⟨done, queue, hrecords, -, ⟨rest, hrest⟩, hend⟩ :=
    exists_records_searchFrom hentries horigin (some goal)
  by_cases hfound : ∃ v ∈ done, v.slot = goal
  · obtain ⟨v, hfind⟩ : ∃ v, done.find? (·.slot == goal) = some v := by
      obtain ⟨v, hv, hslot⟩ := hfound
      exact Option.isSome_iff_exists.1 (List.find?_isSome.2 ⟨v, hv, by simpa using hslot⟩)
    have hv : v ∈ done ++ queue := List.mem_append_left _ (List.mem_of_find?_eq_some hfind)
    have hslot : v.slot = goal := by simpa using List.find?_some hfind
    have hparent : parents.getD v.slot none = v.trail.head? := (hrecords.leadsBack v hv).1
    -- Only the visit to the origin has no trail.
    have hcond : ¬(origin != goal && (parents.getD goal none).isNone) = true := by
      rw [← hslot, hparent, Bool.and_eq_true, bne_iff_ne, Option.isNone_iff_eq_none,
        List.head?_eq_none_iff]
      rintro ⟨hne, htrail⟩
      exact hne (hrecords.eq_origin v hv htrail).symm
    rw [if_neg hcond, ← hrest, List.find?_append, hfind, ← hslot, hrecords.unwind hv]
    rfl
  · obtain ⟨v, hv, hgoal⟩ | ⟨rfl, rfl⟩ := hend
    · exact absurd ⟨v, hv, (Option.some_inj.1 hgoal).symm⟩ hfound
    · rw [List.append_nil] at hrecords
      have hunfound : ∀ v ∈ adj.search origin, v.slot ≠ goal := fun v hv hslot =>
        hfound ⟨v, hv, hslot⟩
      obtain ⟨others, hothers⟩ := exists_search_eq_cons horigin
      have hne : origin ≠ goal := hunfound ⟨origin, []⟩ (hothers ▸ List.mem_cons_self)
      have hfind : (adj.search origin).find? (·.slot == goal) = none :=
        List.find?_eq_none.2 fun v hv => by simpa using hunfound v hv
      have hparent : parents.getD goal none = none := hrecords.no_parent goal hunfound
      rw [hfind, hparent, if_pos (by simpa using hne)]
      rfl

/-! ### Components -/

omit hentries in
theorem getD_foldl_set {order : List ℕ} {assigned : List Bool}
    (horder : ∀ slot ∈ order, slot < assigned.length) (slot : ℕ) :
    (order.foldl (fun assigned slot => assigned.set slot true) assigned).getD slot false = true ↔
      slot ∈ order ∨ assigned.getD slot false = true := by
  induction order generalizing assigned with
  | nil => simp
  | cons first rest ih =>
    rw [List.forall_mem_cons] at horder
    rw [List.foldl_cons, ih (by simpa using horder.2), List.mem_cons]
    by_cases hslot : first = slot
    · rw [← hslot, getD_set_self horder.1]
      simp
    · rw [getD_set_ne hslot]
      simp [Ne.symm hslot]

omit hentries in
theorem length_foldl_set (order : List ℕ) (assigned : List Bool) :
    (order.foldl (fun assigned slot => assigned.set slot true) assigned).length =
      assigned.length := by
  induction order generalizing assigned with
  | nil => rfl
  | cons first rest ih => rw [List.foldl_cons, ih, List.length_set]

/-- The searches for all slots begin at the same slots, whether what they have come to is kept in an
    array or in a list. -/
theorem assign_foldl {origins assigned : List ℕ} {marks : List Bool} {found : List (List ℕ)}
    (horigins : ∀ origin ∈ origins, origin < adj.size) (hlength : marks.length = adj.size)
    (hmarks : ∀ slot, marks.getD slot false = true ↔ slot ∈ assigned) :
    (origins.foldl adj.assign (marks, found)).2 =
      found ++ (adj.searchAll origins assigned).map fun visits => visits.map (·.slot) := by
  induction origins generalizing assigned marks found with
  | nil => simp [searchAll]
  | cons origin rest ih =>
    rw [List.forall_mem_cons] at horigins
    rw [List.foldl_cons, searchAll, assign]
    by_cases hmem : origin ∈ assigned
    · rw [if_pos ((hmarks origin).2 hmem), if_pos (List.contains_iff_mem.2 hmem)]
      exact ih horigins.2 hlength hmarks
    · rw [if_neg fun h => hmem ((hmarks origin).1 h),
        if_neg fun h => hmem (List.contains_iff_mem.1 h)]
      have horder := order_searchFrom hentries horigins.1
      have hlt : ∀ slot ∈ (adj.searchFrom origin none).order, slot < marks.length := by
        obtain ⟨done, queue, hrecords, horder', -⟩ :=
          exists_records_searchFrom hentries horigins.1 none
        rw [horder', List.forall_mem_map, hlength]
        exact fun v hv => hrecords.lt (List.mem_append_left _ hv) List.mem_cons_self
      have hmarks' (slot : ℕ) : ((adj.searchFrom origin none).order.foldl
          (fun assigned slot => assigned.set slot true) marks).getD slot false = true ↔
            slot ∈ (adj.search origin).map (·.slot) ++ assigned := by
        rw [getD_foldl_set hlt, horder, List.mem_append, hmarks]
      refine (ih horigins.2 ((length_foldl_set _ _).trans hlength) hmarks').trans ?_
      rw [horder, List.append_assoc]
      rfl

end Adjacency

/-! ### Graphs -/

namespace Graph

open Adjacency

variable {g : Graph} {start target : String}

theorem reachable_eq : g.reachable start = ((g.slot? start).map fun origin =>
    (undirected g).names (((undirected g).search origin).map (·.slot))).getD [] := by
  rw [reachable, undirected, slot?_build]
  cases horigin : g.slot? start with
  | none => rfl
  | some origin =>
    change (build g false).names ((build g false).searchFrom origin none).order = _
    rw [order_searchFrom (fun _ _ => slot_lt_of_mem_entries) (lt_size_of_slot? horigin)]
    rfl

theorem shortestPath?_eq :
    g.shortestPath? start target = (g.slot? start).bind fun origin =>
      (g.slot? target).bind fun goal =>
        let adj := Adjacency.build g false
        (((adj.search origin).find? (·.slot == goal)).map Visit.path).map adj.names := by
  rw [shortestPath?, undirected, slot?_build, slot?_build]
  refine Option.bind_congr fun origin horigin => Option.bind_congr fun goal _ => ?_
  have horigin' : origin < (build g false).size := lt_size_of_slot? horigin
  have hunwind := unwind_searchFrom (fun _ _ => slot_lt_of_mem_entries) horigin' goal
  dsimp only at hunwind ⊢
  rw [← hunwind]
  split_ifs <;> rfl

theorem components_eq_searches : g.components =
    (undirected g).searches.map fun visits => (undirected g).names (visits.map (·.slot)) := by
  have hmarks (slot : ℕ) :
      (List.replicate (undirected g).size false).getD slot false = true ↔ slot ∈ [] := by
    rw [getD_replicate]
    simp
  have hfound : ((List.range (undirected g).size).foldl (undirected g).assign
      (List.replicate (undirected g).size false, [])).2 =
        [] ++ (undirected g).searches.map fun visits => visits.map (·.slot) :=
    assign_foldl (fun _ _ => slot_lt_of_mem_entries) (fun _ => List.mem_range.1)
      List.length_replicate hmarks
  rw [components, hfound, List.nil_append, List.map_map]
  rfl

end Graph

end GraphScript
