import GraphScript.Proofs.Session.Example

/-!
# The graphs of a session

The graphs of a session have distinct names, and their list grows at its end only: a graph is
never removed, moved or renamed (`Session.Change.names_cases`). This holds at every point of a
run (`Chain.names_grow`).

What a statement does, it does to the current graph. The one that turns to another graph is
`Use GRAPH`; `Create GRAPH` adds an empty graph and stays with the current one
(`Session.store_discipline`).
-/

namespace GraphScript

/-! ### Names -/

theorem Store.names_use {store store' : Store} {name : String} {graph : Graph}
    (h : store.use name = (.ok graph, store')) : store'.names = store.names := by
  rw [names, names, Session.graphs_use h]

/-- A graph is created under a name that no other graph has. -/
theorem Store.names_create {store store' : Store} {name : String}
    (h : store.create name = (.ok (), store')) :
    name ∉ store.names ∧ store'.names = store.names ++ [name] := by
  refine ⟨(create_eq_ok_iff.1 h).1, ?_⟩
  rw [names, names, Session.graphs_create h, List.map_append]
  rfl

namespace Session

/-- A statement keeps all names, and adds a new one at most. -/
theorem Change.names_cases {st : Statement} {s s' : Session} (h : s.Change st s') :
    s'.store.names = s.store.names ∨
      ∃ name, name ∉ s.store.names ∧ s'.store.names = s.store.names ++ [name] := by
  cases h with
  | same => exact .inl rfl
  | graph hgraph => exact .inl (Store.KeepsOthers.setCurrent s.store hgraph.name_eq).names
  | create _ hcreate => exact .inr ⟨_, Store.names_create hcreate⟩
  | use _ huse => exact .inl (Store.names_use huse)
  | bind => exact .inl rfl

theorem Change.names_grow {st : Statement} {s s' : Session} (h : s.Change st s') :
    s.store.names <+: s'.store.names := by
  obtain heq | ⟨name, -, heq⟩ := h.names_cases
  · rw [heq]
  · rw [heq]
    exact List.prefix_append _ _

theorem names_nodup_invariant : Invariant fun s => s.store.names.Nodup where
  change hchange hs := by
    obtain heq | ⟨name, hnew, heq⟩ := hchange.names_cases
    · rwa [heq]
    · rw [heq]
      exact List.Nodup.append hs (List.nodup_singleton name) (by simpa using hnew)
  count _ _ hs := hs

/-- Names that come first stay first. -/
theorem names_grow_invariant (names : List String) : Invariant fun s => names <+: s.store.names where
  change hchange hs := hs.trans hchange.names_grow
  count _ _ hs := hs

end Session

/-- Along a chain of statements, the list of names grows at its end only. -/
theorem Chain.names_grow {s s' : Session} {events : List Event} (h : Chain s events s') :
    ((s :: (events.map Event.after ++ [s'])).map (·.store.names)).Pairwise (· <+: ·) := by
  induction h with
  | nil s => simp
  | count name value _ ih => exact ih
  | @event e s' events hstep _ ih =>
    -- The names after the first statement come first in all later lists of names.
    refine List.pairwise_cons.2 ⟨fun names hnames => ?_, ih⟩
    rcases List.mem_cons.1 hnames with rfl | hlater
    · exact hstep.names_grow
    · exact hstep.names_grow.trans ((List.pairwise_cons.1 ih).1 names hlater)

/-! ### Statements -/

theorem Statement.carryOut_createGraph {st : Statement} {name : String}
    (h : ["Create", "GRAPH", name] <+: st.words) (replay : Action String) :
    st.carryOut replay = (do
      Action.changeStore (·.create name)
      return s!"Created graph {name}.") := by
  obtain ⟨rest, hrest⟩ := h
  simp [carryOut, create, word, ← hrest]

namespace Session

variable {text : String}

/-- What `Initialize` and what other statements leave behind. -/
theorem dispatch_eq_or_change (text : String) (depth : Nat) (s : Session) :
    s.store.KeepsOthers ((dispatch text depth).run.run s).2.store ∨
      s.Change (Statement.ofText text) ((dispatch text depth).run.run s).2 := by
  by_cases hverb : (Statement.ofText text).words.head? = some "Initialize"
  · rw [dispatch, Statement.carryOut_initialize _ _ hverb]
    exact .inl (playExample_keepsOthers 1 depth s)
  · rw [dispatch]
    obtain ⟨message, s', hrun, hchange⟩ | ⟨e, hrun⟩ := Action.yields_iff.1
      (Statement.carryOut_yields (s := s) _ (playExample 1 depth) hverb)
    · rw [hrun]
      exact .inr hchange
    · rw [hrun]
      exact .inl (.refl _)

/-- `Create GRAPH` fails, or adds an empty graph behind all others. -/
theorem dispatch_createGraph {name : String} (h : ["Create", "GRAPH", name] <+: Text.wordsOf text)
    (depth : Nat) (s : Session) :
    (dispatch text depth).Yields s fun _ s' =>
      s' = { s with store := { s.store with later := s.store.later ++ [Graph.empty name] } } := by
  have hwords : ["Create", "GRAPH", name] <+: (Statement.ofText text).words := h
  rw [dispatch, Statement.carryOut_createGraph hwords]
  refine ((Action.Yields.changeStore (Store.leaves_create _ _)).mono fun _ s' hstore => ?_).answer
  obtain ⟨store, hcreate, rfl⟩ := hstore
  obtain ⟨-, rfl⟩ := Store.create_eq_ok_iff.1 hcreate
  rfl

/-- The discipline of the graphs. In every session that scripts lead to, one of the graphs is
    current, their names are distinct, and along every run the list of names grows at its end
    only, from the one graph of a new session on. Every statement keeps all names. One other
    than `Use GRAPH` stays with the current graph and leaves all others as they are; one other
    than `Create GRAPH`, moreover, adds no graph, and that one adds an empty graph behind all
    others, and does nothing else. -/
theorem store_discipline :
    (∀ (config : Config) (s : Session), Reachable config s →
      s.store.graphs[s.store.selector]? = some s.graph ∧ s.store.names.Nodup ∧
        [config.defaultGraph] <+: s.store.names ∧
        ∀ source, ((s :: ((s.trace source).map Event.after ++ [(s.run source).session])).map
          (·.store.names)).Pairwise (· <+: ·)) ∧
    ∀ (text : String) (depth : Nat) (s : Session),
      let outcome := (dispatch text depth).run.run s
      s.store.names <+: outcome.2.store.names ∧
        (¬["Use", "GRAPH"] <+: Text.wordsOf text →
          (outcome.2.store.selector = s.store.selector ∧
            ∀ i < s.store.graphs.length, i ≠ s.store.selector →
              outcome.2.store.graphs[i]? = s.store.graphs[i]?) ∧
          (¬["Create", "GRAPH"] <+: Text.wordsOf text →
            outcome.2.store.names = s.store.names)) ∧
        ∀ name message, ["Create", "GRAPH", name] <+: Text.wordsOf text →
          outcome.1 = .ok message →
          outcome.2.store.graphs = s.store.graphs ++ [Graph.empty name] ∧
            outcome.2.env = s.env ∧ outcome.2.config = s.config := by
  refine ⟨fun config s hs => ?_, fun text depth s => ?_⟩
  · refine ⟨s.store.getElem?_selector, names_nodup_invariant.reachable ?_ hs, ?_, fun source => ?_⟩
    · exact fun syntaxReason => List.nodup_singleton _
    · exact (names_grow_invariant _).reachable (fun syntaxReason => List.prefix_refl _) hs
    · exact (s.run_chain source).names_grow
  · intro outcome
    refine ⟨?_, fun huse => ⟨?_, fun hcreate => ?_⟩, fun name message hcreate hok => ?_⟩
    · exact (names_grow_invariant _).dispatch text depth s (List.prefix_refl _)
    · have hstays : s.store.Stays outcome.2.store :=
        (dispatch_eq_or_change text depth s).elim (·.toStays) (·.stays huse)
      exact ⟨hstays.selector, hstays.others⟩
    · have hkeeps : s.store.KeepsOthers outcome.2.store :=
        (dispatch_eq_or_change text depth s).elim id (·.keepsOthers huse hcreate)
      exact hkeeps.names
    · obtain ⟨x, s', hrun, rfl⟩ | ⟨e, hrun⟩ :=
        Action.yields_iff.1 (dispatch_createGraph hcreate depth s)
      · have houtcome : outcome = _ := hrun
        rw [houtcome]
        simp [Store.graphs]
      · have houtcome : outcome = _ := hrun
        rw [houtcome] at hok
        cases hok

/-- With the second of two graphs current, a third one is created, and the example is played. -/
theorem store_discipline_two_graphs :
    let s := ((Session.new {}).run "Create Node a. Create GRAPH g. Use GRAPH g.").session
    (s.store.selector = 1 ∧ s.store.names = ["main", "g"] ∧ s.store.names.Nodup) ∧
      (((dispatch "Create GRAPH h" 0).run.run s).1 = .ok "Created graph h." ∧
        ((dispatch "Create GRAPH h" 0).run.run s).2.store.graphs =
          s.store.graphs ++ [Graph.empty "h"]) ∧
      ((dispatch "Initialize" 0).run.run s).2.store.selector = s.store.selector ∧
      ((dispatch "Initialize" 0).run.run s).2.store.graphs[0]? = s.store.graphs[0]? := by
  intro s
  have hvalues : s.store.selector = 1 ∧ 0 < s.store.graphs.length ∧
      s.store.names = ["main", "g"] ∧
      ((dispatch "Create GRAPH h" 0).run.run s).1 = .ok "Created graph h." := by
    decide +kernel
  have hwords : ¬["Use", "GRAPH"] <+: Text.wordsOf "Initialize" ∧
      ["Create", "GRAPH", "h"] <+: Text.wordsOf "Create GRAPH h" := by
    decide +kernel
  obtain ⟨hselector, hlength, hnames, hok⟩ := hvalues
  have hreachable : Reachable {} s := .run _ (.new _)
  generalize s = s' at *
  obtain ⟨hsessions, hstatements⟩ := store_discipline
  obtain ⟨-, hnodup, -⟩ := hsessions {} s' hreachable
  obtain ⟨-, -, hcreate⟩ := hstatements "Create GRAPH h" 0 s'
  obtain ⟨-, hplay, -⟩ := hstatements "Initialize" 0 s'
  obtain ⟨⟨hstays, hothers⟩, -⟩ := hplay hwords.1
  refine ⟨⟨hselector, hnames, hnodup⟩, ⟨hok, (hcreate "h" _ hwords.2 hok).1⟩, hstays, ?_⟩
  exact hothers 0 hlength (by rw [hselector]; exact Nat.zero_ne_one)

end Session

end GraphScript
