import GraphScript.Proofs.Graph.Operations
import GraphScript.Proofs.Script.Nesting
import GraphScript.Proofs.Session.Trace

/-!
# Local statements

A statement is *local* if it works on the current graph and the variables alone: it neither
makes a graph, nor turns to another one, nor plays the example. Whatever it does, the other
graphs stay as they are and the same graph stays current (`Store.KeepsOthers`). The same holds
of items all of whose statements are local, however often their blocks repeat them
(`runItems_keepsOthers`).
-/

namespace GraphScript

/-- The statement works on the current graph and the variables alone. -/
structure Statement.IsLocal (st : Statement) : Prop where
  noExample : st.words.head? ≠ some "Initialize"
  noUse : ¬["Use", "GRAPH"] <+: st.words
  noCreate : ¬["Create", "GRAPH"] <+: st.words

instance (st : Statement) : Decidable st.IsLocal :=
  decidable_of_iff (st.words.head? ≠ some "Initialize" ∧ ¬["Use", "GRAPH"] <+: st.words ∧
      ¬["Create", "GRAPH"] <+: st.words)
    ⟨fun h => ⟨h.1, h.2.1, h.2.2⟩, fun h => ⟨h.noExample, h.noUse, h.noCreate⟩⟩

/-! ### Graphs that are not current -/

/-- What is done to a graph leaves its name alone. -/
theorem Graph.Change.name_eq {named : String → Prop} {g g' : Graph} (h : g.Change named g') :
    g'.name = g.name := by
  cases h with
  | addNode _ _ h =>
    obtain ⟨-, rfl⟩ := addNode_eq_ok_iff.1 h
    rfl
  | removeNode h =>
    obtain ⟨-, rfl, -⟩ := removeNode_eq_ok_iff.1 h
    rfl
  | connect _ h =>
    obtain ⟨-, -, -, -, rfl⟩ := connect_eq_ok_iff.1 h
    rfl
  | removeEdges h =>
    obtain ⟨-, rfl, -⟩ := removeEdges_eq_ok_iff.1 h
    rfl
  | isolate h =>
    obtain ⟨-, rfl, -⟩ := isolate_eq_ok_iff.1 h
    rfl
  | setColor h =>
    obtain ⟨_, -, rfl⟩ := setColor_eq_ok_iff.1 h
    rfl
  | setBackground | setDirected | setWeighted | markTraversed | reset => rfl
  | subdivide _ h =>
    obtain ⟨_, -, -, rfl⟩ := subdivide_eq_ok_iff.1 h
    rfl
  | contract _ _ h =>
    obtain ⟨-, -, -, rfl⟩ := contract_eq_ok_iff.1 h
    rfl

namespace Store

/-- The position of the current graph among all graphs. -/
def selector (s : Store) : Nat :=
  s.earlier.length

theorem getElem?_selector (s : Store) : s.graphs[s.selector]? = some s.current := by
  simp [graphs, selector]

theorem graphs_setCurrent (s : Store) (g : Graph) :
    (s.setCurrent g).graphs = s.graphs.set s.selector g := by
  simp [setCurrent, graphs, selector]

/-- The second store has the graphs of the first in their places, and maybe more behind them.
    The same one is current, and only that one may have changed. -/
structure Stays (s s' : Store) : Prop where
  selector : s'.selector = s.selector
  others : ∀ i < s.graphs.length, i ≠ s.selector → s'.graphs[i]? = s.graphs[i]?

/-- The second store has the graphs of the first and no others. -/
structure KeepsOthers (s s' : Store) : Prop extends s.Stays s' where
  names : s'.names = s.names

theorem Stays.refl (s : Store) : s.Stays s where
  selector := rfl
  others _ _ _ := rfl

theorem Stays.setCurrent (s : Store) (g : Graph) : s.Stays (s.setCurrent g) where
  selector := rfl
  others i _ hi := by rw [graphs_setCurrent, List.getElem?_set_ne hi.symm]

/-- A graph that is created comes behind all others. -/
theorem Stays.create {s s' : Store} {name : String} (h : s.create name = (.ok (), s')) :
    s.Stays s' where
  selector := by
    obtain ⟨-, rfl⟩ := create_eq_ok_iff.1 h
    rfl
  others i hi _ := by rw [Session.graphs_create h, List.getElem?_append_left hi]

namespace KeepsOthers

theorem refl (s : Store) : s.KeepsOthers s where
  toStays := .refl s
  names := rfl

theorem length_graphs {s s' : Store} (h : s.KeepsOthers s') :
    s'.graphs.length = s.graphs.length := by
  have hlength := congrArg List.length h.names
  rwa [Store.names, Store.names, List.length_map, List.length_map] at hlength

theorem trans {s s' s'' : Store} (h : s.KeepsOthers s') (h' : s'.KeepsOthers s'') :
    s.KeepsOthers s'' where
  selector := h'.selector.trans h.selector
  others i hi hne :=
    (h'.others i (h.length_graphs.symm ▸ hi) (h.selector.symm ▸ hne)).trans (h.others i hi hne)
  names := h'.names.trans h.names

theorem setCurrent (s : Store) {g : Graph} (h : g.name = s.current.name) :
    s.KeepsOthers (s.setCurrent g) where
  toStays := .setCurrent s g
  names := by simp [Store.names, Store.setCurrent, graphs, h]

end KeepsOthers

end Store

namespace Session.Change

variable {st : Statement} {s s' : Session}

/-- A change other than turning to another graph. -/
theorem stays (h : s.Change st s') (huse : ¬["Use", "GRAPH"] <+: st.words) :
    s.store.Stays s'.store := by
  cases h with
  | same => exact .refl _
  | graph _ => exact .setCurrent s.store _
  | create _ hcreate => exact .create hcreate
  | @use name _ _ hwords _ =>
    exact absurd ((List.prefix_append ["Use", "GRAPH"] [name]).trans hwords) huse
  | bind => exact .refl _

/-- A change that neither makes a graph nor turns to another one. -/
theorem keepsOthers (h : s.Change st s') (huse : ¬["Use", "GRAPH"] <+: st.words)
    (hcreate : ¬["Create", "GRAPH"] <+: st.words) : s.store.KeepsOthers s'.store := by
  refine ⟨h.stays huse, ?_⟩
  cases h with
  | same => rfl
  | graph hgraph => exact (Store.KeepsOthers.setCurrent s.store hgraph.name_eq).names
  | @create name store hwords _ =>
    exact absurd ((List.prefix_append ["Create", "GRAPH"] [name]).trans hwords) hcreate
  | use _ hstore => rw [Store.names, Store.names, graphs_use hstore]
  | bind => rfl

end Session.Change

/-! ### Runs of local statements -/

/-- A relation between sessions that adds up along a run. -/
structure Session.Accumulates (R : Session → Session → Prop) : Prop where
  refl : ∀ s, R s s
  trans : ∀ {s s' s''}, R s s' → R s' s'' → R s s''
  count : ∀ s name value, R s { s with env := s.env.set name value }

namespace Session.Accumulates

variable {R : Session → Session → Prop}

theorem composes (hR : Accumulates R) :
    Composes fun run (_ : List Unit) run' => R run.session run'.session where
  nil run := hR.refl run.session
  append h hmore := hR.trans h hmore
  count name value h := hR.trans (hR.count _ name value) h

variable {replay : Nat → Action String}

mutual

/-- What each statement among the items adds is what the items add. -/
theorem runItems (hR : Accumulates R) (depth : Nat) : ∀ (items : List Item) (run : Run),
    (∀ text ∈ Item.textsOf items, ∀ depth s,
      R s (((Statement.ofText text).carryOut (replay depth)).run.run s).2) →
    R run.session (GraphScript.runItems replay depth items run).session
  | [], run, _ => by
    rw [GraphScript.runItems]
    exact hR.refl _
  | item :: rest, run, h => by
    rw [Item.textsOf, List.forall_mem_append] at h
    rw [GraphScript.runItems]
    exact hR.trans (runItem hR depth item run h.1) (runItems hR depth rest _ h.2)

theorem runItem (hR : Accumulates R) (depth : Nat) : ∀ (item : Item) (run : Run),
    (∀ text ∈ item.texts, ∀ depth s,
      R s (((Statement.ofText text).carryOut (replay depth)).run.run s).2) →
    R run.session (GraphScript.runItem replay depth item run).session
  | .statement line text, run, h => by
    have hstatement := h text (by rw [Item.texts]; exact List.mem_singleton_self _) depth
      run.session
    rw [GraphScript.runItem, Run.perform]
    generalize ((Statement.ofText text).carryOut (replay depth)).run.run run.session = outcome at *
    rcases outcome with ⟨_ | _, s'⟩ <;> exact hstatement
  | .block line header body, run, h => by
    rw [Item.texts] at h
    -- Nothing is told of a round but that it adds to the session.
    have hblock := @Composes.runBlock Unit _ _ (fun _ => []) hR.composes
      (fun run => runItems hR (depth + 1) body run h) header depth run
    rw [GraphScript.runItem]
    generalize runBlock header depth (GraphScript.runItems replay (depth + 1) body) run =
      outcome at *
    rcases outcome with ⟨_ | _, run'⟩ <;> exact hblock
  | .broken line error, run, _ => by
    rw [GraphScript.runItem]
    exact hR.refl _

end

end Session.Accumulates

theorem Session.keepsOthers_accumulates :
    Accumulates fun s s' => s.store.KeepsOthers s'.store where
  refl s := .refl s.store
  trans h h' := h.trans h'
  count s _ _ := .refl s.store

/-- A statement other than `Initialize` that neither makes a graph nor turns to another one. -/
theorem Statement.carryOut_keepsOthers {st : Statement} (h : st.IsLocal) (replay : Action String)
    (s : Session) : s.store.KeepsOthers ((st.carryOut replay).run.run s).2.store := by
  obtain ⟨message, s', hrun, hchange⟩ | ⟨e, hrun⟩ := Action.yields_iff.1
    (st.carryOut_yields (s := s) replay h.noExample)
  · rw [hrun]
    exact hchange.keepsOthers h.noUse h.noCreate
  · rw [hrun]
    exact .refl _

theorem runItems_keepsOthers {items : List Item}
    (h : ∀ text ∈ Item.textsOf items, (Statement.ofText text).IsLocal)
    (replay : Nat → Action String) (depth : Nat) (run : Run) :
    run.session.store.KeepsOthers (runItems replay depth items run).session.store :=
  Session.keepsOthers_accumulates.runItems depth items run fun text htext depth s =>
    Statement.carryOut_keepsOthers (h text htext) (replay depth) s

end GraphScript
