import GraphScript.Proofs.Double.OfNat
import GraphScript.Proofs.Script.Headers
import GraphScript.Proofs.Session.Blocks
import GraphScript.Proofs.Session.Termination

/-!
# Nodes and variables stay addressable

A script can get at everything that scripts have made. Nodes get their ids from words, from the
text of numbers and from other ids in a row, so their ids are words that stand for themselves.
Variables get their names from `Let` and from `For`, which both check them, and their values from
expressions, which are finite, or by counting on from one.

Counting is what a session alone does not tell about: that the double of a counter stays finite
depends on where the loop began and on how many steps there are. So the invariant is one of
machines, and speaks of their tasks too (`Machine.Sound`).

* `Session.Visited`: the sessions that a machine passes through.
* `Session.stays_addressable`: in all of them, nodes can be removed by their ids and variables
  evaluated by their names.
-/

namespace GraphScript

open Text

/-! ### Ids -/

/-- The ids behind a change are old ones, ids that the statement names, or two of those in a
    row. -/
theorem Graph.Change.mem_ids {named : String → Prop} {g g' : Graph} (h : g.Change named g')
    {id : String} (hid : id ∈ g'.ids) :
    id ∈ g.ids ∨ named id ∨ ∃ a b, named a ∧ named b ∧ id = a ++ b := by
  cases h with
  | @addNode new value _ hnew _ hadd =>
    obtain ⟨-, rfl⟩ := addNode_eq_ok_iff.1 hadd
    rw [ids_append, List.mem_append, List.mem_singleton] at hid
    rcases hid with hid | rfl
    exacts [.inl hid, .inr (.inl hnew)]
  | removeNode hremove =>
    obtain ⟨-, rfl, -⟩ := removeNode_eq_ok_iff.1 hremove
    exact .inl (List.map_subset _ List.eraseP_subset hid)
  | connect _ hconnect =>
    obtain ⟨-, -, -, -, rfl⟩ := connect_eq_ok_iff.1 hconnect
    exact .inl hid
  | removeEdges hremove =>
    obtain ⟨-, rfl, -⟩ := removeEdges_eq_ok_iff.1 hremove
    exact .inl hid
  | isolate hisolate =>
    obtain ⟨-, rfl, -⟩ := isolate_eq_ok_iff.1 hisolate
    exact .inl hid
  | setColor hset =>
    obtain ⟨index, -, rfl⟩ := setColor_eq_ok_iff.1 hset
    rw [ids, map_modify] at hid
    · exact .inl hid
    · exact fun _ => rfl
  | setBackground => exact .inl hid
  | setDirected => exact .inl hid
  | setWeighted => exact .inl hid
  | markTraversed visited =>
    rw [ids, Graph.markTraversed, List.map_map] at hid
    exact .inl hid
  | @subdivide _ _ new _ hnew hsubdivide =>
    obtain ⟨edge, -, -, rfl⟩ := subdivide_eq_ok_iff.1 hsubdivide
    rw [ids, List.map_append, List.mem_append] at hid
    rcases hid with hid | hid
    · exact .inl hid
    · rw [List.map_singleton, List.mem_singleton] at hid
      exact .inr (.inl (hid ▸ hnew))
  | @contract a b _ _ ha hb hcontract =>
    rw [ids_contract hcontract, List.mem_append, List.mem_singleton] at hid
    rcases hid with hid | rfl
    · exact .inl (List.mem_of_mem_filter hid)
    · exact .inr (.inr ⟨a, b, ha, hb, (contract_eq_ok_iff.1 hcontract).2.1⟩)
  | reset => exact absurd hid List.not_mem_nil

namespace Session

/-- The ids of all graphs stand for themselves, and the variables have proper names and finite
    values. -/
structure Addressable (s : Session) : Prop where
  ids : ∀ g ∈ s.store.graphs, ∀ id ∈ g.ids, IsId id.toList
  names : ∀ name value, s.env.get? name = some value →
    IsName name.toList ∧ value.isFinite = true

variable {s s' : Session}

theorem isId_of_names {text id : String} {env : Environment}
    (h : (Statement.ofText text).Names env id) : IsId id.toList := by
  obtain ⟨word, hword, hid⟩ := h
  obtain ⟨chars, hchars, rfl⟩ := List.mem_map.1 hword
  refine Environment.isId_of_resolve ?_ hid
  rw [String.toList_ofList]
  exact isWord_of_mem_words hchars

theorem Addressable.setVariable (h : s.Addressable) {name : String} {value : Float}
    (hname : IsName name.toList) (hvalue : value.isFinite = true) :
    Addressable { s with env := s.env.set name value } := by
  refine ⟨h.ids, fun other old hget => ?_⟩
  rw [Environment.get?_set] at hget
  split_ifs at hget with heq
  · cases hget
    exact ⟨heq ▸ hname, hvalue⟩
  · exact h.names other old hget

/-- What a statement does keeps everything addressable. -/
theorem Addressable.change {text : String} (hchange : s.Change (Statement.ofText text) s')
    (h : s.Addressable) : s'.Addressable := by
  cases hchange with
  | same => exact h
  | graph hgraph =>
    refine ⟨fun g hg id hid => ?_, h.names⟩
    rcases mem_graphs_setCurrent hg with rfl | hg
    · rcases hgraph.mem_ids hid with hid | hid | ⟨a, b, ha, hb, rfl⟩
      · exact h.ids _ s.graph_mem_graphs id hid
      · exact isId_of_names hid
      · rw [String.toList_append]
        exact (isId_of_names ha).append (isId_of_names hb)
    · exact h.ids g hg id hid
  | create _ hcreate =>
    refine ⟨fun g hg => ?_, h.names⟩
    rw [graphs_create hcreate, List.mem_append, List.mem_singleton] at hg
    rcases hg with hg | rfl
    · exact h.ids g hg
    · exact List.forall_mem_nil _
  | use _ huse => exact ⟨graphs_use huse ▸ h.ids, h.names⟩
  | bind hword hname hvalue =>
    obtain ⟨chars, hchars, rfl⟩ := List.mem_map.1 hword
    rw [String.toList_ofList] at hname
    refine h.setVariable ?_ hvalue
    rw [String.toList_ofList]
    exact ⟨(isWord_of_mem_words hchars).ne_nil, List.all_eq_true.1 hname⟩

theorem Addressable.reset (h : s.Addressable) : Addressable { s with store := s.store.reset } :=
  Addressable.change (Change.graph .reset : s.Change (Statement.ofText "Reset") _) h

end Session

/-! ### Machines -/

/-- A task that keeps a session addressable: the headers to come count proper names, and a loop
    that is under way does so too, in steps that a double has room for. -/
def Task.Sound : Task → Prop
  | .items _ body => Item.HeadersHave Header.Counts body
  | .whileLoop _ _ _ body _ => Item.HeadersHave Header.Counts body
  | .countLoop _ counter first body more step =>
    IsName counter.toList ∧ first.isFinite = true ∧ step + more ≤ UInt64.size ∧
      Item.HeadersHave Header.Counts body
  | .replay _ => True

namespace Machine

/-- The session is addressable, and the tasks keep it so. -/
structure Sound (m : Machine) : Prop where
  session : m.run.session.Addressable
  tasks : ∀ task ∈ m.tasks, task.Sound

variable {m next : Machine}

theorem Sound.push (h : m.Sound) (task : Task) (htask : task.Sound) : (m.push task).Sound :=
  ⟨h.session, List.forall_mem_cons.2 ⟨htask, h.tasks⟩⟩

theorem sound_start {s : Session} (h : s.Addressable) (source : String) : (start s source).Sound :=
  ⟨h, List.forall_mem_singleton.2 (Script.headersHave Header.counts_of_parse _ _)⟩

theorem Sound.enterExample (h : m.Sound) (depth : Nat) : (m.enterExample depth).Sound := by
  refine ⟨h.session.reset, List.forall_mem_cons.2 ⟨?_, List.forall_mem_cons.2 ⟨trivial, h.tasks⟩⟩⟩
  exact Script.headersHave Header.counts_of_parse _ _

theorem Sound.beginStatement (h : m.Sound) (line depth : Nat) (text : String) :
    (m.beginStatement line depth (Statement.ofText text)).Sound := by
  rw [Machine.beginStatement]
  split_ifs with hplays
  · exact h.enterExample depth
  · refine ⟨?_, h.tasks⟩
    rw [Run.perform]
    obtain ⟨message, s', hcarry, hchange⟩ | ⟨e, hcarry⟩ := Action.yields_iff.1
      (Statement.carryOut_yields (s := m.run.session) _ (throw _) hplays)
    · rw [hcarry]
      exact h.session.change hchange
    · rw [hcarry]
      exact h.session

theorem Sound.beginBlock (h : m.Sound) (line depth : Nat) {header : Header} {body : List Item}
    (hheader : header.Counts) (hbody : Item.HeadersHave Header.Counts body) :
    (m.beginBlock line depth header body).Sound := by
  have henters := beginBlock_enters line depth header body m
  generalize m.beginBlock line depth header body = entered at *
  cases henters with
  | failed error => exact ⟨h.session, h.tasks⟩
  | skipped => exact h
  | ifBlock => exact h.push _ hbody
  | whileBlock => exact h.push _ hbody
  | @forBlock counter first last x y heq hfirst hlast =>
    have hle : 0 + iterations x y ≤ UInt64.size := (zero_add _).trans_le (iterations_le x y)
    subst heq
    exact h.push _ ⟨hheader, Environment.isFinite_of_evaluate hfirst, hle, hbody⟩

theorem Sound.begin (h : m.Sound) (depth : Nat) {item : Item}
    (hitem : Item.HeadersHave Header.Counts [item]) : (m.begin depth item).Sound := by
  cases item with
  | statement line text => exact h.beginStatement line depth text
  | block line header body =>
    obtain ⟨hheader, hbody⟩ := Item.headersHave_block.1 hitem
    exact h.beginBlock line depth hheader hbody
  | broken line error => exact ⟨h.session, h.tasks⟩

theorem Sound.turnWhile (h : m.Sound) (line depth : Nat) (condition : Condition)
    {body : List Item} (hbody : Item.HeadersHave Header.Counts body) (more : Nat) :
    (m.turnWhile line depth condition body more).Sound := by
  unfold Machine.turnWhile
  split
  · exact ⟨h.session, h.tasks⟩
  · exact h
  · split
    · exact h
    · exact (h.push (.whileLoop ..) hbody).push (.items ..) hbody

/-- A counter is a double with a number of steps added, and these are too few to make it
    infinite. -/
theorem Sound.turnCount (h : m.Sound) (depth : Nat) {counter : String} {first : Float}
    {body : List Item} {more step : Nat}
    (htask : (Task.countLoop depth counter first body more step).Sound) :
    (m.turnCount depth counter first body more step).Sound := by
  cases more with
  | zero => exact h
  | succ more =>
    obtain ⟨hname, hfirst, hle, hbody⟩ := htask
    have hstep : step ≤ 2 ^ 64 := (Nat.le_add_right step _).trans hle
    have hfinite : (first + Float.ofNat step).isFinite = true :=
      Double.isFinite_add_ofNat hfirst hstep (by rw [Double.limitExponent]; omega)
    have hnext : step + 1 + more ≤ UInt64.size := by omega
    have hpush := (h.push (.countLoop depth counter first body more (step + 1))
      ⟨hname, hfirst, hnext, hbody⟩).push (.items (depth + 1) body) hbody
    exact ⟨h.session.setVariable hname hfinite, hpush.tasks⟩

/-- A step of a machine keeps its session addressable. -/
theorem Sound.work (h : m.Sound) {task : Task} (htask : task.Sound) : (m.work task).Sound := by
  cases task with
  | items depth items =>
    cases items with
    | nil => exact h
    | cons item rest =>
      obtain ⟨hitem, hrest⟩ := Item.headersHave_cons.1 htask
      exact (h.push (.items depth rest) hrest).begin depth hitem
  | whileLoop line depth condition body more => exact h.turnWhile line depth condition htask more
  | countLoop depth counter first body more step => exact h.turnCount depth htask
  | replay summary => exact ⟨h.session, h.tasks⟩

theorem Sound.step (h : m.Sound) (hstep : m.step = some next) : next.Sound := by
  rw [Machine.step] at hstep
  split at hstep
  · cases hstep
  · rename_i task others htasks
    have htasks' := h.tasks
    rw [htasks, List.forall_mem_cons] at htasks'
    cases hstep
    exact Sound.work (m := { m with tasks := others }) ⟨h.session, htasks'.2⟩ htasks'.1

/-- Along its way, a machine keeps its session addressable. -/
theorem Sound.takes {n : Nat} {last : Machine} (htakes : Takes n m last) (h : m.Sound) :
    last.Sound := by
  induction htakes with
  | none => exact h
  | step hstep _ ih => exact ih (h.step hstep)

end Machine

/-! ### Removing a node by its id -/

/-- Ids are distinct, so erasing the first node with an id erases that node. -/
theorem Graph.removeNode_eq {g : Graph} (hnodup : g.ids.Nodup) {node : Node}
    (hnode : node ∈ g.nodes) :
    g.removeNode node.id = (.ok (g.degree node.id), { g with
      nodes := g.nodes.filter (· ≠ node)
      edges := g.edges.filter (!·.touches node.id) }) := by
  have herase : ∀ {nodes : List Node}, (nodes.map (·.id)).Nodup → node ∈ nodes →
      nodes.eraseP (·.id == node.id) = nodes.filter (· ≠ node) := by
    intro nodes hnodup hmem
    induction nodes with
    | nil => exact absurd hmem List.not_mem_nil
    | cons first rest ih =>
      rw [List.map_cons, List.nodup_cons] at hnodup
      rcases List.mem_cons.1 hmem with rfl | hmem
      · have hrest : ∀ other ∈ rest, decide (other ≠ node) = true := fun other hother =>
          decide_eq_true fun heq => hnodup.1 (heq ▸ List.mem_map_of_mem hother)
        rw [List.eraseP_cons_of_pos (by simp), List.filter_cons_of_neg (by simp),
          List.filter_eq_self.2 hrest]
      · have hid : first.id ≠ node.id := fun heq => hnodup.1 (heq ▸ List.mem_map_of_mem hmem)
        have hne : first ≠ node := fun heq => hid (congrArg Node.id heq)
        rw [List.eraseP_cons_of_neg (by simpa using hid),
          List.filter_cons_of_pos (by simpa using hne), ih hnodup.2 hmem]
  rw [removeNode_eq_ok_iff, herase hnodup hnode]
  exact ⟨List.mem_map_of_mem hnode, rfl, rfl⟩

theorem wordsOf_removeNode {id : String} (h : IsWord id.toList) :
    wordsOf ("Remove Node " ++ id) = ["Remove", "Node", id] := by
  have htext : ("Remove Node " ++ id).toList =
      "Remove".toList ++ ' ' :: ("Node".toList ++ ' ' :: id.toList) := by
    rw [String.toList_append]
    rfl
  rw [wordsOf, htext, words_append (by decide) rfl, words_blank rfl, words_append (by decide) rfl,
    words_blank rfl, words_of_isWord h]
  simp only [List.map_cons, List.map_nil, String.ofList_toList]

theorem Statement.carryOut_removeNode {st : Statement} {id : String}
    (h : st.words = ["Remove", "Node", id]) (replay : Action String) :
    st.carryOut replay = (do
      let id ← Action.resolve id
      let _ ← Action.changeGraph (·.removeNode id)
      return s!"Removed node {id} and its incident edges.") := by
  simp [carryOut, remove, resolved, word, h]

namespace Session

/-- A node of the current graph can be removed by its id, and only it and its edges go. -/
theorem dispatch_removeNode {s : Session} (hnodup : s.graph.ids.Nodup) {node : Node}
    (hnode : node ∈ s.graph.nodes) (hid : IsId node.id.toList) (depth : Nat) :
    (dispatch ("Remove Node " ++ node.id) depth).run.run s =
      (.ok s!"Removed node {node.id} and its incident edges.", s.setGraph { s.graph with
        nodes := s.graph.nodes.filter (· ≠ node)
        edges := s.graph.edges.filter (!·.touches node.id) }) := by
  have hresolve : (Action.resolve node.id).run.run s = (.ok node.id, s) := by
    change (Action.ofExcept (s.env.resolve node.id)).run.run s = _
    rw [Environment.resolve_of_isId hid]
    rfl
  have hchange : (Action.changeGraph (·.removeNode node.id)).run.run s =
      (.ok (s.graph.degree node.id), s.setGraph { s.graph with
        nodes := s.graph.nodes.filter (· ≠ node)
        edges := s.graph.edges.filter (!·.touches node.id) }) := by
    rw [Action.run_changeGraph, Graph.removeNode_eq hnodup hnode]
  rw [dispatch, Statement.carryOut_removeNode (wordsOf_removeNode hid.toIsWord), Action.run_bind,
    hresolve]
  dsimp only
  rw [Action.run_bind, hchange]
  rfl

/-! ### Sessions along runs -/

/-- The sessions that running texts leads to from a new one, at every step of the machine. -/
inductive Visited (config : Config) : Session → Prop
  | new (syntaxReason : String → String) : Visited config (Session.new config syntaxReason)
  | step {s : Session} {source : String} {n : Nat} {m : Machine} (h : Visited config s)
      (htakes : Machine.Takes n (.start s source) m) : Visited config m.run.session

variable {config : Config} {s : Session}

/-- The end of a run is one of its steps. -/
theorem Visited.run (h : Visited config s) (source : String) :
    Visited config (s.run source).session := by
  obtain ⟨n, replays, htakes⟩ := Machine.takes_run s source
  exact h.step htakes

theorem Visited.addressable (h : Visited config s) : s.Addressable := by
  induction h with
  | new =>
    refine ⟨fun g hg => ?_, fun name value hget => ?_⟩
    · rw [List.mem_singleton.1 hg]
      exact List.forall_mem_nil _
    · cases hget
  | step _ htakes ih => exact (Machine.Sound.takes htakes (Machine.sound_start ih _)).session

/-- An invariant of new sessions holds at every step. -/
theorem Invariant.visited {P : Session → Prop} (hP : Invariant P)
    (hnew : ∀ syntaxReason, P (Session.new config syntaxReason)) (h : Visited config s) : P s := by
  have htakes : ∀ {n : Nat} {m m' : Machine}, Machine.Takes n m m' → P m.run.session →
      P m'.run.session := by
    intro n m m' htakes hm
    induction htakes with
    | none => exact hm
    | @step _ m _ _ hstep _ ih =>
      rw [Machine.step] at hstep
      split at hstep
      · cases hstep
      · cases hstep
        exact ih (Machine.work_keeps (m := { m with tasks := _ }) hP _ hm)
  induction h with
  | new syntaxReason => exact hnew syntaxReason
  | step _ hrun ih => exact htakes hrun ih

/-- Whatever scripts make stays addressable, at every step of every run. The id of a node is a
    word that stands for itself, so in the graph of the node, `Remove Node` with that id removes
    the node and the edges at it, and nothing else. A variable has a proper name and a finite
    value, so the expression `$name` gives that value. -/
theorem stays_addressable (h : Visited config s) :
    (∀ g ∈ s.store.graphs, ∀ node ∈ g.nodes, IsId node.id.toList ∧
      ∀ (t : Session) (depth : Nat), t.graph = g →
        (dispatch ("Remove Node " ++ node.id) depth).run.run t =
          (.ok s!"Removed node {node.id} and its incident edges.", t.setGraph { g with
            nodes := g.nodes.filter (· ≠ node)
            edges := g.edges.filter (!·.touches node.id) })) ∧
    ∀ name value, s.env.get? name = some value →
      IsName name.toList ∧ value.isFinite = true ∧ s.evaluate ("$" ++ name) = .ok value := by
  have haddressable := h.addressable
  have hwell := graphsWellFormed_invariant.visited (graphsWellFormed_new config) h
  refine ⟨fun g hg node hnode => ?_, fun name value hget => ?_⟩
  · have hid := haddressable.ids g hg node.id (List.mem_map_of_mem hnode)
    refine ⟨hid, ?_⟩
    rintro t depth rfl
    exact dispatch_removeNode (hwell _ hg).ids_nodup hnode hid depth
  · obtain ⟨hname, hvalue⟩ := haddressable.names name value hget
    exact ⟨hname, hvalue, Environment.evaluate_variable hname hvalue hget _⟩

/-- A node whose id is the text of a number and another id in a row, and a counter. -/
theorem stays_addressable_contraction :
    let s := ((Session.new {}).run (
      "Let x = -5 / 2. Create Node $x. Create Node b. Connect -2.5 To b.\n" ++
      "For i_1 = 7 to 8 \x7b Contract -2.5 b. Create Node c. Connect c To -2.5b. \x7d")).session
    let node := Node.new "-2.5b" none
    Visited {} s ∧ node ∈ s.graph.nodes ∧ s.env.get? "i_1" = some 8.0 ∧
      (dispatch ("Remove Node " ++ node.id) 0).run.run s =
        (.ok s!"Removed node {node.id} and its incident edges.", s.setGraph { s.graph with
          nodes := s.graph.nodes.filter (· ≠ node)
          edges := s.graph.edges.filter (!·.touches node.id) }) ∧
      s.evaluate ("$" ++ "i_1") = .ok 8.0 := by
  intro s node
  have h : Visited {} s := (Visited.new _).run _
  have hnode : node ∈ s.graph.nodes := by decide +kernel
  have hvariable : s.env.get? "i_1" = some 8.0 := by decide +kernel
  obtain ⟨hnodes, hvariables⟩ := stays_addressable h
  exact ⟨h, hnode, hvariable, (hnodes s.graph s.graph_mem_graphs node hnode).2 s 0 rfl,
    (hvariables _ _ hvariable).2.2⟩

end Session

end GraphScript
