import GraphScript.Proofs.Session.Example

/-!
# What `Initialize` leaves behind

The example is played in the session that asks for it, with the variables that it finds there and
at the depth of the statement. Of all this only the depth matters, and of the depth only whether
blocks are allowed there (`graph_playExample`): an emptied graph resembles that of a fresh session,
and the example binds each variable before it asks for it.

Where a statement stands as deep as blocks may nest, the blocks of the example are turned away, and
with its summary their failures are dropped. The statement succeeds with the same message and leaves
another graph (`Session.graph_initialize_eq_iff`).
-/

namespace GraphScript

/-- The depth of a fresh session with one level of blocks at which the example goes as it does at
    the given depth. -/
def exampleDepth (c : Config) (depth : Nat) : Nat :=
  if depth < c.maxBlockDepth then 0 else 1

theorem exampleItems_enteredAlike (c : Config) (depth : Nat) :
    Item.EnteredAlike c { maxBlockDepth := 1 } depth (exampleDepth c depth) exampleItems := by
  obtain ⟨-, -, -, hparts, -⟩ := example_evaluation
  intro n line header body hinside
  -- The blocks of the example are not nested.
  have hn := below_exampleItems n line header body hinside
  obtain rfl : n = 0 := by omega
  refine ⟨?_, fun hwhile => ?_⟩
  · rw [exampleDepth]
    split
    · exact iff_of_false (by omega) (by decide)
    · exact iff_of_true (by omega) (Nat.le_refl 1)
  · have hfalse : header.isWhile = false := hparts _ hinside.mem_partsOf
    rw [hfalse] at hwhile
    cases hwhile

theorem exampleRun_not_lacks (c : Config) (depth : Nat) :
    ¬(exampleRun (exampleDepth c depth)).Lacks := by
  obtain ⟨-, -, -, -, hzero, hone, -⟩ := example_evaluation
  have hcodes : ∀ d ∈ (exampleRun (exampleDepth c depth)).summary.diagnostics,
      d.code ≠ "pen/error/not-found" ∧ d.code ≠ "pen/error/invalid-expression" := by
    rw [exampleDepth]
    split
    · exact hzero
    · exact hone
  rintro ⟨line, e, hvalue, hmem⟩
  cases hvalue with
  | unbound x => exact (hcodes _ hmem).1 rfl
  | invalid expression reason => exact (hcodes _ hmem).2 rfl

/-- The graph that `Initialize` leaves depends on whether blocks are allowed at its depth, and on
    nothing else but its name. -/
theorem graph_playExample {s : Session} (hpos : 0 < s.config.maxBlockDepth) (depth : Nat) :
    ((playExample 1 depth).run.run s).2.graph =
      (exampleRun (exampleDepth s.config depth)).session.graph.renamed s.graph.name := by
  have hstart : Session.Resembles s.graph.name s.config { maxBlockDepth := 1 } s.emptied
      (Session.new { maxBlockDepth := 1 }) := by
    refine ⟨rfl, fun x value hvalue => ?_, rfl, rfl⟩
    cases hvalue
  have hlocal : ∀ text ∈ Item.textsOf exampleItems, (Statement.ofText text).IsLocal :=
    example_evaluation.2.2.1
  have hfollows := runItems_follows (playExample 0) (playExample 0) depth
    (exampleDepth s.config depth) exampleItems { session := s.emptied, summary := {} }
    { session := Session.new { maxBlockDepth := 1 }, summary := {} } hlocal
    (exampleItems_enteredAlike s.config depth) (.inl hstart)
  rw [playExample_succ, items_exampleText_of_pos hpos]
  obtain hresembles | hlacks := hfollows
  · exact hresembles.graph
  · exact absurd hlacks (exampleRun_not_lacks s.config depth)

theorem Graph.renamed_ne {g g' : Graph} (h : g.edges.length ≠ g'.edges.length) (name : String) :
    g.renamed name ≠ g'.renamed name :=
  fun heq => h (congrArg (·.edges.length) heq)

/-- The example has fewer edges where its blocks are turned away. -/
theorem exampleRun_graph_ne (name : String) :
    (exampleRun 0).session.graph.renamed name ≠ (exampleRun 1).session.graph.renamed name := by
  obtain ⟨-, -, -, -, -, -, hzero, hone⟩ := example_evaluation
  refine Graph.renamed_ne ?_ name
  rw [hzero, hone]
  decide

/-- A run that comes to `Initialize` counts a success and has the graph of the example. -/
theorem runItem_playExample {text : String}
    (htext : (Text.wordsOf text).head? = some "Initialize") {run : Run}
    (hpos : 0 < run.session.config.maxBlockDepth) (line depth : Nat) :
    let after := runItem (playExample 1) depth (.statement line text) run
    after.summary = run.summary.succeed "Graph initialized with a default example." ∧
      after.session.graph = (exampleRun (exampleDepth run.session.config depth)).session.graph.renamed
        run.session.graph.name := by
  have hmessage := playExample_message 1 depth run.session
  have hgraph := graph_playExample hpos depth
  rw [runItem, Statement.carryOut_initialize _ _ htext, Run.perform]
  generalize (playExample 1 depth).run.run run.session = outcome at *
  obtain ⟨answer, s'⟩ := outcome
  obtain rfl : answer = _ := hmessage
  exact ⟨rfl, hgraph⟩

/-- An `If` whose condition holds is its body, one level deeper. -/
theorem runItem_ifBlock {replay : Nat → Action String} {depth : Nat} {condition : Condition}
    {run : Run} (hdepth : depth < run.session.config.maxBlockDepth)
    (hholds : run.holds condition = .ok true) (line : Nat) (body : List Item) :
    runItem replay depth (.block line (.ifBlock condition) body) run =
      runItems replay (depth + 1) body run := by
  rw [runItem]
  unfold runBlock
  rw [if_neg (Nat.not_le.2 hdepth)]
  simp only [hholds]

namespace Session

/-- `Initialize` always succeeds, with the same message. In two sessions with the same limits and
    with current graphs of the same name it leaves the same graph at two depths if blocks are
    allowed at both of them or at neither, and different graphs otherwise. -/
theorem graph_initialize_eq_iff {text : String}
    (htext : (Text.wordsOf text).head? = some "Initialize") {s s' : Session}
    (hconfig : s'.config = s.config) (hname : s'.graph.name = s.graph.name)
    (hpos : 0 < s.config.maxBlockDepth) (depth depth' : Nat) :
    let outcome := (dispatch text depth).run.run s
    let outcome' := (dispatch text depth').run.run s'
    (outcome.1 = .ok "Graph initialized with a default example." ∧ outcome'.1 = outcome.1) ∧
      (outcome.2.graph = outcome'.2.graph ↔
        (depth < s.config.maxBlockDepth ↔ depth' < s.config.maxBlockDepth)) := by
  intro outcome outcome'
  have hplay : ∀ depth, dispatch text depth = playExample 1 depth := fun depth =>
    Statement.carryOut_initialize _ _ htext
  have houtcome : outcome = (playExample 1 depth).run.run s := by rw [← hplay]
  have houtcome' : outcome' = (playExample 1 depth').run.run s' := by rw [← hplay]
  have hpos' : 0 < s'.config.maxBlockDepth := hconfig.symm ▸ hpos
  rw [houtcome, houtcome', playExample_message, playExample_message, graph_playExample hpos,
    graph_playExample hpos', hconfig, hname, exampleDepth, exampleDepth]
  refine ⟨⟨rfl, rfl⟩, ?_⟩
  have hne := exampleRun_graph_ne s.graph.name
  by_cases h : depth < s.config.maxBlockDepth
  · by_cases h' : depth' < s.config.maxBlockDepth
    · rw [if_pos h, if_pos h']
      exact iff_of_true rfl (iff_of_true h h')
    · rw [if_pos h, if_neg h']
      exact iff_of_false hne fun hiff => h' (hiff.1 h)
  · by_cases h' : depth' < s.config.maxBlockDepth
    · rw [if_neg h, if_pos h']
      exact iff_of_false hne.symm fun hiff => h (hiff.2 h')
    · rw [if_neg h, if_neg h']
      exact iff_of_true rfl (iff_of_false h h')

/-- A graph and variables that the example also uses do not matter, and neither does the depth of
    one block, but that of a second block does. -/
theorem graph_initialize_eq_iff_leftovers :
    let s := Session.new { maxBlockDepth := 2 }
    let s' := (s.run "Create Node 0. Let i = 5. Let counter = 9.").session
    (s'.env.Binds "i" ∧ s'.graph.contains "0" = true) ∧
      (s'.config = s.config ∧ s'.graph.name = s.graph.name ∧ 0 < s.config.maxBlockDepth) ∧
      ((dispatch "Initialize" 0).run.run s).2.graph =
        ((dispatch "Initialize" 1).run.run s').2.graph ∧
      ((dispatch "Initialize" 0).run.run s).2.graph ≠
        ((dispatch "Initialize" 2).run.run s').2.graph := by
  intro s s'
  have hvalues : (s'.env.Binds "i" ∧ s'.graph.contains "0" = true) ∧
      s'.config = s.config ∧ s'.graph.name = s.graph.name := by
    decide +kernel
  have htext : (Text.wordsOf "Initialize").head? = some "Initialize" := by decide +kernel
  have hpos : 0 < s.config.maxBlockDepth := Nat.two_pos
  obtain ⟨hleft, hconfig, hname⟩ := hvalues
  have hmax : s.config.maxBlockDepth = 2 := rfl
  generalize s' = t at *
  generalize s = r at *
  have hone := (graph_initialize_eq_iff htext hconfig hname hpos 0 1).2
  have htwo := (graph_initialize_eq_iff htext hconfig hname hpos 0 2).2
  rw [hmax] at hone htwo
  exact ⟨hleft, ⟨hconfig, hname, hpos⟩, hone.2 (by decide), mt htwo.1 (by decide)⟩

/-- Where one level of blocks is allowed, a script that comes to `Initialize` within a block ends
    with another graph than one that comes to it outside, and tells the same. -/
theorem initialize_cut_short_in_block :
    let s := Session.new { maxBlockDepth := 1 }
    let outside := s.run "Initialize."
    let inside := s.run "If NOT HAS_CYCLE \x7b\nInitialize.\n\x7d"
    inside.summary = outside.summary ∧ outside.session.graph ≠ inside.session.graph := by
  intro s outside inside
  let start : Run := { session := s, summary := {} }
  have hscan : Token.scan "Initialize." = [.statement 1 "Initialize"] ∧
      Token.scan "If NOT HAS_CYCLE \x7b\nInitialize.\n\x7d" =
        [.opening 1 "If NOT HAS_CYCLE", .statement 2 "Initialize", .closing 3] := by
    decide +kernel
  have hvalues : Header.parse "If NOT HAS_CYCLE" = .ok (.ifBlock (.not (.check .hasCycle))) ∧
      (Text.wordsOf "Initialize").head? = some "Initialize" ∧
      start.holds (.not (.check .hasCycle)) = .ok true ∧
      start.session.config.maxBlockDepth = 1 := by
    decide +kernel
  obtain ⟨hparse, htext, hholds, hmax⟩ := hvalues
  have houtside : (Script.parse "Initialize." 1).items = [.statement 1 "Initialize"] := by
    rw [Script.parse_eq, hscan.1]
    rfl
  have hinside : (Script.parse "If NOT HAS_CYCLE \x7b\nInitialize.\n\x7d" 1).items =
      [.block 1 (.ifBlock (.not (.check .hasCycle))) [.statement 2 "Initialize"]] := by
    rw [Script.parse_eq, hscan.2]
    change [Frame.close { line := 1, header := "If NOT HAS_CYCLE", body := [_] }] = _
    rw [Frame.close, hparse]
  have hrun : outside = runItems (playExample 1) 0 (Script.parse "Initialize." 1).items start := rfl
  have hrun' : inside = runItems (playExample 1) 0
      (Script.parse "If NOT HAS_CYCLE \x7b\nInitialize.\n\x7d" 1).items start := rfl
  -- In a session that it can look into, the kernel would play the example.
  generalize outside = outside at *
  generalize inside = inside at *
  generalize start = start at *
  have hpos : 0 < start.session.config.maxBlockDepth := hmax.symm ▸ Nat.one_pos
  rw [houtside, runItems, runItems] at hrun
  rw [hinside, runItems, runItems, runItem_ifBlock hpos hholds, runItems, runItems] at hrun'
  obtain ⟨hsummary, hgraph⟩ := runItem_playExample htext hpos 1 0
  obtain ⟨hsummary', hgraph'⟩ := runItem_playExample htext hpos 2 1
  rw [exampleDepth, hmax, if_pos Nat.one_pos] at hgraph
  rw [exampleDepth, hmax, if_neg (Nat.lt_irrefl 1)] at hgraph'
  rw [hrun, hrun', hsummary, hsummary', hgraph, hgraph']
  exact ⟨rfl, exampleRun_graph_ne _⟩

end Session

end GraphScript
