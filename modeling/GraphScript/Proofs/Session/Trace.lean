import GraphScript.Proofs.Session.Invariant

/-!
# Traces of runs

The trace of a run lists the statements that it carries out, in order, each with the session
before and after it: those in the body of a block as often as the block repeats them, and
those that `Initialize` plays, once it has emptied the graph.

A trace is a chain (`Chain`): a statement starts from the session that the one before it
leaves behind, up to the counters of loops, and the last one leaves behind the session of the
run (`Session.run_chain`). So what holds at the beginning and is kept by the statements of the
trace holds at every point of it (`Chain.keeps`). In contrast to an invariant, this may use
that certain statements do not occur.
-/

namespace GraphScript

/-- A statement carried out. -/
structure Event where
  before : Session
  statement : Statement
  after : Session

theorem Action.run_modify {α : Type} (f : Session → Session) (x : α) (s : Session) :
    ((do modify f; return x : Action α).run.run s).2 = f s := rfl

/-! ### Loops

What is told of a loop or a block is put together from what is told of each round of its
body, be it the events of the body or something else. -/

section

variable {α : Type}

/-- What a body tells that is run as long as a condition holds. -/
def traceWhile (holds : Run → Except Error Bool) (body : Run → Run) (trace : Run → List α) :
    Nat → Run → List α
  | 0, _ => []
  | more + 1, run =>
    match holds run with
    | .ok true => trace run ++ traceWhile holds body trace more (body run)
    | _ => []

/-- What a body tells that is run with a counter. -/
def traceCount (counter : String) (first : Float) (body : Run → Run) (trace : Run → List α) :
    Nat → Nat → Run → List α
  | 0, _, _ => []
  | more + 1, step, run =>
    let counted := run.setVariable counter (first + Float.ofNat step)
    trace counted ++ traceCount counter first body trace more (step + 1) (body counted)

/-- What the body of a block tells. -/
def traceBlock (header : Header) (depth : Nat) (body : Run → Run) (trace : Run → List α)
    (run : Run) : List α :=
  if run.session.config.maxBlockDepth ≤ depth then []
  else match header with
    | .ifBlock condition =>
      match run.holds condition with
      | .ok true => trace run
      | _ => []
    | .whileBlock condition =>
      traceWhile (·.holds condition) body trace run.session.config.whileIterationLimit run
    | .forBlock counter first last =>
      match run.session.evaluate first, run.session.evaluate last with
      | .ok first, .ok last => traceCount counter first body trace (iterations first last) 0 run
      | _, _ => []

/-- A relation between two points of a run and what is told between them that can be put
    together from parts; the counters of loops are set in between. -/
structure Composes (R : Run → List α → Run → Prop) : Prop where
  nil : ∀ run, R run [] run
  append : ∀ {run run' run'' told more}, R run told run' → R run' more run'' →
    R run (told ++ more) run''
  count : ∀ {run run' told} name value, R (run.setVariable name value) told run' →
    R run told run'

namespace Composes

variable {R : Run → List α → Run → Prop} {body : Run → Run} {trace : Run → List α}

/-- What is told of the rounds of a loop can be put together to what is told of the loop. -/
theorem whileLoop (hR : Composes R) (hbody : ∀ run, R run (trace run) (body run))
    (holds : Run → Except Error Bool) (more : Nat) (run : Run) :
    R run (traceWhile holds body trace more run) (GraphScript.whileLoop holds body more run).2 := by
  induction more generalizing run with
  | zero => exact hR.nil _
  | succ more ih =>
    rw [traceWhile, GraphScript.whileLoop]
    cases holds run with
    | error error => exact hR.nil _
    | ok answer =>
      cases answer with
      | true => exact hR.append (hbody run) (ih (body run))
      | false => exact hR.nil _

theorem countLoop (hR : Composes R) (hbody : ∀ run, R run (trace run) (body run))
    (counter : String) (first : Float) (more step : Nat) (run : Run) :
    R run (traceCount counter first body trace more step run)
      (GraphScript.countLoop counter first body more step run) := by
  induction more generalizing step run with
  | zero => exact hR.nil _
  | succ more ih => exact hR.count counter _ (hR.append (hbody _) (ih (step + 1) _))

/-- The body of a block runs not at all, once, or in rounds. -/
theorem runBlock (hR : Composes R) (hbody : ∀ run, R run (trace run) (body run))
    (header : Header) (depth : Nat) (run : Run) :
    R run (traceBlock header depth body trace run)
      (GraphScript.runBlock header depth body run).2 := by
  unfold traceBlock GraphScript.runBlock
  split
  · exact hR.nil _
  · cases header with
    | ifBlock condition =>
      dsimp only
      cases run.holds condition with
      | error error => exact hR.nil _
      | ok answer =>
        cases answer with
        | true => exact hbody run
        | false => exact hR.nil _
    | whileBlock condition =>
      have hloop := hR.whileLoop hbody (·.holds condition)
        run.session.config.whileIterationLimit run
      dsimp only
      split
      · rwa [‹GraphScript.whileLoop _ _ _ _ = _›] at hloop
      · rwa [‹GraphScript.whileLoop _ _ _ _ = _›] at hloop
    | forBlock counter first last =>
      dsimp only
      cases run.session.evaluate first with
      | error error => exact hR.nil _
      | ok first =>
        cases run.session.evaluate last with
        | error error => exact hR.nil _
        | ok last => exact hR.countLoop hbody counter first _ 0 run

end Composes

end

/-! ### Items -/

/-- A session with its current graph emptied. -/
def Session.emptied (s : Session) : Session :=
  { s with store := s.store.reset }

/-- The events of a statement, given what `Initialize` does and the events of that. -/
def traceStatement (replay : Action String) (replayTrace : Session → List Event)
    (st : Statement) (s : Session) : List Event :=
  if st.words.head? = some "Initialize" then
    { before := s, statement := st, after := s.emptied } :: replayTrace s.emptied
  else [{ before := s, statement := st, after := ((st.carryOut replay).run.run s).2 }]

mutual

/-- The events of items. -/
def traceItems (replay : Nat → Action String) (replayTrace : Nat → Session → List Event)
    (depth : Nat) : List Item → Run → List Event
  | [], _ => []
  | item :: rest, run =>
    traceItem replay replayTrace depth item run ++
      traceItems replay replayTrace depth rest (runItem replay depth item run)

/-- The events of an item. -/
def traceItem (replay : Nat → Action String) (replayTrace : Nat → Session → List Event)
    (depth : Nat) : Item → Run → List Event
  | .statement _ text, run =>
    traceStatement (replay depth) (replayTrace depth) (Statement.ofText text) run.session
  | .block _ header body, run =>
    traceBlock header depth (runItems replay (depth + 1) body)
      (traceItems replay replayTrace (depth + 1) body) run
  | .broken .., _ => []

end

/-- The events of the bundled example at a depth, in a session whose graph is empty. -/
def traceExample : Nat → Nat → Session → List Event
  | 0, _, _ => []
  | replays + 1, depth, s =>
    traceItems (playExample replays) (traceExample replays) depth
      (Script.parse exampleText s.config.maxBlockDepth).items { session := s, summary := {} }

/-- The events of running a text. -/
def Session.trace (s : Session) (source : String) : List Event :=
  traceItems (playExample 1) (traceExample 1) 0 (Script.parse source s.config.maxBlockDepth).items
    { session := s, summary := {} }

/-! ### Chains -/

/-- The events lead from one session to another, with nothing but counters set between
    them. -/
inductive Chain : Session → List Event → Session → Prop
  | nil (s : Session) : Chain s [] s
  | count {s s' : Session} {events : List Event} (name : String) (value : Float)
      (h : Chain { s with env := s.env.set name value } events s') : Chain s events s'
  | event {e : Event} {s' : Session} {events : List Event}
      (hstep : e.before.Change e.statement e.after) (h : Chain e.after events s') :
      Chain e.before (e :: events) s'

namespace Chain

theorem append {s s' s'' : Session} {events more : List Event} (h : Chain s events s')
    (hmore : Chain s' more s'') : Chain s (events ++ more) s'' := by
  induction h with
  | nil => exact hmore
  | count name value _ ih => exact .count name value (ih hmore)
  | event hstep _ ih => exact .event hstep (ih hmore)

/-- A property that none of the events breaks holds behind each of them and at the end. -/
theorem keeps {P : Session → Prop} {s s' : Session} {events : List Event}
    (h : Chain s events s')
    (hevent : ∀ e ∈ events, e.before.Change e.statement e.after → P e.before → P e.after)
    (hcount : ∀ (s : Session) name value, P s → P { s with env := s.env.set name value })
    (hs : P s) : (∀ e ∈ events, P e.after) ∧ P s' := by
  induction h with
  | nil => exact ⟨fun _ he => absurd he List.not_mem_nil, hs⟩
  | count name value _ ih => exact ih hevent (hcount _ name value hs)
  | @event e _ _ hstep _ ih =>
    obtain ⟨hfirst, hrest⟩ := List.forall_mem_cons.1 hevent
    have hafter := hfirst hstep hs
    obtain ⟨hevents, hend⟩ := ih hrest hafter
    exact ⟨List.forall_mem_cons.2 ⟨hafter, hevents⟩, hend⟩

/-! ### Runs are chains -/

theorem composes : Composes fun run events run' => Chain run.session events run'.session where
  nil run := .nil run.session
  append h hmore := h.append hmore
  count name value h := .count name value h

/-- A statement is an event, and `Initialize` brings the events of the example with it. -/
theorem statement {replay : Action String} {replayTrace : Session → List Event}
    (hreplay : ∀ s : Session, Chain s.emptied (replayTrace s.emptied) (replay.run.run s).2)
    (st : Statement) (s : Session) :
    Chain s (traceStatement replay replayTrace st s) ((st.carryOut replay).run.run s).2 := by
  by_cases hverb : st.words.head? = some "Initialize"
  · have hempty : s.Change st s.emptied := .graph .reset
    have hexample := hreplay s
    rw [traceStatement, if_pos hverb, st.carryOut_initialize replay hverb]
    exact .event (e := { before := s, statement := st, after := s.emptied }) hempty hexample
  · rw [traceStatement, if_neg hverb]
    refine .event (e := { before := s, statement := st, after := _ }) ?_ (.nil _)
    obtain ⟨message, s', hrun, hchange⟩ | ⟨error, hrun⟩ := Action.yields_iff.1
      (st.carryOut_yields (s := s) replay hverb)
    · rw [hrun]
      exact hchange
    · -- A statement that fails changes nothing.
      rw [hrun]
      exact .same

mutual

theorem runItems {replay : Nat → Action String} {replayTrace : Nat → Session → List Event}
    (hreplay : ∀ depth (s : Session),
      Chain s.emptied (replayTrace depth s.emptied) ((replay depth).run.run s).2) (depth : Nat) :
    ∀ (items : List Item) (run : Run), Chain run.session
      (traceItems replay replayTrace depth items run)
      (GraphScript.runItems replay depth items run).session
  | [], run => by
    rw [traceItems, GraphScript.runItems]
    exact .nil _
  | item :: rest, run => by
    rw [traceItems, GraphScript.runItems]
    exact (runItem hreplay depth item run).append (runItems hreplay depth rest _)

theorem runItem {replay : Nat → Action String} {replayTrace : Nat → Session → List Event}
    (hreplay : ∀ depth (s : Session),
      Chain s.emptied (replayTrace depth s.emptied) ((replay depth).run.run s).2) (depth : Nat) :
    ∀ (item : Item) (run : Run), Chain run.session
      (traceItem replay replayTrace depth item run)
      (GraphScript.runItem replay depth item run).session
  | .statement line text, run => by
    have hstatement := statement (hreplay depth) (Statement.ofText text) run.session
    rw [traceItem, GraphScript.runItem, Run.perform]
    generalize ((Statement.ofText text).carryOut (replay depth)).run.run run.session = outcome at *
    rcases outcome with ⟨_ | _, s'⟩ <;> exact hstatement
  | .block line header body, run => by
    have hblock := composes.runBlock (runItems hreplay (depth + 1) body) header depth run
    rw [traceItem, GraphScript.runItem]
    generalize GraphScript.runBlock header depth (GraphScript.runItems replay (depth + 1) body)
      run = outcome at *
    rcases outcome with ⟨_ | _, run'⟩ <;> exact hblock
  | .broken line error, run => by
    rw [traceItem, GraphScript.runItem]
    exact .nil _

end

theorem playExample (replays depth : Nat) (s : Session) :
    Chain s.emptied (traceExample replays depth s.emptied)
      ((GraphScript.playExample replays depth).run.run s).2 := by
  induction replays generalizing depth s with
  | zero => exact .nil _
  | succ replays ih =>
    rw [traceExample, GraphScript.playExample, Action.run_modify]
    exact runItems ih depth _ { session := s.emptied, summary := {} }

end Chain

/-- The trace of a run leads from the session before it to the session after it. -/
theorem Session.run_chain (s : Session) (source : String) :
    Chain s (s.trace source) (s.run source).session :=
  Chain.runItems (Chain.playExample 1) 0 _ { session := s, summary := {} }

/-- The events of all runs so far, from a new session on. -/
inductive History (config : Config) : List Event → Session → Prop
  | new (syntaxReason : String → String) : History config [] (Session.new config syntaxReason)
  | run {events : List Event} {s : Session} (source : String) (h : History config events s) :
      History config (events ++ s.trace source) (s.run source).session

theorem History.chain {config : Config} {events : List Event} {s : Session}
    (h : History config events s) :
    ∃ syntaxReason, Chain (Session.new config syntaxReason) events s := by
  induction h with
  | new syntaxReason => exact ⟨syntaxReason, .nil _⟩
  | @run events s source _ ih =>
    obtain ⟨syntaxReason, hchain⟩ := ih
    exact ⟨syntaxReason, hchain.append (s.run_chain source)⟩

end GraphScript
