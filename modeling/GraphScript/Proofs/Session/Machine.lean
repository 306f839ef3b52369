import GraphScript.Proofs.Script.Nesting
import GraphScript.Proofs.Session.Trace

/-!
# Runs step by step

A run calls itself: an item of a block is run within the run of the block, and `Initialize`
runs the example within the run of its statement. Here the same is told without calls. A
*machine* keeps the calls that are under way as a list of tasks, the innermost first, and a
step works on the first one: it begins with an item, goes round a loop, or is done with it.
What `Initialize` does is not bounded in any way: each one that a machine comes to puts the
items of the example before its other tasks.

* `Machine.performs_items`: from the task of running items, a machine comes to the run that
  `runItems` gives, provided that it does for each `Initialize` among them. So the two tell
  the same, as far as the machine ends.
* `Machine.work_keeps`: a step keeps the invariants of sessions.
-/

namespace GraphScript

/-- A statement that plays the example. -/
def Statement.PlaysExample (st : Statement) : Prop :=
  st.words.head? = some "Initialize"

instance (st : Statement) : Decidable st.PlaysExample :=
  inferInstanceAs (Decidable (_ = _))

/-- None of the statements among the items plays the example, at any depth. -/
def Item.Plain (items : List Item) : Prop :=
  ∀ text ∈ Item.textsOf items, ¬(Statement.ofText text).PlaysExample

/-- The items of the example, as they are read under the limits of a session. -/
def Config.exampleItems (config : Config) : List Item :=
  (Script.parse exampleText config.maxBlockDepth).items

/-- What a machine is in the middle of. -/
inductive Task where
  /-- Items still to come, at a depth. -/
  | items (depth : Nat) (items : List Item)
  /-- A `While` that may run its body some times more. -/
  | whileLoop (line depth : Nat) (condition : Condition) (body : List Item) (more : Nat)
  /-- A `For` with some numbers still to come behind those it has counted. -/
  | countLoop (depth : Nat) (counter : String) (first : Float) (body : List Item)
      (more step : Nat)
  /-- The example, behind which a run with this summary goes on. -/
  | replay (summary : Summary)

/-- A run with the calls that are under way. -/
structure Machine where
  tasks : List Task
  run : Run
  /-- How often the example was begun. -/
  replays : Nat

namespace Machine

/-- The beginning of a run. -/
def start (s : Session) (source : String) : Machine where
  tasks := [.items 0 (Script.parse source s.config.maxBlockDepth).items]
  run := { session := s, summary := {} }
  replays := 0

/-- A machine with one more task before the others. -/
def push (task : Task) (m : Machine) : Machine :=
  { m with tasks := task :: m.tasks }

/-- A machine whose run has failed on a line. -/
def fail (line : Nat) (error : Error) (m : Machine) : Machine :=
  { m with run := m.run.fail line error }

@[simp] theorem tasks_push (task : Task) (m : Machine) :
    (m.push task).tasks = task :: m.tasks := rfl

@[simp] theorem tasks_fail (line : Nat) (error : Error) (m : Machine) :
    (m.fail line error).tasks = m.tasks := rfl

/-- Empties the current graph and begins with the example at a depth. Its summary starts
    anew, and the one so far is kept for later. -/
def enterExample (depth : Nat) (m : Machine) : Machine where
  tasks := .items depth m.run.session.config.exampleItems :: .replay m.run.summary :: m.tasks
  run := { session := m.run.session.emptied, summary := {} }
  replays := m.replays + 1

/-- Carries out a statement, or begins with the example. -/
def beginStatement (line depth : Nat) (st : Statement) (m : Machine) : Machine :=
  if st.PlaysExample then m.enterExample depth
  else { m with run := m.run.perform line (st.carryOut (throw st.unknown)) }

/-- Enters a block at a depth. -/
def beginBlock (line depth : Nat) (header : Header) (body : List Item) (m : Machine) : Machine :=
  let config := m.run.session.config
  if config.maxBlockDepth ≤ depth then m.fail line (.tooDeep config.maxBlockDepth)
  else match header with
    | .ifBlock condition =>
      match m.run.holds condition with
      | .error error => m.fail line error
      | .ok true => m.push (.items (depth + 1) body)
      | .ok false => m
    | .whileBlock condition =>
      m.push (.whileLoop line depth condition body config.whileIterationLimit)
    | .forBlock counter first last =>
      match m.run.session.evaluate first with
      | .error error => m.fail line error
      | .ok first =>
        match m.run.session.evaluate last with
        | .error error => m.fail line error
        | .ok last => m.push (.countLoop depth counter first body (iterations first last) 0)

/-- What entering a block can bring about: a failure, nothing, or a task for its body. -/
inductive Enters (line depth : Nat) (header : Header) (body : List Item) (m : Machine) :
    Machine → Prop
  | failed (error : Error) : Enters line depth header body m (m.fail line error)
  | skipped : Enters line depth header body m m
  | ifBlock {condition : Condition} (h : header = .ifBlock condition) :
      Enters line depth header body m (m.push (.items (depth + 1) body))
  | whileBlock {condition : Condition} (h : header = .whileBlock condition) :
      Enters line depth header body m
        (m.push (.whileLoop line depth condition body m.run.session.config.whileIterationLimit))
  | forBlock {counter first last : String} {x y : Float}
      (h : header = .forBlock counter first last) (hfirst : m.run.session.evaluate first = .ok x)
      (hlast : m.run.session.evaluate last = .ok y) :
      Enters line depth header body m (m.push (.countLoop depth counter x body (iterations x y) 0))

theorem beginBlock_enters (line depth : Nat) (header : Header) (body : List Item) (m : Machine) :
    Enters line depth header body m (m.beginBlock line depth header body) := by
  unfold beginBlock
  dsimp only
  split_ifs
  · exact .failed _
  · cases header with
    | ifBlock condition =>
      dsimp only
      split
      exacts [.failed _, .ifBlock rfl, .skipped]
    | whileBlock condition => exact .whileBlock rfl
    | forBlock counter first last =>
      dsimp only
      split
      · exact .failed _
      · split
        exacts [.failed _, .forBlock rfl ‹_› ‹_›]

/-- Begins with an item at a depth. -/
def begin (depth : Nat) (m : Machine) : Item → Machine
  | .statement line text => m.beginStatement line depth (Statement.ofText text)
  | .block line header body => m.beginBlock line depth header body
  | .broken line error => m.fail line error

/-- Comes to a `While`: asks its condition, and goes round once more if it may. -/
def turnWhile (line depth : Nat) (condition : Condition) (body : List Item) (more : Nat)
    (m : Machine) : Machine :=
  match m.run.holds condition with
  | .error error => m.fail line error
  | .ok false => m
  | .ok true =>
    match more with
    | 0 => m
    | more + 1 =>
      (m.push (.whileLoop line depth condition body more)).push (.items (depth + 1) body)

/-- Comes to a `For`: counts on, if there is a number to come. -/
def turnCount (depth : Nat) (counter : String) (first : Float) (body : List Item)
    (more step : Nat) (m : Machine) : Machine :=
  match more with
  | 0 => m
  | more + 1 =>
    { (m.push (.countLoop depth counter first body more (step + 1))).push
        (.items (depth + 1) body) with
      run := m.run.setVariable counter (first + Float.ofNat step) }

/-- Works on a task, where the tasks of the machine are the others. -/
def work (m : Machine) : Task → Machine
  | .items _ [] => m
  | .items depth (item :: rest) => (m.push (.items depth rest)).begin depth item
  | .whileLoop line depth condition body more => m.turnWhile line depth condition body more
  | .countLoop depth counter first body more step => m.turnCount depth counter first body more step
  | .replay summary =>
    { m with run := { m.run with
      summary := summary.succeed "Graph initialized with a default example." } }

/-- The next step, as long as there are tasks. -/
def step (m : Machine) : Option Machine :=
  match m.tasks with
  | [] => none
  | task :: others => some ({ m with tasks := others }.work task)

/-- The machine comes to another one in so many steps. -/
inductive Takes : Nat → Machine → Machine → Prop
  | none (m : Machine) : Takes 0 m m
  | step {n : Nat} {m next last : Machine} (h : m.step = some next) (hrest : Takes n next last) :
      Takes (n + 1) m last

/-- Steps are counted together. -/
theorem Takes.append {n k : Nat} {m m' m'' : Machine} (h : Takes n m m') (h' : Takes k m' m'') :
    Takes (k + n) m m'' := by
  induction h with
  | none => exact h'
  | step hstep _ ih => exact .step hstep (ih h')

/-! ### Tasks and what they do to a run -/

/-- The machine comes to the given tasks and run, and a property that the number of replays had
    it has again. -/
def Reaches (Q : Nat → Prop) (m : Machine) (tasks : List Task) (run : Run) : Prop :=
  ∃ n replays, Q replays ∧ Takes n m ⟨tasks, run, replays⟩

/-- Whatever the other tasks are, working off the task does to the run what a function does. -/
def Performs (Q : Nat → Prop) (task : Task) (f : Run → Run) : Prop :=
  ∀ m : Machine, Q m.replays → (m.push task).Reaches Q m.tasks (f m.run)

/-- Beginning with the item, and working off what that brings, does to the run what a function
    does. -/
def Begins (Q : Nat → Prop) (depth : Nat) (item : Item) (f : Run → Run) : Prop :=
  ∀ m : Machine, Q m.replays → (m.begin depth item).Reaches Q m.tasks (f m.run)

variable {Q : Nat → Prop} {m : Machine} {depth line : Nat} {body : List Item} {f : Run → Run}

theorem Reaches.here (h : Q m.replays) : m.Reaches Q m.tasks m.run :=
  ⟨0, m.replays, h, .none m⟩

/-- The first step. -/
theorem Reaches.step {task : Task} {tasks : List Task} {run : Run}
    (h : (m.work task).Reaches Q tasks run) : (m.push task).Reaches Q tasks run := by
  obtain ⟨n, replays, hQ, htakes⟩ := h
  exact ⟨n + 1, replays, hQ, .step rfl htakes⟩

/-- After one task is worked off, the machine goes on with the others. -/
theorem Performs.andThen {task : Task} {tasks : List Task} {run : Run} (h : Performs Q task f)
    (hm : Q m.replays)
    (hrest : ∀ replays, Q replays → Reaches Q ⟨m.tasks, f m.run, replays⟩ tasks run) :
    (m.push task).Reaches Q tasks run := by
  obtain ⟨n, replays, hQ, htakes⟩ := h m hm
  obtain ⟨k, replays', hQ', htakes'⟩ := hrest replays hQ
  exact ⟨k + n, replays', hQ', htakes.append htakes'⟩

/-! ### Loops -/

/-- Counts the failure of a block on its line. -/
def settle {α : Type} (line : Nat) (outcome : Except Error α × Run) : Run :=
  match outcome with
  | (.ok _, run) => run
  | (.error error, run) => run.fail line error

theorem performs_whileLoop (hbody : Performs Q (.items (depth + 1) body) f) (line : Nat)
    (condition : Condition) (more : Nat) :
    Performs Q (.whileLoop line depth condition body more) fun run =>
      settle line (GraphScript.whileLoop (·.holds condition) f more run) := by
  induction more with
  | zero =>
    intro m hm
    refine Reaches.step ?_
    beta_reduce
    rw [work, turnWhile, GraphScript.whileLoop]
    cases m.run.holds condition with
    | error error => exact Reaches.here (m := m.fail line error) hm
    | ok answer => cases answer <;> exact Reaches.here hm
  | succ more ih =>
    intro m hm
    refine Reaches.step ?_
    beta_reduce
    rw [work, turnWhile, GraphScript.whileLoop]
    cases m.run.holds condition with
    | error error => exact Reaches.here (m := m.fail line error) hm
    | ok answer =>
      cases answer with
      | false => exact Reaches.here hm
      | true =>
        -- One round of the body, then the loop from where it leads.
        exact hbody.andThen (m := m.push _) hm fun replays hQ => ih ⟨m.tasks, f m.run, replays⟩ hQ

theorem performs_countLoop (hbody : Performs Q (.items (depth + 1) body) f) (counter : String)
    (first : Float) (more step : Nat) :
    Performs Q (.countLoop depth counter first body more step)
      (GraphScript.countLoop counter first f more step) := by
  induction more generalizing step with
  | zero => exact fun m hm => Reaches.step (Reaches.here hm)
  | succ more ih =>
    intro m hm
    refine Reaches.step ?_
    set counted := m.run.setVariable counter (first + Float.ofNat step)
    exact hbody.andThen
      (m := ⟨.countLoop depth counter first body more (step + 1) :: m.tasks, counted, m.replays⟩)
      hm fun replays hQ => ih (step + 1) ⟨m.tasks, f counted, replays⟩ hQ

/-! ### Items -/

theorem begins_block (hbody : Performs Q (.items (depth + 1) body) f) (line : Nat)
    (header : Header) : Begins Q depth (.block line header body) fun run =>
      settle line (runBlock header depth f run) := by
  intro m hm
  beta_reduce
  unfold begin beginBlock runBlock
  dsimp only
  split_ifs with hdeep
  · exact Reaches.here (m := m.fail line _) hm
  · cases header with
    | ifBlock condition =>
      dsimp only
      cases m.run.holds condition with
      | error error => exact Reaches.here (m := m.fail line error) hm
      | ok answer =>
        cases answer with
        | true => exact hbody m hm
        | false => exact Reaches.here hm
    | whileBlock condition =>
      have hloop := performs_whileLoop hbody line condition
        m.run.session.config.whileIterationLimit m hm
      beta_reduce at hloop
      dsimp only
      generalize GraphScript.whileLoop (·.holds condition) f
        m.run.session.config.whileIterationLimit m.run = outcome at *
      rcases outcome with ⟨_ | _, run⟩ <;> exact hloop
    | forBlock counter first last =>
      dsimp only
      cases m.run.session.evaluate first with
      | error error => exact Reaches.here (m := m.fail line error) hm
      | ok first =>
        dsimp only
        cases m.run.session.evaluate last with
        | error error => exact Reaches.here (m := m.fail line error) hm
        | ok last => exact performs_countLoop hbody counter first _ 0 m hm

theorem carryOut_of_not_playsExample {st : Statement} (h : ¬st.PlaysExample)
    (replay replay' : Action String) : st.carryOut replay = st.carryOut replay' := by
  rw [Statement.carryOut, Statement.carryOut]
  split
  · contradiction
  all_goals rfl

mutual

/-- Items are worked off as `runItems` runs them, if the statements among them that play the
    example are. -/
theorem performs_items (replay : Nat → Action String) (depth : Nat) :
    ∀ (items : List Item), (∀ text ∈ Item.textsOf items, (Statement.ofText text).PlaysExample →
      ∀ depth line, Begins Q depth (.statement line text) (·.perform line (replay depth))) →
    Performs Q (.items depth items) (runItems replay depth items)
  | [], _ => by
    intro m hm
    rw [runItems]
    exact Reaches.step (Reaches.here hm)
  | item :: rest, hplay => by
    rw [Item.textsOf, List.forall_mem_append] at hplay
    intro m hm
    rw [runItems]
    refine Reaches.step ?_
    obtain ⟨n, replays, hQ, htakes⟩ := begins_item replay depth item hplay.1
      (m.push (.items depth rest)) hm
    obtain ⟨k, replays', hQ', htakes'⟩ := performs_items replay depth rest hplay.2
      ⟨m.tasks, runItem replay depth item m.run, replays⟩ hQ
    exact ⟨k + n, replays', hQ', htakes.append htakes'⟩

theorem begins_item (replay : Nat → Action String) (depth : Nat) :
    ∀ (item : Item), (∀ text ∈ item.texts, (Statement.ofText text).PlaysExample →
      ∀ depth line, Begins Q depth (.statement line text) (·.perform line (replay depth))) →
    Begins Q depth item (runItem replay depth item)
  | .statement line text, hplay => by
    intro m hm
    rw [runItem]
    by_cases hverb : (Statement.ofText text).PlaysExample
    · have hbegins := hplay text (by rw [Item.texts]; exact List.mem_singleton_self _) hverb depth
        line m hm
      rwa [Statement.carryOut_initialize _ _ hverb]
    · rw [begin, beginStatement, if_neg hverb, carryOut_of_not_playsExample hverb _ (replay depth)]
      exact Reaches.here (m := { m with run := _ }) hm
  | .block line header body, hplay => by
    rw [Item.texts] at hplay
    intro m hm
    have hblock := begins_block (performs_items replay (depth + 1) body hplay) line header m hm
    beta_reduce at hblock
    rw [runItem]
    generalize runBlock header depth (runItems replay (depth + 1) body) m.run = outcome at *
    rcases outcome with ⟨_ | _, run⟩ <;> exact hblock
  | .broken line error, _ => by
    intro m hm
    rw [runItem]
    exact Reaches.here (m := m.fail line error) hm

end

/-! ### Invariants -/

section

variable {P : Session → Prop}

theorem perform_keeps (hP : Session.Invariant P) {st : Statement} (h : ¬st.PlaysExample)
    (replay : Action String) {run : Run} (hrun : P run.session) :
    P (run.perform line (st.carryOut replay)).session := by
  rw [Run.perform]
  obtain ⟨message, s', hcarry, hchange⟩ | ⟨e, hcarry⟩ := Action.yields_iff.1
    (st.carryOut_yields (s := run.session) replay h)
  · rw [hcarry]
    exact hP.change hchange hrun
  · rw [hcarry]
    exact hrun

/-- Entering a block leaves the session as it is. -/
theorem Enters.session_eq {header : Header} {m' : Machine} (h : Enters line depth header body m m') :
    m'.run.session = m.run.session := by
  cases h <;> rfl

/-- Beginning with an item keeps an invariant. Only a statement touches the session. -/
theorem begin_keeps (hP : Session.Invariant P) (item : Item) (hm : P m.run.session) :
    P (m.begin depth item).run.session := by
  cases item with
  | statement line text =>
    rw [begin, beginStatement]
    split_ifs with hplays
    · exact hP.reset hm
    · exact perform_keeps hP hplays _ hm
  | block line header body =>
    rw [begin, (beginBlock_enters line depth header body m).session_eq]
    exact hm
  | broken line error => exact hm

/-- A step keeps an invariant. -/
theorem work_keeps (hP : Session.Invariant P) (task : Task) (hm : P m.run.session) :
    P (m.work task).run.session := by
  cases task with
  | items depth items =>
    cases items with
    | nil => exact hm
    | cons item rest => exact begin_keeps (m := m.push _) hP item hm
  | whileLoop line depth condition body more =>
    rw [work]
    unfold turnWhile
    split
    · exact hm
    · exact hm
    · split <;> exact hm
  | countLoop depth counter first body more step =>
    cases more with
    | zero => exact hm
    | succ more => exact hP.count counter _ hm
  | replay summary => exact hm

end

end Machine

end GraphScript
