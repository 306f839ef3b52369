import GraphScript.Proofs.Session.Example
import GraphScript.Proofs.Session.Machine

/-!
# Termination

A machine has no bound on how often the example is played within itself, and yet it always
ends. Each task has a *weight*, and what all tasks weigh falls at every step
(`Machine.weight_step`). It is put together from

* the items: each one weighs more than what beginning with it brings about;
* the limit of a `While`, and the greatest number that a `For` can count to;
* the weight of the example, for a statement that plays it.

The last one is no circle, since no statement of the example plays the example
(`Config.exampleItems_plain`): what the example weighs does not depend on what playing it
weighs. For the same reason a machine comes back from the example that a statement plays
without having begun with another one (`Machine.takes_playExample`), and a run that allows
for one level of examples only misses nothing.

* `Session.run_terminates`: every run ends, within a number of steps that is known from the
  beginning, and each statement plays the example at most once.
-/

namespace GraphScript

/-! ### Weights -/

namespace Item

mutual

/-- What items weigh, given the limit of a `While` and the weight of the example. -/
def weightOf (limit replay : Nat) : List Item → Nat
  | [] => 1
  | item :: rest => item.weight limit replay + weightOf limit replay rest

/-- What an item weighs. The body of a loop weighs as often as the loop can repeat it. -/
def weight (limit replay : Nat) : Item → Nat
  | .statement _ text => if (Statement.ofText text).PlaysExample then replay + 2 else 1
  | .block _ (.ifBlock _) body => weightOf limit replay body + 1
  | .block _ (.whileBlock _) body => limit * (weightOf limit replay body + 1) + 2
  | .block _ (.forBlock ..) body => UInt64.size * (weightOf limit replay body + 1) + 2
  | .broken .. => 1

end

mutual

/-- Where nothing plays the example, its weight does not matter. -/
theorem weightOf_plain (limit replay replay' : Nat) : ∀ {items : List Item}, Plain items →
    weightOf limit replay items = weightOf limit replay' items
  | [], _ => by rw [weightOf, weightOf]
  | item :: rest, h => by
    rw [Plain, textsOf, List.forall_mem_append] at h
    rw [weightOf, weightOf, weight_plain limit replay replay' h.1,
      weightOf_plain limit replay replay' h.2]

theorem weight_plain (limit replay replay' : Nat) : ∀ {item : Item},
    (∀ text ∈ item.texts, ¬(Statement.ofText text).PlaysExample) →
    item.weight limit replay = item.weight limit replay'
  | .statement line text, h => by
    have hplain := h text (by rw [texts]; exact List.mem_singleton_self _)
    rw [weight, weight, if_neg hplain, if_neg hplain]
  | .block line header body, h => by
    rw [texts] at h
    have hbody := weightOf_plain limit replay replay' h
    cases header <;> rw [weight, weight, hbody]
  | .broken line error, _ => by rw [weight, weight]

end

end Item

namespace Config

/-- No statement of the example plays the example, whatever the limits. -/
theorem exampleItems_plain (config : Config) : Item.Plain config.exampleItems :=
  fun text htext => (exampleText_isLocal config.maxBlockDepth text htext).noExample

/-- What the example weighs. -/
def exampleWeight (config : Config) : Nat :=
  Item.weightOf config.whileIterationLimit 0 config.exampleItems

/-- What items weigh under the limits of a session. -/
def itemsWeight (config : Config) (items : List Item) : Nat :=
  Item.weightOf config.whileIterationLimit config.exampleWeight items

theorem itemsWeight_exampleItems (config : Config) :
    config.itemsWeight config.exampleItems = config.exampleWeight :=
  Item.weightOf_plain _ _ _ config.exampleItems_plain

/-- What a task weighs: a loop weighs what it may still repeat. -/
def taskWeight (config : Config) : Task → Nat
  | .items _ items => config.itemsWeight items
  | .whileLoop _ _ _ body more => more * (config.itemsWeight body + 1) + 1
  | .countLoop _ _ _ body more _ => more * (config.itemsWeight body + 1) + 1
  | .replay _ => 1

/-- What tasks weigh together. -/
def weight (config : Config) (tasks : List Task) : Nat :=
  (tasks.map config.taskWeight).sum

theorem weight_cons (config : Config) (task : Task) (tasks : List Task) :
    config.weight (task :: tasks) = config.taskWeight task + config.weight tasks := by
  rw [weight, weight, List.map_cons, List.sum_cons]

end Config

theorem iterations_le (first last : Float) : iterations first last ≤ UInt64.size := by
  rw [iterations]
  split_ifs
  · exact Nat.zero_le _
  · exact (Nat.min_le_right _ _).trans (Nat.sub_le _ _)

/-! ### Steps -/

namespace Machine

/-- What the tasks of a machine weigh. -/
def weight (m : Machine) : Nat :=
  m.run.session.config.weight m.tasks

variable {m next : Machine}

/-- Entering a block takes more off than the tasks that come of it weigh. -/
theorem weight_beginBlock (line depth : Nat) (header : Header) (body : List Item)
    {config : Config} (hconfig : m.run.session.config = config) :
    config.weight (m.beginBlock line depth header body).tasks <
      (Item.block line header body).weight config.whileIterationLimit config.exampleWeight +
        config.weight m.tasks := by
  have hbody : Item.weightOf config.whileIterationLimit config.exampleWeight body =
    config.itemsWeight body := rfl
  have henters := beginBlock_enters line depth header body m
  generalize m.beginBlock line depth header body = entered at *
  cases henters with
  | failed error => cases header <;> simp only [Item.weight, tasks_fail] <;> omega
  | skipped => cases header <;> simp only [Item.weight] <;> omega
  | ifBlock h =>
    rw [h, Item.weight, tasks_push, Config.weight_cons, Config.taskWeight, hbody]
    omega
  | whileBlock h =>
    rw [h, Item.weight, tasks_push, Config.weight_cons, Config.taskWeight, hbody, hconfig]
    omega
  | @forBlock _ _ _ x y h =>
    have hle := Nat.mul_le_mul_right (config.itemsWeight body + 1) (iterations_le x y)
    rw [h, Item.weight, tasks_push, Config.weight_cons, Config.taskWeight, hbody]
    omega

theorem weight_begin (depth : Nat) (item : Item) {config : Config}
    (hconfig : m.run.session.config = config) : config.weight (m.begin depth item).tasks <
      item.weight config.whileIterationLimit config.exampleWeight + config.weight m.tasks := by
  cases item with
  | statement line text =>
    rw [begin, beginStatement, Item.weight]
    split_ifs with hplays
    · -- The example, and the way back from it.
      rw [enterExample, Config.weight_cons, Config.weight_cons, Config.taskWeight,
        Config.taskWeight, hconfig, Config.itemsWeight_exampleItems]
      omega
    · exact Nat.lt_one_add_iff.2 le_rfl
  | block line header body => exact weight_beginBlock line depth header body hconfig
  | broken line error =>
    rw [Item.weight]
    exact Nat.lt_one_add_iff.2 le_rfl

theorem weight_work (task : Task) {config : Config} (hconfig : m.run.session.config = config) :
    config.weight (m.work task).tasks < config.taskWeight task + config.weight m.tasks := by
  cases task with
  | items depth items =>
    cases items with
    | nil => exact Nat.lt_one_add_iff.2 le_rfl
    | cons item rest =>
      have hbegin := weight_begin (m := m.push (.items depth rest)) depth item hconfig
      rw [tasks_push, Config.weight_cons] at hbegin
      rw [work, Config.taskWeight, Config.itemsWeight, Item.weightOf]
      rw [Config.taskWeight, Config.itemsWeight] at hbegin
      omega
  | whileLoop line depth condition body more =>
    rw [work, Config.taskWeight]
    unfold turnWhile
    split
    · rw [tasks_fail]
      omega
    · omega
    · split
      · omega
      · rw [tasks_push, tasks_push, Config.weight_cons, Config.weight_cons, Config.taskWeight,
          Config.taskWeight, Nat.succ_mul]
        omega
  | countLoop depth counter first body more step =>
    rw [work, Config.taskWeight]
    cases more with
    | zero =>
      rw [turnCount]
      omega
    | succ more =>
      rw [turnCount, tasks_push, tasks_push, Config.weight_cons, Config.weight_cons,
        Config.taskWeight, Config.taskWeight, Nat.succ_mul]
      omega
  | replay summary => exact Nat.lt_one_add_iff.2 le_rfl

/-- The tasks of a machine weigh less after every step. -/
theorem weight_step (h : m.step = some next) : next.weight < m.weight := by
  obtain ⟨tasks, run, replays⟩ := m
  cases tasks with
  | nil => cases h
  | cons task others =>
    cases h
    have hconfig := work_keeps (m := ⟨others, run, replays⟩)
      (Session.config_invariant run.session.config) task rfl
    rw [weight, weight, hconfig, Config.weight_cons]
    exact weight_work task rfl

/-- There is no endless sequence of steps, wherever it begins. -/
theorem step_wellFounded : WellFounded fun next m : Machine => m.step = some next :=
  Subrelation.wf weight_step (measure weight).wf

theorem Takes.add_weight_le {n : Nat} {last : Machine} (h : Takes n m last) :
    n + last.weight ≤ m.weight := by
  induction h with
  | none => exact (Nat.zero_add _).le
  | step hstep _ ih =>
    have := weight_step hstep
    omega

/-- What comes of a machine in the end. -/
def finish (m : Machine) : Run :=
  match _h : m.step with
  | none => m.run
  | some next => next.finish
termination_by m.weight
decreasing_by exact weight_step _h

theorem finish_of_step (h : m.step = some next) : m.finish = next.finish := by
  rw [finish]
  split <;> simp_all

theorem Takes.finish_eq {n : Nat} {last : Machine} (h : Takes n m last) :
    m.finish = last.finish := by
  induction h with
  | none => rfl
  | step hstep _ ih => rw [finish_of_step hstep, ih]

theorem finish_of_tasks_eq_nil (h : m.tasks = []) : m.finish = m.run := by
  have hstep : m.step = none := by rw [step, h]
  rw [finish]
  split <;> simp_all

/-! ### Runs -/

theorem perform_playExample (line depth : Nat) (run : Run) :
    run.perform line (playExample 1 depth) = {
      session := (runItems (playExample 0) depth run.session.config.exampleItems
        { session := run.session.emptied, summary := {} }).session
      summary := run.summary.succeed "Graph initialized with a default example." } := by
  have hmessage := playExample_message 1 depth run.session
  rw [Config.exampleItems, ← playExample_succ 0 depth run.session, Run.perform]
  generalize (playExample 1 depth).run.run run.session = outcome at *
  obtain ⟨answer, s'⟩ := outcome
  obtain rfl : answer = _ := hmessage
  rfl

/-- A machine comes back from the example with what `Initialize` does to a session, and has not
    begun with the example a second time on the way. -/
theorem takes_playExample (line depth : Nat) (m : Machine) :
    ∃ n, Takes n (m.enterExample depth)
      ⟨m.tasks, m.run.perform line (playExample 1 depth), m.replays + 1⟩ := by
  have hplain := m.run.session.config.exampleItems_plain
  obtain ⟨n, replays, rfl, htakes⟩ := performs_items (Q := (· = m.replays + 1))
    (playExample 0) depth m.run.session.config.exampleItems
    (fun text htext hplays => absurd hplays (hplain text htext))
    ⟨.replay m.run.summary :: m.tasks, { session := m.run.session.emptied, summary := {} },
      m.replays + 1⟩ rfl
  rw [perform_playExample]
  exact ⟨1 + n, htakes.append (.step rfl (.none _))⟩

/-- A machine carries out a statement as a session does, and begins with the example at most
    once. -/
theorem takes_statement (line depth : Nat) (text : String) (m : Machine) :
    ∃ n, ∃ k ≤ 1, Takes n (m.begin depth (.statement line text))
      ⟨m.tasks, m.run.perform line (Session.dispatch text depth), m.replays + k⟩ := by
  rw [begin, beginStatement, Session.dispatch]
  split_ifs with hplays
  · obtain ⟨n, htakes⟩ := takes_playExample line depth m
    rw [Statement.carryOut_initialize _ _ hplays]
    exact ⟨n, 1, le_rfl, htakes⟩
  · rw [carryOut_of_not_playsExample hplays _ (playExample 1 depth)]
    exact ⟨0, 0, Nat.zero_le 1, .none _⟩

/-- From its beginning, a machine comes to the end of a run. -/
theorem takes_run (s : Session) (source : String) :
    ∃ n replays, Takes n (start s source) ⟨[], s.run source, replays⟩ := by
  obtain ⟨n, replays, -, htakes⟩ := performs_items (Q := fun _ => True) (playExample 1) 0
    (Script.parse source s.config.maxBlockDepth).items
    (fun text _ hplays depth line m _ => by
      obtain ⟨n, htakes⟩ := takes_playExample line depth m
      rw [begin, beginStatement, if_pos hplays]
      exact ⟨n, m.replays + 1, trivial, htakes⟩)
    ⟨[], { session := s, summary := {} }, 0⟩ trivial
  exact ⟨n, replays, htakes⟩

end Machine

namespace Session

/-- Every run ends, although nothing in a machine bounds how often the example may be played
    within itself. No endless sequence of steps exists, from whatever tasks and whatever
    session; a run takes at most as many steps as the items of its script weigh, and what it ends
    in is what following the steps to their end gives. A statement begins with the example at
    most once before the machine is back at what follows it, as no statement of the example, at
    any depth and under any limits, plays the example. -/
theorem run_terminates :
    (WellFounded fun next m : Machine => m.step = some next) ∧
    (∀ (s : Session) (source : String), s.run source = (Machine.start s source).finish ∧
      ∃ n ≤ s.config.itemsWeight (Script.parse source s.config.maxBlockDepth).items, ∃ replays,
        Machine.Takes n (.start s source) ⟨[], s.run source, replays⟩) ∧
    (∀ (line depth : Nat) (text : String) (rest : List Item) (tasks : List Task) (run : Run)
        (replays : Nat), ∃ n, ∃ k ≤ 1,
      Machine.Takes n ⟨.items depth (.statement line text :: rest) :: tasks, run, replays⟩
        ⟨.items depth rest :: tasks, run.perform line (dispatch text depth), replays + k⟩) ∧
    ∀ config : Config, Item.Plain config.exampleItems := by
  refine ⟨Machine.step_wellFounded, fun s source => ?_, ?_, Config.exampleItems_plain⟩
  · obtain ⟨n, replays, htakes⟩ := Machine.takes_run s source
    have hweight := htakes.add_weight_le
    refine ⟨?_, n, ?_, replays, htakes⟩
    · rw [htakes.finish_eq, Machine.finish_of_tasks_eq_nil rfl]
    · have hstart : (Machine.start s source).weight =
          s.config.itemsWeight (Script.parse source s.config.maxBlockDepth).items := by
        rw [Machine.weight, Machine.start, Config.weight_cons, Config.taskWeight]
        rfl
      exact hstart ▸ (Nat.le_add_right _ _).trans hweight
  · intro line depth text rest tasks run replays
    obtain ⟨n, k, hk, htakes⟩ := Machine.takes_statement line depth text
      ⟨.items depth rest :: tasks, run, replays⟩
    exact ⟨n + 1, k, hk, .step rfl htakes⟩

end Session

end GraphScript
