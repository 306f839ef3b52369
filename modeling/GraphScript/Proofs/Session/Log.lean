import GraphScript.Proofs.Script.Nesting
import GraphScript.Proofs.Session.Blocks
import GraphScript.Proofs.Session.Messages
import GraphScript.Proofs.Session.Trace

/-!
# Logs of runs

The log of a run lists what it records, in order: each statement that is carried out with its
message or its error, each block that cannot be entered, and each broken item
(`Session.outcomes`). A block that is entered is not recorded itself, and neither is anything that
`Initialize` plays.

The summary of a run is the tally of its log (`Session.run_records`), so that what is to be known of
summaries can be read off logs. All that a log has is about items of the script and fits them
(`Session.outcomes_isOf`): statements that succeed say something, broken items fail as they are
bound to, and a block fails for its header, and not because it nests too deep. The assembly of the
script has turned such blocks away before.
-/

namespace GraphScript

/-- What a run records: an item, and the message or the error that it ended with. -/
structure Outcome where
  item : Item
  result : Except Error String

namespace Summary

/-- Counts an outcome. -/
def record (s : Summary) (o : Outcome) : Summary :=
  match o.result with
  | .ok message => s.succeed message
  | .error error => s.fail o.item.line error

/-- The summary of a log. -/
def tally (log : List Outcome) : Summary :=
  log.foldl record {}

end Summary

/-! ### What is recorded -/

/-- What is recorded of an item that is only recorded if it fails. -/
def Item.refusal (item : Item) : Except Error Unit → List Outcome
  | .ok () => []
  | .error error => [{ item := item, result := .error error }]

mutual

/-- What is recorded of items. -/
def outcomesOf (replay : Nat → Action String) (depth : Nat) : List Item → Run → List Outcome
  | [], _ => []
  | item :: rest, run =>
    outcomesIn replay depth item run ++
      outcomesOf replay depth rest (runItem replay depth item run)

/-- What is recorded of an item; a block comes behind all rounds of its body. -/
def outcomesIn (replay : Nat → Action String) (depth : Nat) : Item → Run → List Outcome
  | .statement line text, run =>
    [{ item := .statement line text
       result := (((Statement.ofText text).carryOut (replay depth)).run.run run.session).1 }]
  | .block line header body, run =>
    traceBlock header depth (runItems replay (depth + 1) body)
        (outcomesOf replay (depth + 1) body) run ++
      (Item.block line header body).refusal
        (runBlock header depth (runItems replay (depth + 1) body) run).1
  | .broken line error, _ => [{ item := .broken line error, result := .error error }]

end

/-- The log of running a text. -/
def Session.outcomes (s : Session) (source : String) : List Outcome :=
  outcomesOf (playExample 1) 0 (Script.parse source s.config.maxBlockDepth).items
    { session := s, summary := {} }

/-- The later summary counts the outcomes in addition to the earlier one. -/
def Records (run : Run) (log : List Outcome) (run' : Run) : Prop :=
  run'.summary = log.foldl Summary.record run.summary

/-- Logs are counted one after the other. -/
theorem Records.append {run run' run'' : Run} {log more : List Outcome} (h : Records run log run')
    (hmore : Records run' more run'') : Records run (log ++ more) run'' := by
  rw [Records] at h hmore ⊢
  rw [hmore, h, List.foldl_append]

theorem records_composes : Composes Records where
  nil _ := rfl
  append := Records.append
  count _ _ h := h

theorem records_fail (run : Run) (item : Item) (error : Error) :
    Records run [{ item := item, result := .error error }] (run.fail item.line error) := rfl

theorem records_perform (run : Run) (item : Item) (action : Action String) :
    Records run [{ item := item, result := (action.run.run run.session).1 }]
      (run.perform item.line action) := by
  rw [Run.perform]
  generalize action.run.run run.session = outcome
  obtain ⟨error | message, session⟩ := outcome
  · rfl
  · rfl

mutual

/-- The summary behind items counts what is recorded of them. -/
theorem runItems_records (replay : Nat → Action String) (depth : Nat) :
    ∀ (items : List Item) (run : Run),
      Records run (outcomesOf replay depth items run) (runItems replay depth items run)
  | [], run => by
    rw [outcomesOf, runItems]
    rfl
  | item :: rest, run => by
    rw [outcomesOf, runItems]
    exact (runItem_records replay depth item run).append (runItems_records replay depth rest _)

theorem runItem_records (replay : Nat → Action String) (depth : Nat) :
    ∀ (item : Item) (run : Run),
      Records run (outcomesIn replay depth item run) (runItem replay depth item run)
  | .statement line text, run => by
    rw [outcomesIn, runItem]
    exact records_perform run (.statement line text) _
  | .block line header body, run => by
    have hbody := records_composes.runBlock (runItems_records replay (depth + 1) body) header depth
      run
    rw [outcomesIn, runItem]
    generalize runBlock header depth (runItems replay (depth + 1) body) run = outcome at *
    obtain ⟨error | _, run'⟩ := outcome
    · -- The failure of the header is counted behind what the body has recorded.
      exact hbody.append (records_fail run' (.block line header body) error)
    · exact hbody.append (records_composes.nil run')
  | .broken line error, run => by
    rw [outcomesIn, runItem]
    exact records_fail run (.broken line error) error

end

/-- The summary of a run is the tally of its log. -/
theorem Session.run_records (s : Session) (source : String) :
    (s.run source).summary = Summary.tally (s.outcomes source) :=
  runItems_records (playExample 1) 0 _ { session := s, summary := {} }

/-! ### Outcomes and items -/

namespace Outcome

/-- A statement has not succeeded without a message, a block has failed, but not for malformed text,
    and a broken item has failed as it was bound to. -/
def Fits (o : Outcome) : Prop :=
  match o.item with
  | .statement .. => ∀ message, o.result = .ok message → message ≠ ""
  | .block .. => ∃ error, o.result = .error error ∧ ∀ message, error ≠ .malformed message
  | .broken _ error => o.result = .error error

/-- No outcome is a success without a message, as nothing but statements succeeds. -/
theorem Fits.message_ne_empty {o : Outcome} (h : o.Fits) {message : String}
    (hok : o.result = .ok message) : message ≠ "" := by
  rw [Fits] at h
  split at h
  · exact h message hok
  · obtain ⟨error, herror, -⟩ := h
    rw [herror] at hok
    cases hok
  · rw [h] at hok
    cases hok

/-- The outcome is one of the items, at any depth, and fits it. -/
def IsOf (items : List Item) (o : Outcome) : Prop :=
  o.Fits ∧ ∃ n, Item.Inside items n o.item

theorem IsOf.mono {items more : List Item} {o : Outcome} (h : o.IsOf items)
    (hsubset : items ⊆ more) : o.IsOf more := by
  obtain ⟨hfits, n, hinside⟩ := h
  exact ⟨hfits, n, hinside.mono hsubset⟩

/-- What is recorded in the body of a block is inside of all that the block is in. -/
theorem IsOf.within {items body : List Item} {line : Nat} {header : Header} {o : Outcome}
    (h : o.IsOf body) (hblock : .block line header body ∈ items) : o.IsOf items := by
  obtain ⟨hfits, n, hinside⟩ := h
  exact ⟨hfits, n + 1, .within hblock hinside⟩

end Outcome

/-- With the given limits, all that is recorded is of the items, and the limits stay. -/
def Limited (config : Config) (items : List Item) (run : Run) (log : List Outcome) (run' : Run) :
    Prop :=
  run.session.config = config → (∀ o ∈ log, o.IsOf items) ∧ run'.session.config = config

theorem limited_composes (config : Config) (items : List Item) :
    Composes (Limited config items) where
  nil _ hconfig := ⟨List.forall_mem_nil _, hconfig⟩
  append h hmore hconfig := by
    obtain ⟨hfirst, hconfig'⟩ := h hconfig
    obtain ⟨hsecond, hconfig''⟩ := hmore hconfig'
    exact ⟨List.forall_mem_append.2 ⟨hfirst, hsecond⟩, hconfig''⟩
  count _ _ h := h

section

variable {config : Config} {replay : Nat → Action String}

mutual

/-- The limits have to stay, as they say up to which depth a block is not turned away. -/
theorem outcomesOf_isOf (hkeeps : ∀ depth, (replay depth).Keeps fun s => s.config = config)
    (hspeaks : ∀ depth, (replay depth).Speaks) (depth : Nat) :
    ∀ (items : List Item) (run : Run), Item.Below config.maxBlockDepth depth items →
      Limited config items run (outcomesOf replay depth items run) (runItems replay depth items run)
  | [], run, _ => by
    rw [outcomesOf, runItems]
    exact (limited_composes config _).nil run
  | item :: rest, run, hbelow => by
    have hsingle : [item] ⊆ item :: rest := List.cons_subset_cons item (List.nil_subset rest)
    have hrest := List.subset_cons_self item rest
    rw [outcomesOf, runItems]
    intro hconfig
    obtain ⟨hlog, hconfig'⟩ := outcomesIn_isOf hkeeps hspeaks depth item run
      (hbelow.mono hsingle) hconfig
    obtain ⟨hlog', hconfig''⟩ := outcomesOf_isOf hkeeps hspeaks depth rest _
      (hbelow.mono hrest) hconfig'
    refine ⟨List.forall_mem_append.2 ⟨fun o ho => ?_, fun o ho => ?_⟩, hconfig''⟩
    · exact (hlog o ho).mono hsingle
    · exact (hlog' o ho).mono hrest

theorem outcomesIn_isOf (hkeeps : ∀ depth, (replay depth).Keeps fun s => s.config = config)
    (hspeaks : ∀ depth, (replay depth).Speaks) (depth : Nat) :
    ∀ (item : Item) (run : Run), Item.Below config.maxBlockDepth depth [item] →
      Limited config [item] run (outcomesIn replay depth item run) (runItem replay depth item run)
  | .statement line text, run, _ => by
    intro hconfig
    refine ⟨?_, Session.runItem_keeps (Session.config_invariant config) hkeeps depth _ run hconfig⟩
    rw [outcomesIn, List.forall_mem_singleton]
    refine ⟨fun message hok => ?_, 0, .top (List.mem_singleton_self _)⟩
    exact Statement.carryOut_speaks _ (hspeaks depth) _ message hok
  | .block line header body, run, hbelow => by
    intro hconfig
    obtain ⟨hdepth, hbody⟩ := hbelow.body (List.mem_singleton_self _)
    refine ⟨?_, Session.runItem_keeps (Session.config_invariant config) hkeeps depth _ run hconfig⟩
    rw [outcomesIn, List.forall_mem_append]
    constructor
    · -- What the rounds of the body record.
      have hrounds := (limited_composes config body).runBlock
        (fun run => outcomesOf_isOf hkeeps hspeaks (depth + 1) body run hbody) header depth run
        hconfig
      exact fun o ho => (hrounds.1 o ho).within (List.mem_singleton_self _)
    · cases hanswer : (runBlock header depth (runItems replay (depth + 1) body) run).1 with
      | ok _ => exact List.forall_mem_nil _
      | error error =>
        -- A failure of the header, as the depth is below the ceiling.
        have herror := runBlock_error_ne (hconfig ▸ hdepth) hanswer
        rw [Item.refusal, List.forall_mem_singleton]
        exact ⟨⟨error, rfl, herror⟩, 0, .top (List.mem_singleton_self _)⟩
  | .broken line error, run, _ => by
    intro hconfig
    rw [outcomesIn, runItem, List.forall_mem_singleton]
    exact ⟨⟨rfl, 0, .top (List.mem_singleton_self _)⟩, hconfig⟩

end

end

/-- All that a run records is about an item of its script, and fits it. -/
theorem Session.outcomes_isOf (s : Session) (source : String) :
    ∀ o ∈ s.outcomes source, o.IsOf (Script.parse source s.config.maxBlockDepth).items :=
  (outcomesOf_isOf ((config_invariant s.config).playExample 1) (playExample_speaks 1) 0 _
    { session := s, summary := {} } (Script.below_parse source s.config.maxBlockDepth) rfl).1

end GraphScript
