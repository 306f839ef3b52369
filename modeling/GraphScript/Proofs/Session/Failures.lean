import GraphScript.Proofs.Session.Log

/-!
# Failures of runs

The failures of a run are the outcomes of its log that are errors, in their order and each with the
item that failed (`Session.failures`). They are what the diagnostics of the summary tell
(`Session.run_diagnostics`), and say more than those: a diagnostic has a line, but not whether it is
about a statement, about a block that could not be entered, or about something that was broken from
the start.

So what is known of the log is known of the diagnostics. In particular no block of the text fails
for its depth, and what is put in the place of blocks that nest too deep is among the diagnostics of
the script (`Session.run_within_ceiling`).
-/

namespace GraphScript

/-- An item that failed, and why. -/
structure Failure where
  item : Item
  error : Error

namespace Failure

/-- What the summary tells of a failure. -/
def diagnostic (f : Failure) : Diagnostic :=
  .ofError f.item.line f.error

/-- The failure as it stands in a log. -/
def outcome (f : Failure) : Outcome :=
  { item := f.item, result := .error f.error }

end Failure

/-- The failure that an outcome is, if it is one. -/
def Outcome.failure? (o : Outcome) : Option Failure :=
  match o.result with
  | .ok _ => none
  | .error error => some { item := o.item, error := error }

theorem Outcome.eq_outcome_of_failure? {o : Outcome} {f : Failure} (h : o.failure? = some f) :
    o = f.outcome := by
  obtain ⟨item, error | message⟩ := o
  · cases h
    rfl
  · cases h

/-- The failures of running a text. -/
def Session.failures (s : Session) (source : String) : List Failure :=
  (s.outcomes source).filterMap Outcome.failure?

theorem Session.outcome_mem_outcomes {s : Session} {source : String} {f : Failure}
    (h : f ∈ s.failures source) : f.outcome ∈ s.outcomes source := by
  obtain ⟨o, ho, hf⟩ := List.mem_filterMap.1 h
  rwa [← Outcome.eq_outcome_of_failure? hf]

/-- What is recorded adds the diagnostics of its failures. -/
theorem Summary.diagnostics_foldl_record (log : List Outcome) (s : Summary) :
    (log.foldl record s).diagnostics =
      s.diagnostics ++ (log.filterMap Outcome.failure?).map Failure.diagnostic := by
  induction log generalizing s with
  | nil => exact (List.append_nil _).symm
  | cons o log ih =>
    obtain ⟨item, error | message⟩ := o
    · rw [List.foldl_cons, ih]
      exact List.append_assoc _ [_] _
    · exact ih _

/-- The diagnostics of a run are those of its failures. -/
theorem Session.run_diagnostics (s : Session) (source : String) :
    (s.run source).summary.diagnostics = (s.failures source).map Failure.diagnostic := by
  rw [run_records, Summary.tally, Summary.diagnostics_foldl_record]
  rfl

/-- The assembly of scripts and their runs agree on the ceiling. No block of a script has as
    many blocks around it as the ceiling says, so a run never records of a block of its text
    that it nests too deep; and what it records of a broken item is among the diagnostics of
    the script. -/
theorem Session.run_within_ceiling (source : String) :
    (∀ ceiling n line header body,
      Item.Inside (Script.parse source ceiling).items n (.block line header body) →
        n < ceiling) ∧
    ∀ s : Session,
      let script := Script.parse source s.config.maxBlockDepth
      (s.run source).summary.diagnostics = (s.failures source).map Failure.diagnostic ∧
      ∀ f ∈ s.failures source, (∃ n, Item.Inside script.items n f.item) ∧
        match f.item with
        | .statement .. => True
        | .block .. => ∀ ceiling, f.error ≠ .tooDeep ceiling
        | .broken .. => f.diagnostic ∈ script.diagnostics := by
  refine ⟨fun ceiling n line header body => Script.inside_lt_ceiling, fun s => ?_⟩
  refine ⟨s.run_diagnostics source, fun f hf => ?_⟩
  obtain ⟨hfits, n, hinside⟩ := s.outcomes_isOf source _ (s.outcome_mem_outcomes hf)
  refine ⟨⟨n, hinside⟩, ?_⟩
  obtain ⟨item, error⟩ := f
  cases item with
  | statement line text => trivial
  | block line header body =>
    obtain ⟨error', heq, hne⟩ := hfits
    obtain rfl : error = error' := Except.error.inj heq
    exact fun ceiling => hne _
  | broken line error' =>
    obtain rfl : error = error' := Except.error.inj hfits
    exact Item.mem_diagnosticsOf hinside

/-- A `While` fails for its condition, and a `For` runs twice into a block that its script has
    turned away. -/
theorem Session.run_within_ceiling_loop :
    let s := Session.new { maxBlockDepth := 1 }
    let source := "While CONNECTED a $x \x7b\n\x7d\n" ++
      "For i = 1 to 2 \x7b\nIf IS_TREE \x7b Reset. \x7d\n\x7d"
    let rejected := Diagnostic.ofError 4 (.tooDeep 1)
    (s.run source).summary.diagnostics =
        [.ofError 1 (.notFound .var "x"), rejected, rejected] ∧
      (∃ f ∈ s.failures source, f.item.line = 1 ∧ ∀ ceiling, f.error ≠ .tooDeep ceiling) ∧
      rejected ∈ (Script.parse source 1).diagnostics := by
  intro s source rejected
  obtain ⟨-, hruns⟩ := run_within_ceiling source
  obtain ⟨-, hfailures⟩ := hruns s
  have hblock : (s.failures source).any (fun f => f.item matches .block 1 ..) = true := by
    decide +kernel
  have hbroken : (s.failures source).any
      (fun f => f.item matches .broken .. && f.diagnostic = rejected) = true := by
    decide +kernel
  refine ⟨by decide +kernel, ?_, ?_⟩
  · obtain ⟨⟨item, error⟩, hf, hitem⟩ := List.any_eq_true.1 hblock
    have hfailure := (hfailures _ hf).2
    dsimp only at hitem
    split at hitem
    · exact ⟨_, hf, rfl, hfailure⟩
    · cases hitem
  · obtain ⟨⟨item, error⟩, hf, hitem⟩ := List.any_eq_true.1 hbroken
    have hfailure := (hfailures _ hf).2
    rw [Bool.and_eq_true, decide_eq_true_iff] at hitem
    obtain ⟨hitem, heq⟩ := hitem
    dsimp only at hitem
    split at hitem
    · exact heq ▸ hfailure
    · cases hitem

end GraphScript
