import GraphScript.Proofs.Script.Lines
import GraphScript.Proofs.Session.Failures

/-!
# The tally of a run

The summary of a run is the tally of its log: every outcome is counted once, as a success or as a
failure. What there is to say of a summary is said of tallies of outcomes that fit their items, up
to one thing that depends on the text: all lines are lines of it (`Script.code_of_inside`).
-/

namespace GraphScript

/-! ### Tallies -/

theorem Diagnostic.render_ne_empty (d : Diagnostic) : d.render ≠ "" := by
  simp [render, toString]

namespace Summary

theorem tally_concat (log : List Outcome) (o : Outcome) :
    tally (log ++ [o]) = (tally log).record o :=
  List.foldl_concat ..

/-- An outcome is counted once. -/
theorem count_record (s : Summary) (o : Outcome) :
    (s.record o).success + (s.record o).errors = s.success + s.errors + 1 := by
  rw [record]
  split
  · exact Nat.add_right_comm _ 1 _
  · exact (Nat.add_assoc _ _ 1).symm

theorem count_tally (log : List Outcome) :
    (tally log).success + (tally log).errors = log.length := by
  induction log using List.reverseRecOn with
  | nil => rfl
  | append_singleton log o ih => rw [tally_concat, count_record, ih, List.length_append]; rfl

theorem errors_tally (log : List Outcome) :
    (tally log).errors = (tally log).diagnostics.length := by
  induction log using List.reverseRecOn with
  | nil => rfl
  | append_singleton log o ih =>
    rw [tally_concat, record]
    split
    · exact ih
    · simp only [fail, List.length_append, List.length_singleton, ih]

/-- Whatever is recorded leaves a message. -/
theorem lastMessage_record_ne_empty {o : Outcome} (h : o.Fits) (s : Summary) :
    (s.record o).lastMessage ≠ "" := by
  rw [record]
  split
  · exact h.message_ne_empty ‹_›
  · exact Diagnostic.render_ne_empty _

/-- If all outcomes fit their items, the last message is empty only as long as nothing is
    counted. -/
theorem lastMessage_tally_eq_empty_iff {log : List Outcome}
    (h : ∀ o ∈ log, o.Fits) :
    (tally log).lastMessage = "" ↔ log.length = 0 := by
  induction log using List.reverseRecOn with
  | nil => exact iff_of_true rfl rfl
  | append_singleton log o _ =>
    have ho := h o (List.mem_append_right _ (List.mem_singleton_self o))
    rw [tally_concat, List.length_append]
    exact iff_of_false (lastMessage_record_ne_empty ho _) (Nat.succ_ne_zero _)

/-- A failure that comes last is told by the last diagnostic and the last message. -/
theorem tally_of_getLast? {log : List Outcome} {o : Outcome} {error : Error}
    (hlast : log.getLast? = some o) (ho : o.result = .error error) :
    (tally log).diagnostics.getLast? = some (.ofError o.item.line error) ∧
      (tally log).lastMessage = (Diagnostic.ofError o.item.line error).render := by
  obtain ⟨earlier, rfl⟩ := List.getLast?_eq_some_iff.1 hlast
  rw [tally_concat, record, ho]
  exact ⟨List.getLast?_concat, rfl⟩

end Summary

/-! ### Accounts -/

/-- Whether the item is a block. -/
def Item.isBlock : Item → Bool
  | .block .. => true
  | .statement .. | .broken .. => false

/-- Items other than blocks are recorded once each. -/
theorem length_outcomesOf {items : List Item} (h : ∀ item ∈ items, item.isBlock = false)
    (replay : Nat → Action String) (depth : Nat) (run : Run) :
    (outcomesOf replay depth items run).length = items.length := by
  induction items generalizing run with
  | nil => rw [outcomesOf]; rfl
  | cons item rest ih =>
    obtain ⟨hitem, hrest⟩ := List.forall_mem_cons.1 h
    have hone : (outcomesIn replay depth item run).length = 1 := by
      cases item with
      | statement line text => rw [outcomesIn]; rfl
      | block line header body => cases hitem
      | broken line error => rw [outcomesIn]; rfl
    rw [outcomesOf, List.length_append, hone, ih hrest, List.length_cons, Nat.add_comm]

/-- The summary of a run accounts for all that the run records. It is the tally of the log, with
    as many errors as diagnostics. All diagnostics are on lines of the text that are neither blank
    nor comments. The last message is empty only if nothing was recorded, and it is that of the
    last diagnostic if the last outcome was a failure. Without blocks, every item is counted once. -/
theorem Session.run_accounts (s : Session) (source : String) :
    let script := Script.parse source s.config.maxBlockDepth
    let summary := (s.run source).summary
    let ls := Text.lines source.toList
    summary = Summary.tally (s.outcomes source) ∧
      summary.errors = summary.diagnostics.length ∧
      (∀ d ∈ summary.diagnostics, 1 ≤ d.line ∧ d.line ≤ ls.length ∧
        ∃ text, ls[d.line - 1]? = some text ∧ Text.trim text ≠ [] ∧ ¬Token.IsComment text) ∧
      (summary.lastMessage = "" ↔ summary.success + summary.errors = 0) ∧
      (∀ o ∈ (s.outcomes source).getLast?, ∀ error, o.result = .error error →
        ∃ d, summary.diagnostics.getLast? = some d ∧ d = .ofError o.item.line error ∧
          summary.lastMessage = d.render) ∧
      ((∀ item ∈ script.items, item.isBlock = false) →
        summary.success + summary.errors = script.items.length) := by
  intro script summary ls
  have htally : summary = Summary.tally (s.outcomes source) := s.run_records source
  have hlog := s.outcomes_isOf source
  refine ⟨htally, ?_, fun d hd => ?_, ?_, fun o ho error herror => ?_, fun hblocks => ?_⟩
  · rw [htally, Summary.errors_tally]
  · -- The diagnostics are those of items of the script.
    obtain ⟨f, hf, rfl⟩ := List.mem_map.1 (s.run_diagnostics source ▸ hd)
    obtain ⟨-, n, hinside⟩ := hlog _ (s.outcome_mem_outcomes hf)
    obtain ⟨hfirst, hlast, text, htext, hcode⟩ := Script.code_of_inside hinside
    exact ⟨hfirst, hlast, text, htext, hcode.notBlank, hcode.notComment⟩
  · rw [htally, Summary.count_tally]
    exact Summary.lastMessage_tally_eq_empty_iff fun o ho => (hlog o ho).1
  · obtain ⟨hdiagnostic, hmessage⟩ := Summary.tally_of_getLast? ho herror
    rw [htally]
    exact ⟨_, hdiagnostic, rfl, hmessage⟩
  · rw [htally, Summary.count_tally]
    exact length_outcomesOf hblocks _ _ _

/-- A blank line and a comment are counted as lines, and nothing is recorded of them. -/
theorem Session.run_accounts_skipped_lines :
    let s := Session.new {}
    let source := "Create Node a.\n\n// Get DEGREE c.\nGet DEGREE b. \x7d"
    let summary := (s.run source).summary
    (∀ item ∈ (Script.parse source s.config.maxBlockDepth).items, item.isBlock = false) ∧
      summary.success + summary.errors = 3 ∧
      summary.errors = summary.diagnostics.length ∧
      summary.diagnostics.map (·.line) = [4, 4] ∧
      summary.lastMessage = "Error on line 4: Unexpected closing brace." ∧
      summary.diagnostics.getLast?.map Diagnostic.render = some summary.lastMessage := by
  intro s source summary
  have hvalues : (∀ item ∈ (Script.parse source s.config.maxBlockDepth).items,
        item.isBlock = false) ∧
      (Script.parse source s.config.maxBlockDepth).items.length = 3 ∧
      (s.outcomes source).getLast?.map (·.result) =
        some (.error (.malformed "Unexpected closing brace.")) ∧
      summary.diagnostics.map (·.line) = [4, 4] ∧
      summary.lastMessage = "Error on line 4: Unexpected closing brace." := by
    decide +kernel
  obtain ⟨hblocks, hlength, hresult, hlines, hmessage⟩ := hvalues
  obtain ⟨o, ho, herror⟩ := Option.map_eq_some_iff.1 hresult
  obtain ⟨-, herrors, -, -, hfailure, hcount⟩ := s.run_accounts source
  obtain ⟨d, hd, -, hrender⟩ := hfailure o ho _ herror
  have hlast : summary.diagnostics.getLast? = some d := hd
  refine ⟨hblocks, (hcount hblocks).trans hlength, herrors, hlines, hmessage, ?_⟩
  rw [hlast, Option.map_some]
  exact congrArg some hrender.symm

end GraphScript
