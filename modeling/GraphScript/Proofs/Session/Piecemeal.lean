import GraphScript.Proofs.Script.Assembly
import GraphScript.Proofs.Session.Invariant

/-!
# Runs in parts

A text can be run in two parts if the first consists of whole lines and leaves no block open:
the session ends up the same, and the two summaries together are that of the whole
(`Session.run_append`).

The items of the second part are those of a text of its own on lines further down
(`Script.items_unlines_append`). Running them behind the first part and running them on their
own goes in lockstep: the sessions are equal at all times, and the summary of the one holds
that of the first part and, with larger line numbers, that of the other (`Run.Continues`).
-/

namespace GraphScript

/-- The diagnostic on a line further down. -/
def Diagnostic.shift (n : Nat) (d : Diagnostic) : Diagnostic :=
  { d with line := d.line + n }

theorem Diagnostic.shift_ofError (n line : Nat) (error : Error) :
    (Diagnostic.ofError line error).shift n = Diagnostic.ofError (line + n) error := rfl

/-- The total is an earlier summary and then another one whose lines lie further down. -/
structure Summary.Continues (earlier : Summary) (n : Nat) (own total : Summary) : Prop where
  success : total.success = earlier.success + own.success
  errors : total.errors = earlier.errors + own.errors
  diagnostics : total.diagnostics = earlier.diagnostics ++ own.diagnostics.map (Diagnostic.shift n)

/-- Two runs at the same point, of which one comes behind an earlier run and has its lines
    further down. -/
structure Run.Continues (earlier : Summary) (n : Nat) (own total : Run) : Prop where
  session : total.session = own.session
  summary : earlier.Continues n own.summary total.summary

/-- The two bodies take runs at the same point to runs at the same point. -/
def Lockstep (earlier : Summary) (n : Nat) (body body' : Run → Run) : Prop :=
  ∀ own total : Run, own.Continues earlier n total → (body own).Continues earlier n (body' total)

namespace Run.Continues

variable {earlier : Summary} {n : Nat} {own total : Run}

theorem start (earlier : Run) (n : Nat) :
    Run.Continues earlier.summary n { session := earlier.session, summary := {} } earlier where
  session := rfl
  summary := ⟨rfl, rfl, (List.append_nil _).symm⟩

theorem fail (h : own.Continues earlier n total) (line : Nat) (error : Error) :
    (own.fail line error).Continues earlier n (total.fail (line + n) error) where
  session := h.session
  summary := by
    refine ⟨h.summary.success, congrArg (· + 1) h.summary.errors, ?_⟩
    simp only [Run.fail, Summary.fail, h.summary.diagnostics, List.map_append, List.map_cons,
      List.map_nil, Diagnostic.shift_ofError, List.append_assoc]

/-- The sessions are the same, so the action ends in the same way. -/
theorem perform (h : own.Continues earlier n total) (line : Nat) (action : Action String) :
    (own.perform line action).Continues earlier n (total.perform (line + n) action) := by
  rw [Run.perform, Run.perform, h.session]
  split
  · exact ⟨rfl, congrArg (· + 1) h.summary.success, h.summary.errors, h.summary.diagnostics⟩
  · rename_i error session _
    have hfail := h.fail line error
    exact ⟨rfl, hfail.summary⟩

theorem setVariable (h : own.Continues earlier n total) (name : String) (value : Float) :
    (own.setVariable name value).Continues earlier n (total.setVariable name value) where
  session := by rw [Run.setVariable, Run.setVariable, h.session]
  summary := h.summary

theorem holds_eq (h : own.Continues earlier n total) (condition : Condition) :
    total.holds condition = own.holds condition := by
  rw [Run.holds, Run.holds, h.session]

/-! ### Loops -/

theorem countLoop {body body' : Run → Run} (hbody : Lockstep earlier n body body')
    (counter : String) (first : Float) (more step : Nat) (h : own.Continues earlier n total) :
    (GraphScript.countLoop counter first body more step own).Continues earlier n
      (GraphScript.countLoop counter first body' more step total) := by
  induction more generalizing step own total with
  | zero => exact h
  | succ more ih => exact ih (step + 1) (hbody _ _ (h.setVariable counter _))

theorem whileLoop {body body' : Run → Run} (hbody : Lockstep earlier n body body')
    (condition : Condition) (more : Nat) (h : own.Continues earlier n total) :
    (GraphScript.whileLoop (·.holds condition) body' more total).1 =
        (GraphScript.whileLoop (·.holds condition) body more own).1 ∧
      (GraphScript.whileLoop (·.holds condition) body more own).2.Continues earlier n
        (GraphScript.whileLoop (·.holds condition) body' more total).2 := by
  induction more generalizing own total with
  | zero => exact ⟨h.holds_eq condition, h⟩
  | succ more ih =>
    simp only [GraphScript.whileLoop, h.holds_eq condition]
    split
    · exact ih (hbody _ _ h)
    · exact ⟨rfl, h⟩

/-! ### Items -/

theorem runBlock {body body' : Run → Run} (hbody : Lockstep earlier n body body') (header : Header)
    (depth : Nat) (h : own.Continues earlier n total) :
    (GraphScript.runBlock header depth body' total).1 =
        (GraphScript.runBlock header depth body own).1 ∧
      (GraphScript.runBlock header depth body own).2.Continues earlier n
        (GraphScript.runBlock header depth body' total).2 := by
  simp only [GraphScript.runBlock, h.session, h.holds_eq]
  split
  · exact ⟨rfl, h⟩
  · -- `If`, `While` and `For`, in this order.
    split
    · split
      · exact ⟨rfl, h⟩
      · exact ⟨rfl, hbody _ _ h⟩
      · exact ⟨rfl, h⟩
    · rename_i condition
      -- Either both loops run out of iterations or neither does.
      obtain ⟨hanswer, hruns⟩ := whileLoop hbody condition own.session.config.whileIterationLimit h
      generalize GraphScript.whileLoop (·.holds condition) body
        own.session.config.whileIterationLimit own = outcome at *
      generalize GraphScript.whileLoop (·.holds condition) body'
        own.session.config.whileIterationLimit total = outcome' at *
      obtain ⟨answer, run⟩ := outcome
      obtain ⟨answer', run'⟩ := outcome'
      obtain rfl : answer' = answer := hanswer
      cases answer' with
      | error error => exact ⟨rfl, hruns⟩
      | ok more => exact ⟨rfl, hruns⟩
    · split
      · exact ⟨rfl, h⟩
      · split
        · exact ⟨rfl, h⟩
        · exact ⟨rfl, countLoop hbody _ _ _ _ h⟩

end Run.Continues

section

variable {earlier : Summary} {n : Nat}

mutual

/-- By induction on the items: each is on a line further down, and does the same. -/
theorem runItems_lockstep (replay : Nat → Action String) (depth : Nat) :
    ∀ items : List Item, Lockstep earlier n (runItems replay depth items)
      (runItems replay depth (Item.shiftAll n items))
  | [] => by
    intro own total h
    rw [Item.shiftAll, runItems, runItems]
    exact h
  | item :: rest => by
    intro own total h
    rw [Item.shiftAll, runItems, runItems]
    exact runItems_lockstep replay depth rest _ _ (runItem_lockstep replay depth item _ _ h)

theorem runItem_lockstep (replay : Nat → Action String) (depth : Nat) :
    ∀ item : Item, Lockstep earlier n (runItem replay depth item)
      (runItem replay depth (item.shift n))
  | .statement line text => by
    intro own total h
    rw [Item.shift, runItem, runItem]
    exact h.perform line _
  | .block line header body => by
    intro own total h
    obtain ⟨hanswer, hruns⟩ :=
      h.runBlock (runItems_lockstep replay (depth + 1) body) header depth
    rw [Item.shift, runItem, runItem]
    generalize runBlock header depth (runItems replay (depth + 1) body) own = outcome at *
    generalize runBlock header depth (runItems replay (depth + 1) (Item.shiftAll n body)) total =
      outcome' at *
    obtain ⟨answer, run⟩ := outcome
    obtain ⟨answer', run'⟩ := outcome'
    obtain rfl : answer' = answer := hanswer
    cases answer' with
    | error error =>
      -- The failure is reported on the line of the header, after those of the body.
      exact hruns.fail line error
    | ok _ => exact hruns
  | .broken line error => by
    intro own total h
    rw [Item.shift, runItem, runItem]
    exact h.fail line error

end

end

theorem runItems_append (replay : Nat → Action String) (depth : Nat) (items more : List Item)
    (run : Run) : runItems replay depth (items ++ more) run =
      runItems replay depth more (runItems replay depth items run) := by
  induction items generalizing run with
  | nil => rw [List.nil_append, runItems]
  | cons item items ih => rw [List.cons_append, runItems, runItems, ih]

namespace Session

/-- Running a text does not touch the limits of the session. -/
theorem config_run (s : Session) (source : String) : (s.run source).session.config = s.config :=
  (config_invariant s.config).run source rfl

/-- A text of whole lines that leaves no block open can be run on its own, and what follows
    it after that. -/
theorem run_unlines_append (s : Session) {ls : List (List Char)} (hls : ∀ l ∈ ls, '\n' ∉ l)
    (hclosed : (Assembly.ofTokens s.config.maxBlockDepth (Token.ofLines 1 ls)).Closed)
    (rest : List Char) :
    let first := s.run (String.ofList (Text.unlines ls))
    (first.session.run (String.ofList rest)).Continues first.summary ls.length
      (s.run (String.ofList (Text.unlines ls ++ rest))) := by
  intro first
  have hconfig : first.session.config = s.config := config_run s _
  have hitems := Script.items_unlines_append hls hclosed rest
  rw [Session.run, hconfig, runScript, Session.run, runScript, hitems, runItems_append]
  exact runItems_lockstep _ _ _ _ _ (Run.Continues.start first ls.length)

/-- Running a text in two parts changes nothing, if the first part ends with a line feed and
    leaves no block open: the session ends up the same, the successes and failures add up, and
    the diagnostics of the second part follow those of the first, with their lines counted
    from the beginning of the whole. -/
theorem run_append (s : Session) (first second : String)
    (hend : first.toList.getLast? = some '\n')
    (hclosed : (Assembly.ofTokens s.config.maxBlockDepth (Token.scan first)).Closed) :
    let whole := s.run (first ++ second)
    let run₁ := s.run first
    let run₂ := run₁.session.run second
    whole.session = run₂.session ∧
      whole.summary.success = run₁.summary.success + run₂.summary.success ∧
      whole.summary.errors = run₁.summary.errors + run₂.summary.errors ∧
      whole.summary.diagnostics = run₁.summary.diagnostics ++
        run₂.summary.diagnostics.map fun d =>
          { d with line := d.line + (Text.lines first.toList).length } := by
  intro whole run₁ run₂
  have hlines := Text.unlines_lines hend
  have hcontinues := s.run_unlines_append (fun l hl => Text.not_mem_of_mem_lines hl) hclosed
    second.toList
  rw [hlines, String.ofList_toList, String.ofList_toList, ← String.toList_append,
    String.ofList_toList] at hcontinues
  exact ⟨hcontinues.session, hcontinues.summary.success, hcontinues.summary.errors,
    hcontinues.summary.diagnostics⟩

/-- The first part has a stray brace and, at the ceiling, a block that is skipped; the second
    part never closes its block. -/
theorem run_append_skipped :
    let s := Session.new { maxBlockDepth := 1 }
    let first := "\x7d\nIf IS_TREE \x7b While IS_TREE \x7b Reset. \x7d \x7d\nCreate Node a.\n"
    let second := "Reset\nIf IS_TREE \x7b"
    first.toList.getLast? = some '\n' ∧
      (Assembly.ofTokens s.config.maxBlockDepth (Token.scan first)).Closed ∧
      (s.run (first ++ second)).session = ((s.run first).session.run second).session ∧
      (s.run (first ++ second)).summary.diagnostics.map (·.line) = [1, 2, 4, 5] := by
  intro s first second
  have hend : first.toList.getLast? = some '\n' := by decide
  have hclosed : (Assembly.ofTokens s.config.maxBlockDepth (Token.scan first)).Closed := by
    rw [Assembly.closed_iff_depth, Assembly.depth_ofTokens]
    decide +kernel
  obtain ⟨hsession, _, _, hdiagnostics⟩ := run_append s first second hend hclosed
  refine ⟨hend, hclosed, hsession, ?_⟩
  rw [hdiagnostics]
  decide +kernel

end Session

end GraphScript
