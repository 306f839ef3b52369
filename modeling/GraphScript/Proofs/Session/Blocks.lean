import GraphScript.Proofs.Session.Invariant
import Mathlib.Logic.Function.Iterate

/-!
# Blocks that fail

A block fails when its header cannot be evaluated, and then it has no effect at all
(`runBlock_error_keeps`). For an `If` and a `For` this is so because the header is evaluated
before anything else is done. The condition of a `While` is evaluated again after every round
of the body, but by then it cannot fail any more: a condition fails for an unbound variable
only (`Condition.evaluate_error`), and whatever is run, a variable stays bound once it is
(`Session.bound_invariant`).
-/

namespace GraphScript

/-! ### Variables -/

theorem lookup_cons_eq_ite (first : String) (value : Float) (rest : List (String × Float))
    (name : String) :
    ((first, value) :: rest).lookup name = if name = first then some value else rest.lookup name := by
  rw [List.lookup_cons]
  by_cases h : name = first
  · rw [if_pos h, beq_iff_eq.2 h]
  · rw [if_neg h, beq_false_of_ne h]

theorem lookup_insertBinding (name : String) (value : Float) (other : String)
    (bindings : List (String × Float)) :
    (insertBinding name value bindings).lookup other =
      if other = name then some value else bindings.lookup other := by
  induction bindings with
  | nil => rw [insertBinding, lookup_cons_eq_ite]
  | cons binding rest ih =>
    obtain ⟨first, old⟩ := binding
    rw [insertBinding]
    split
    · subst name
      simp only [lookup_cons_eq_ite]
      split <;> rfl
    · split
      · rw [lookup_cons_eq_ite]
      · -- The new binding comes behind the first one, which is of another name.
        simp only [lookup_cons_eq_ite, ih]
        grind

namespace Environment

variable {env env' : Environment}

theorem get?_set (env : Environment) (name : String) (value : Float) (other : String) :
    (env.set name value).get? other = if other = name then some value else env.get? other :=
  lookup_insertBinding name value other env.bindings

/-- The variable has a value. -/
def Binds (env : Environment) (name : String) : Prop :=
  (env.get? name).isSome = true

instance (env : Environment) (name : String) : Decidable (env.Binds name) :=
  inferInstanceAs (Decidable ((env.get? name).isSome = true))

theorem Binds.set {name : String} (h : env.Binds name) (other : String) (value : Float) :
    (env.set other value).Binds name := by
  rw [Binds, get?_set]
  split
  · rfl
  · exact h

theorem resolve_error {word : String} {e : Error} (h : env.resolve word = .error e) :
    ∃ name, e = .notFound .var name := by
  rw [resolve] at h
  split at h
  · split at h
    · cases h
    · cases h
      exact ⟨_, rfl⟩
  · cases h

/-- A word that has a value keeps having one where no variable is lost. -/
theorem resolve_ok_of_binds (hbinds : ∀ name, env.Binds name → env'.Binds name)
    {word id : String} (h : env.resolve word = .ok id) : ∃ id', env'.resolve word = .ok id' := by
  rw [resolve] at h ⊢
  split at h
  · rename_i name heq
    split at h
    · rename_i value hvalue
      obtain ⟨value', hvalue'⟩ := Option.isSome_iff_exists.1
        (hbinds (String.ofList name) (Option.isSome_iff_exists.2 ⟨value, hvalue⟩))
      exact ⟨formatNumber value', by rw [hvalue']⟩
    · cases h
  · exact ⟨word, rfl⟩

/-- An expression without a value is no malformed text of a script. -/
theorem evaluate_error_ne {syntaxReason : String → String} {source : String} {e : Error}
    (h : env.evaluate syntaxReason source = .error e) (message : String) :
    e ≠ .malformed message := by
  rw [evaluate] at h
  split at h
  · cases h
    exact Error.noConfusion
  · split at h
    · cases h
      exact Error.noConfusion
    · split at h
      · cases h
        exact Error.noConfusion
      · cases h
        exact Error.noConfusion
      · split at h
        · cases h
        · cases h
          exact Error.noConfusion

end Environment

namespace Condition

variable {g g' : Graph} {env env' : Environment}

/-- A condition fails for an unbound variable only. -/
theorem evaluate_error {condition : Condition} {e : Error}
    (h : condition.evaluate g env = .error e) : ∃ name, e = .notFound .var name := by
  induction condition generalizing e with
  | check asked => cases h
  | unknown text => cases h
  | connected a b =>
    rw [evaluate] at h
    split at h
    · cases h
      exact Environment.resolve_error ‹_›
    · split at h
      · cases h
        exact Environment.resolve_error ‹_›
      · cases h
  | not condition ih =>
    rw [evaluate] at h
    split at h
    · cases h
      exact ih ‹_›
    · cases h

/-- Whether a condition can be evaluated does not depend on the graph, and binding more
    variables does not change it. -/
theorem evaluate_ok_of_binds (hbinds : ∀ name, env.Binds name → env'.Binds name)
    {condition : Condition} {answer : Bool} (h : condition.evaluate g env = .ok answer) :
    ∃ answer', condition.evaluate g' env' = .ok answer' := by
  induction condition generalizing answer with
  | check asked => exact ⟨_, rfl⟩
  | unknown text => exact ⟨_, rfl⟩
  | connected a b =>
    rw [evaluate] at h ⊢
    split at h
    · cases h
    · split at h
      · cases h
      · obtain ⟨a', ha'⟩ := Environment.resolve_ok_of_binds hbinds ‹env.resolve a = .ok _›
        obtain ⟨b', hb'⟩ := Environment.resolve_ok_of_binds hbinds ‹env.resolve b = .ok _›
        exact ⟨g'.adjacent a' b', by rw [ha', hb']⟩
  | not condition ih =>
    rw [evaluate] at h ⊢
    split at h
    · cases h
    · obtain ⟨answer', hanswer'⟩ := ih ‹_›
      exact ⟨!answer', by rw [hanswer']⟩

end Condition

namespace Session

/-- A variable that is bound stays bound. -/
theorem bound_invariant (name : String) : Invariant fun s => s.env.Binds name where
  change := by
    intro st s s' hchange hs
    cases hchange with
    | same => exact hs
    | graph => exact hs
    | create => exact hs
    | use => exact hs
    | bind => exact hs.set _ _
  count other value hs := hs.set other value

theorem runItems_binds (depth : Nat) (items : List Item) (run : Run) (name : String)
    (h : run.session.env.Binds name) :
    (runItems (playExample 1) depth items run).session.env.Binds name :=
  runItems_keeps (bound_invariant name) ((bound_invariant name).playExample 1) depth items run h

end Session

/-! ### Loops -/

/-- A loop ends after some rounds of its body, with what the condition says there. -/
theorem whileLoop_eq (holds : Run → Except Error Bool) (body : Run → Run) (more : Nat)
    (run : Run) :
    ∃ n, whileLoop holds body more run = (holds (body^[n] run), body^[n] run) := by
  induction more generalizing run with
  | zero => exact ⟨0, rfl⟩
  | succ more ih =>
    rw [whileLoop]
    split
    · obtain ⟨n, hn⟩ := ih (body run)
      exact ⟨n + 1, hn⟩
    · exact ⟨0, rfl⟩

theorem whileLoop_of_error {holds : Run → Except Error Bool} {run : Run} {e : Error}
    (h : holds run = .error e) (body : Run → Run) (more : Nat) :
    whileLoop holds body more run = (.error e, run) := by
  cases more with
  | zero => rw [whileLoop, h]
  | succ more => rw [whileLoop, h]

/-- Within the ceiling, what a block fails with is no malformed text: it is an unbound
    variable or an expression without a value. -/
theorem runBlock_error_ne {header : Header} {depth : Nat} {body : Run → Run} {run : Run}
    {e : Error} (hdepth : depth < run.session.config.maxBlockDepth)
    (h : (runBlock header depth body run).1 = .error e) (message : String) :
    e ≠ .malformed message := by
  have hcondition : ∀ {condition : Condition} {run' : Run}, run'.holds condition = .error e →
      e ≠ .malformed message := by
    intro condition run' hfails
    obtain ⟨name, rfl⟩ := Condition.evaluate_error hfails
    exact Error.noConfusion
  unfold runBlock at h
  rw [if_neg (Nat.not_le.2 hdepth)] at h
  cases header with
  | ifBlock condition =>
    dsimp only at h
    split at h
    · cases h
      exact hcondition ‹_›
    · cases h
    · cases h
  | whileBlock condition =>
    obtain ⟨n, hn⟩ := whileLoop_eq (·.holds condition) body
      run.session.config.whileIterationLimit run
    simp only [hn] at h
    split at h
    · rename_i heq
      cases h
      exact hcondition (congrArg Prod.fst heq)
    · cases h
  | forBlock counter first last =>
    dsimp only at h
    split at h
    · cases h
      exact Environment.evaluate_error_ne ‹_› message
    · split at h
      · cases h
        exact Environment.evaluate_error_ne ‹_› message
      · cases h

section

variable {body : Run → Run}

/-- A condition that can be evaluated before a loop can be evaluated after any number of
    rounds of a body that unbinds nothing. -/
theorem holds_iterate_ok
    (hbody : ∀ run name, run.session.env.Binds name → (body run).session.env.Binds name)
    {condition : Condition} {run : Run} {answer : Bool} (h : run.holds condition = .ok answer)
    (n : Nat) : ∃ answer', (body^[n] run).holds condition = .ok answer' := by
  have hbinds : ∀ name, run.session.env.Binds name → (body^[n] run).session.env.Binds name := by
    intro name hname
    induction n with
    | zero => exact hname
    | succ n ih =>
      rw [Function.iterate_succ_apply']
      exact hbody _ name ih
  exact Condition.evaluate_ok_of_binds hbinds h

/-- A loop that fails has not run its body. -/
theorem whileLoop_error_keeps
    (hbody : ∀ run name, run.session.env.Binds name → (body run).session.env.Binds name)
    (condition : Condition) (more : Nat) (run : Run) {e : Error}
    (h : (whileLoop (·.holds condition) body more run).1 = .error e) :
    (whileLoop (·.holds condition) body more run).2 = run := by
  cases hentry : run.holds condition with
  | error e' => rw [whileLoop_of_error hentry]
  | ok answer =>
    obtain ⟨n, hn⟩ := whileLoop_eq (·.holds condition) body more run
    obtain ⟨answer', hanswer'⟩ := holds_iterate_ok hbody hentry n
    rw [hn, hanswer'] at h
    cases h

theorem runBlock_error_eq
    (hbody : ∀ run name, run.session.env.Binds name → (body run).session.env.Binds name)
    {header : Header} {depth : Nat} {run : Run} {e : Error}
    (h : (runBlock header depth body run).1 = .error e) :
    (runBlock header depth body run).2 = run := by
  unfold runBlock at h ⊢
  split
  · rfl
  · rename_i hdepth
    rw [if_neg hdepth] at h
    cases header with
    | ifBlock condition =>
      dsimp only at h ⊢
      cases hentry : run.holds condition with
      | error e' => rfl
      | ok answer => cases answer <;> simp [hentry] at h
    | whileBlock condition =>
      dsimp only at h ⊢
      have hkeeps := fun e => @whileLoop_error_keeps body hbody condition
        run.session.config.whileIterationLimit run e
      generalize whileLoop (·.holds condition) body run.session.config.whileIterationLimit run =
        outcome at *
      obtain ⟨_ | answer, run'⟩ := outcome
      · exact hkeeps _ rfl
      · cases h
    | forBlock counter first last =>
      dsimp only at h ⊢
      cases hfirst : run.session.evaluate first with
      | error e' => rfl
      | ok first' =>
        cases hlast : run.session.evaluate last with
        | error e' => rfl
        | ok last' => simp [hfirst, hlast] at h

end

/-- A block that fails leaves the session and the summary as they were when it was entered.
    The condition of a `While` can fail at its first evaluation only, and not after rounds of
    the body, because running items never unbinds a variable. -/
theorem runBlock_error_keeps (header : Header) (depth : Nat) (items : List Item) (run : Run) :
    let body := runItems (playExample 1) (depth + 1) items
    (∀ e, (runBlock header depth body run).1 = .error e →
        (runBlock header depth body run).2 = run) ∧
      (∀ condition n e, (body^[n] run).holds condition = .error e →
        ∃ e', run.holds condition = .error e') ∧
      ∀ depth' items' (run' : Run) name, run'.session.env.Binds name →
        (runItems (playExample 1) depth' items' run').session.env.Binds name := by
  intro body
  have hbody : ∀ run name, run.session.env.Binds name → (body run).session.env.Binds name :=
    fun run name => Session.runItems_binds (depth + 1) items run name
  refine ⟨fun e h => runBlock_error_eq hbody h, ?_, Session.runItems_binds⟩
  intro condition n e hfails
  cases hentry : run.holds condition with
  | error e' => exact ⟨e', rfl⟩
  | ok answer =>
    obtain ⟨answer', hanswer'⟩ := holds_iterate_ok hbody hentry n
    rw [hanswer'] at hfails
    cases hfails

/-- The body would bind the variable that the condition asks for, but is not entered. Where the
    variable is bound, it outlives the body. -/
theorem runBlock_error_keeps_unbound :
    let run : Run := { session := Session.new {}, summary := Summary.succeed {} "Created node a." }
    let header := Header.whileBlock (.not (.connected "a" "$x"))
    let items : List Item := [.statement 3 "Let x = 1", .statement 4 "Initialize"]
    let body := runItems (playExample 1) 2 items
    (runBlock header 1 body run).1 = .error (.notFound .var "x") ∧
      (runBlock header 1 body run).2 = run ∧
      (body (run.setVariable "x" 2.0)).session.env.Binds "x" := by
  intro run header items body
  have hfails : (runBlock header 1 body run).1 = .error (.notFound .var "x") := by decide +kernel
  have hbound : (run.setVariable "x" 2.0).session.env.Binds "x" := by decide +kernel
  obtain ⟨hkeeps, -, hbinds⟩ := runBlock_error_keeps header 1 items run
  exact ⟨hfails, hkeeps _ hfails, hbinds 2 items _ "x" hbound⟩

end GraphScript
