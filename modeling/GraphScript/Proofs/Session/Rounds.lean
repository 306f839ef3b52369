import GraphScript.Proofs.Session.Blocks
import GraphScript.Proofs.Session.Trace

/-!
# Rounds of a loop

What a `While` does is told by the points that its body leads to, round by round. A loop asks
its condition before it looks at the limit, so it takes one answer more than it may run rounds:

* it ends after the first round whose answer is no, and this may be the last round allowed
  (`whileLoop_of_first_false`);
* it is stopped when all rounds allowed are over and the answer is still yes
  (`whileLoop_of_all_true`).

Both come from one fact: as long as the answer is yes, a loop is its first rounds and then the
same loop with so many rounds less (`whileLoop_add`), and the same goes for what is told of it
(`traceWhile_add`).
-/

namespace GraphScript

section

variable {α : Type} {holds : Run → Except Error Bool} {body : Run → Run} {trace : Run → List α}
  {n : Nat} {run : Run}

/-- What a number of rounds of a body tell, one after the other. -/
def tellRounds (body : Run → Run) (trace : Run → List α) (run : Run) (n : Nat) : List α :=
  (List.range n).flatMap fun m => trace (body^[m] run)

theorem tellRounds_succ (body : Run → Run) (trace : Run → List α) (run : Run) (n : Nat) :
    tellRounds body trace run (n + 1) = trace run ++ tellRounds body trace (body run) n := by
  rw [tellRounds, List.range_succ_eq_map, List.flatMap_cons, List.flatMap_map]
  rfl

/-- The first rounds go by while the condition holds, and then the loop goes on. -/
theorem whileLoop_add (h : ∀ m < n, holds (body^[m] run) = .ok true) (more : Nat) :
    whileLoop holds body (n + more) run = whileLoop holds body more (body^[n] run) := by
  induction n generalizing run with
  | zero => rw [Nat.zero_add]; rfl
  | succ n ih =>
    have hfirst : holds run = .ok true := h 0 n.succ_pos
    rw [Nat.succ_add, whileLoop, hfirst]
    exact ih fun m hm => h (m + 1) (Nat.succ_lt_succ hm)

theorem traceWhile_add (h : ∀ m < n, holds (body^[m] run) = .ok true) (more : Nat) :
    traceWhile holds body trace (n + more) run =
      tellRounds body trace run n ++ traceWhile holds body trace more (body^[n] run) := by
  induction n generalizing run with
  | zero => rw [Nat.zero_add]; rfl
  | succ n ih =>
    have hfirst : holds run = .ok true := h 0 n.succ_pos
    rw [Nat.succ_add, traceWhile, hfirst, tellRounds_succ, List.append_assoc]
    exact congrArg (trace run ++ ·) (ih fun m hm => h (m + 1) (Nat.succ_lt_succ hm))

/-- Where the condition does not hold, a loop does nothing. -/
theorem whileLoop_of_false (h : holds run = .ok false) (more : Nat) :
    whileLoop holds body more run = (.ok false, run) := by
  cases more with
  | zero => rw [whileLoop, h]
  | succ more => rw [whileLoop, h]

theorem traceWhile_of_false (h : holds run = .ok false) (more : Nat) :
    traceWhile holds body trace more run = [] := by
  cases more with
  | zero => rfl
  | succ more => rw [traceWhile, h]

/-- A loop ends after the first round that leaves its condition false. -/
theorem whileLoop_of_first_false {limit : Nat} (hn : n ≤ limit)
    (htrue : ∀ m < n, holds (body^[m] run) = .ok true)
    (hfalse : holds (body^[n] run) = .ok false) :
    whileLoop holds body limit run = (.ok false, body^[n] run) ∧
      traceWhile holds body trace limit run = tellRounds body trace run n := by
  obtain ⟨more, rfl⟩ := Nat.exists_eq_add_of_le hn
  rw [whileLoop_add htrue, traceWhile_add htrue, whileLoop_of_false hfalse,
    traceWhile_of_false hfalse, List.append_nil]
  exact ⟨rfl, rfl⟩

/-- A loop whose condition does not become false runs its body as often as it may. -/
theorem whileLoop_of_all_true {limit : Nat}
    (htrue : ∀ m ≤ limit, holds (body^[m] run) = .ok true) :
    whileLoop holds body limit run = (.ok true, body^[limit] run) ∧
      traceWhile holds body trace limit run = tellRounds body trace run limit := by
  have hrounds : ∀ m < limit, holds (body^[m] run) = .ok true := fun m hm => htrue m hm.le
  have hloop := whileLoop_add hrounds 0
  have htrace : traceWhile holds body trace (limit + 0) run = _ := traceWhile_add hrounds 0
  rw [whileLoop, htrue limit le_rfl] at hloop
  rw [traceWhile, List.append_nil] at htrace
  exact ⟨hloop, htrace⟩

end

/-- A `While` that is entered is its loop, with the limit of the session; what the condition
    says at the end is dropped. -/
theorem runBlock_whileBlock {depth : Nat} {run : Run}
    (hdepth : depth < run.session.config.maxBlockDepth) (condition : Condition)
    (body : Run → Run) :
    let loop := whileLoop (·.holds condition) body run.session.config.whileIterationLimit run
    runBlock (.whileBlock condition) depth body run = (loop.1.map fun _ => (), loop.2) := by
  intro loop
  have hloop : whileLoop (·.holds condition) body run.session.config.whileIterationLimit run =
    loop := rfl
  rw [runBlock, if_neg (Nat.not_le.2 hdepth), hloop]
  clear_value loop
  obtain ⟨_ | _, _⟩ := loop
  · rfl
  · rfl

/-- The rounds of a `While`, for every limit. If the condition holds up to a round within the
    limit and not behind it, the loop ends there and says so; if it holds up to the limit, the
    loop is stopped there and says that. It leaves what these rounds leave, and the statements
    that it carries out are theirs. It fails if the condition cannot be evaluated at first, and
    only then. A block does this with the limit of its session. -/
theorem whileLoop_rounds (condition : Condition) (depth : Nat) (items : List Item) (limit : Nat)
    (run : Run) :
    let body := runItems (playExample 1) (depth + 1) items
    let events := traceItems (playExample 1) (traceExample 1) (depth + 1) items
    let loop := whileLoop (·.holds condition) body limit run
    let told := traceWhile (·.holds condition) body events limit run
    (∀ n ≤ limit, (∀ m < n, (body^[m] run).holds condition = .ok true) →
        (body^[n] run).holds condition = .ok false →
        loop = (.ok false, body^[n] run) ∧ told = tellRounds body events run n) ∧
      ((∀ m ≤ limit, (body^[m] run).holds condition = .ok true) →
        loop = (.ok true, body^[limit] run) ∧ told = tellRounds body events run limit) ∧
      (∀ e, loop.1 = .error e ↔ run.holds condition = .error e) ∧
      (depth < run.session.config.maxBlockDepth → limit = run.session.config.whileIterationLimit →
        runBlock (.whileBlock condition) depth body run = (loop.1.map fun _ => (), loop.2)) := by
  intro body events loop told
  have hbody : ∀ run name, run.session.env.Binds name → (body run).session.env.Binds name :=
    fun run name => Session.runItems_binds (depth + 1) items run name
  refine ⟨fun n hn htrue hfalse => whileLoop_of_first_false hn htrue hfalse,
    fun htrue => whileLoop_of_all_true htrue, fun e => ?_, ?_⟩
  · cases hentry : run.holds condition with
    | error e' =>
      have hloop : loop = (.error e', run) := whileLoop_of_error hentry body limit
      rw [hloop]
    | ok answer =>
      -- Bodies unbind no variable, so whenever the loop ends, its condition has an answer.
      obtain ⟨n, hn⟩ := whileLoop_eq (·.holds condition) body limit run
      obtain ⟨answer', hanswer'⟩ := holds_iterate_ok hbody hentry n
      have hloop : loop.1 = .ok answer' := (congrArg Prod.fst hn).trans hanswer'
      rw [hloop]
      exact iff_of_false (by simp) (by simp)
  · rintro hdepth rfl
    exact runBlock_whileBlock hdepth condition body

/-- Three loops are removed one by one. Three rounds are enough where no more are allowed; with
    two, the graph still has a cycle. A condition about an unbound variable fails at once. -/
theorem whileLoop_rounds_three_loops :
    let source := "Create Node 1. Create Node 2. Create Node 3. Let k = 1.\n" ++
      "Connect 1 To 1. Connect 2 To 2. Connect 3 To 3."
    let s := ((Session.new { whileIterationLimit := 3 }).run source).session
    let run : Run := { session := s, summary := {} }
    let items : List Item :=
      [.statement 4 "Remove EDGE $k To $k", .statement 5 "Let k = $k + 1"]
    let body := runItems (playExample 1) 1 items
    whileLoop (·.holds (.check .hasCycle)) body 3 run = (.ok false, body^[3] run) ∧
      runBlock (.whileBlock (.check .hasCycle)) 0 body run = (.ok (), body^[3] run) ∧
      whileLoop (·.holds (.check .hasCycle)) body 2 run = (.ok true, body^[2] run) ∧
      (whileLoop (·.holds (.connected "1" "$x")) body 3 run).1 = .error (.notFound .var "x") := by
  intro source s run items body
  have htrue : ∀ m < 3, (body^[m] run).holds (.check .hasCycle) = .ok true := by decide +kernel
  have hfalse : (body^[3] run).holds (.check .hasCycle) = .ok false := by decide +kernel
  have hunbound : run.holds (.connected "1" "$x") = .error (.notFound .var "x") := by
    decide +kernel
  have hdepth : 0 < run.session.config.maxBlockDepth := by decide +kernel
  have hlimit : 3 = run.session.config.whileIterationLimit := by decide +kernel
  obtain ⟨hends, -, -, hblock⟩ := whileLoop_rounds (.check .hasCycle) 0 items 3 run
  obtain ⟨-, hstopped, -⟩ := whileLoop_rounds (.check .hasCycle) 0 items 2 run
  obtain ⟨-, -, hfails, -⟩ := whileLoop_rounds (.connected "1" "$x") 0 items 3 run
  have hthree := (hends 3 le_rfl htrue hfalse).1
  refine ⟨hthree, ?_, ?_, (hfails _).2 hunbound⟩
  · rw [hblock hdepth hlimit, hthree, Except.map]
  · exact (hstopped fun m hm => htrue m (Nat.lt_succ_of_le hm)).1

end GraphScript
