import GraphScript.Proofs.Decimal.Integer
import GraphScript.Proofs.Script.Headers
import GraphScript.Proofs.Session.Blocks
import GraphScript.Proofs.Session.Creation

/-!
# Counting

A `For` over integers runs its body once for each of them, in ascending order. Doubles are no
obstacle to that as long as the integers have `52` bits: there are as many rounds as integers
(`iterations_ofInt`), the counter is an integer in each of them (`Double.ofInt_add_ofNat`), and
different integers have different numerals for their names (`Counted.contains_next`).

What a round does is told by `Counted.round` and carried through the loop by `countLoop_rec`.
Between them and the text are the scanner (`scan_for_integers`), the header
(`Header.parse_for_integers`) and the bounds (`runItem_for_integers`). Altogether this tells what a
script does, from end to end, that creates a node for each integer between two bounds
(`Session.run_for_integers`).
-/

namespace GraphScript

open Double Text

/-! ### Rounds -/

/-- There are as many rounds as integers between the bounds. -/
theorem iterations_ofInt {a b : ℤ} (ha : a.natAbs < 2 ^ 52) (hb : b.natAbs < 2 ^ 52) :
    iterations (Float.ofInt a) (Float.ofInt b) = (b - a + 1).toNat := by
  have hfirst : Whole a (Float.ofInt a) := whole_ofInt (by omega)
  have hlast : Whole b (Float.ofInt b) := whole_ofInt (by omega)
  rw [iterations]
  split_ifs with hlt
  · have hempty : b < a := (hlast.lt_iff hfirst).1 hlt
    omega
  · have hle : ¬b < a := mt (hlast.lt_iff hfirst).2 hlt
    obtain ⟨hfin, hunits⟩ := hlast.exact_sub hfirst (by omega)
    have hcount : b - a = (b - a).toNat := (Int.toNat_of_nonneg (by omega)).symm
    have hsize : (b - a).toNat + 1 ≤ UInt64.size - 1 :=
      calc (b - a).toNat + 1 ≤ 2 ^ 53 := by omega
        _ ≤ UInt64.size - 1 := by decide
    rw [hcount] at hunits
    rw [toNat_toUInt64 hfin hunits (by omega), Nat.min_eq_left hsize]
    omega

/-- What each round hands on to the next one holds at the end. -/
theorem countLoop_rec {P : Nat → Run → Prop} {counter : String} {first : Float} {body : Run → Run}
    {step : Nat} (more : Nat) {run : Run}
    (hround : ∀ n, step ≤ n → n < step + more → ∀ run, P n run →
      P (n + 1) (body (run.setVariable counter (first + Float.ofNat n))))
    (hrun : P step run) : P (step + more) (countLoop counter first body more step run) := by
  -- On the rounds that are left, while the step moves on.
  induction more generalizing step run with
  | zero => exact hrun
  | succ more ih =>
    rw [countLoop, Nat.add_succ, ← Nat.succ_add]
    exact ih (fun n hstep hn => hround n (by omega) (by omega))
      (hround step le_rfl (by omega) run hrun)

/-- An integer in the counter gives its numeral to a new node. -/
theorem runItems_createNode_variable {run : Run} {z : ℤ}
    (hvalue : run.session.env.get? "i" = some (Float.ofInt z)) (hz : z.natAbs + 1 < 2 ^ 53)
    (hnew : run.session.graph.contains (toString z) = false) (replay : Nat → Action String)
    (depth line : Nat) :
    runItems replay depth [.statement line "Create Node $i"] run =
      { session := run.session.withNode (toString z) none
        summary := run.summary.succeed s!"Created node {toString z}." } := by
  have hwords : (Statement.ofText "Create Node $i").words = ["Create", "Node", "$i"] := by
    decide +kernel
  have hid : run.session.env.resolve "$i" = .ok (toString z) := by
    have hresolve := Environment.resolve_variable hvalue
    rwa [Environment.formatNumber_whole (whole_ofInt (by omega)) hz] at hresolve
  rw [runItems, runItems, runItem, Statement.carryOut_createNode hwords, Run.perform,
    Statement.run_createNode hwords hid hnew]

/-- The first integers from `a` on have been counted, each of them with a node of its own. -/
structure Counted (a : ℤ) (n : ℕ) (run : Run) : Prop where
  nodes_eq : run.session.graph.nodes =
    (List.range n).map fun k : ℕ => Node.new (toString (a + k)) none
  success_eq : run.summary.success = n
  errors_eq : run.summary.errors = 0
  diagnostics_eq : run.summary.diagnostics = []
  counter_eq : run.session.env.get? "i" =
    (List.range n).getLast?.map fun k : ℕ => Float.ofInt (a + k)

namespace Counted

variable {a : ℤ} {n : ℕ} {run : Run}

/-- No integer so far has the name of the next one. -/
theorem contains_next (h : Counted a n run) :
    run.session.graph.contains (toString (a + n)) = false := by
  rw [← Bool.not_eq_true, Graph.contains_iff, Graph.ids, h.nodes_eq, List.map_map, List.mem_map]
  rintro ⟨k, hk, heq⟩
  have hlt : k < n := List.mem_range.1 hk
  have hsum : a + k = a + n := Decimal.toString_injective heq
  omega

/-- A round counts one integer more. -/
theorem round (h : Counted a n run) (ha : a.natAbs < 2 ^ 52) (hn : a + n < 2 ^ 52)
    (replay : Nat → Action String) (depth : Nat) :
    Counted a (n + 1) (runItems replay depth [.statement 1 "Create Node $i"]
      (run.setVariable "i" (Float.ofInt a + Float.ofNat n))) := by
  -- The counter is never added up: each value is the first one and a number of steps.
  rw [ofInt_add_ofNat (by omega) (by omega) (by omega)]
  set counted := run.setVariable "i" (Float.ofInt (a + n))
  have hvalue : counted.session.env.get? "i" = some (Float.ofInt (a + n)) :=
    (Environment.get?_set ..).trans (if_pos rfl)
  have hnew : counted.session.graph.contains (toString (a + n)) = false := h.contains_next
  rw [runItems_createNode_variable hvalue (by omega) hnew]
  constructor
  · rw [List.range_succ, List.map_append, ← h.nodes_eq]
    rfl
  · exact congrArg (· + 1) h.success_eq
  · exact h.errors_eq
  · exact h.diagnostics_eq
  · rw [List.range_succ, List.getLast?_concat]
    exact hvalue

end Counted

/-! ### From the text to the rounds -/

section Numerals

open Decimal

theorem any_isMark_toString (z : ℤ) : (toString z).toList.any Token.isMark = false := by
  rw [List.any_eq_false]
  intro c hc hmark
  have hnumeral := isDigit_or_of_mem_toString hc
  simp only [Token.isMark, Bool.or_eq_true, beq_iff_eq] at hmark
  obtain ((rfl | rfl) | rfl) | rfl := hmark <;> exact absurd hnumeral (by decide)

theorem scan_for_integers (a b : ℤ) :
    Token.scan s!"For i = {a} to {b} \x7b Create Node $i. \x7d" =
      [.opening 1 s!"For i = {a} to {b}", .statement 1 "Create Node $i", .closing 1] := by
  have hheader : (s!"For i = {a} to {b}").toList = "For i =".toList ++
      (" ".toList ++ (toString a).toList ++ " to ".toList ++ (toString b).toList) := by
    simp only [String.toList_append, List.append_assoc]
    rfl
  have htight : IsTight (s!"For i = {a} to {b}").toList := by
    have hfor : IsTight "For i =".toList := ⟨⟨'F', _, rfl, rfl⟩, ⟨"For i ".toList, '=', rfl, rfl⟩⟩
    rw [hheader]
    exact hfor.append (isId_toString b).isTight _
  have hbody : IsTight "Create Node $i".toList :=
    ⟨⟨'C', _, rfl, rfl⟩, ⟨"Create Node $".toList, 'i', rfl, rfl⟩⟩
  have hmarks : (s!"For i = {a} to {b}" ++ "Create Node $i").toList.any Token.isMark = false := by
    rw [String.toList_append, hheader]
    simp only [List.any_append, any_isMark_toString]
    decide
  have hnewline : '\n' ∉ (s!"For i = {a} to {b}" ++ "Create Node $i").toList := by
    have hnumeral (z : ℤ) : '\n' ∉ (toString z).toList := fun hmem =>
      absurd ((isId_toString z).notBlank _ hmem) (by decide)
    rw [String.toList_append, hheader]
    simp only [List.mem_append, hnumeral]
    decide
  have hslash : (s!"For i = {a} to {b}").toList.head? ≠ some '/' := by
    rw [hheader]
    exact fun h => absurd (Option.some_inj.1 h) (by decide)
  have hsource : s!"For i = {a} to {b} \x7b Create Node $i. \x7d" =
      s!"For i = {a} to {b}" ++ " \x7b " ++ "Create Node $i" ++ ". \x7d" := by
    simp only [String.append_assoc]
    rfl
  rw [hsource]
  exact Token.scan_block htight hbody hmarks hnewline hslash

theorem Header.parse_for_integers (a b : ℤ) :
    parse s!"For i = {a} to {b}" = .ok (.forBlock "i" (toString a) (toString b)) := by
  have hcounter : IsName "i".toList := by decide +kernel
  have hto : toString a ≠ "to" := by
    intro h
    have hmem : 't' ∈ (toString a).toList := by rw [h]; decide
    exact absurd (isDigit_or_of_mem_toString hmem) (by decide)
  have htext : s!"For i = {a} to {b}" =
      "For " ++ "i" ++ " = " ++ toString a ++ " to " ++ toString b := by
    simp only [String.append_assoc]
    rfl
  rw [htext]
  exact parse_forBlock hcounter (isId_toString a).toIsWord hto (isId_toString b).toIsWord

end Numerals

/-- A `For` between two numerals is a round for each integer. -/
theorem runItem_for_integers {a b : ℤ} (ha : a.natAbs < 2 ^ 52) (hb : b.natAbs < 2 ^ 52) {run : Run}
    {depth : Nat} (hdepth : depth < run.session.config.maxBlockDepth) (line : Nat)
    (counter : String) (body : List Item) (replay : Nat → Action String) :
    runItem replay depth (.block line (.forBlock counter (toString a) (toString b)) body) run =
      countLoop counter (Float.ofInt a) (runItems replay (depth + 1) body) (b - a + 1).toNat 0
        run := by
  have hvalue {z : ℤ} (hz : z.natAbs < 2 ^ 52) :
      run.session.evaluate (toString z) = .ok (Float.ofInt z) :=
    run.session.env.evaluate_toString run.session.syntaxReason (by omega)
  have hfirst := hvalue ha
  have hlast := hvalue hb
  simp only [runItem, runBlock, if_neg (not_le.2 hdepth), hfirst, hlast, iterations_ofInt ha hb]

namespace Session

/-- A text that is a block of one statement. -/
theorem run_of_scan_block {s : Session} {source text body : String} {header : Header}
    (hscan : Token.scan source = [.opening 1 text, .statement 1 body, .closing 1])
    (hheader : Header.parse text = .ok header) (hdepth : 0 < s.config.maxBlockDepth) :
    s.run source = runItem (playExample 1) 0 (.block 1 header [.statement 1 body])
      { session := s, summary := {} } := by
  have hopening := Assembly.step_opening (a := .start) rfl hdepth 1 text
  rw [run, runScript, Script.parse_eq, hscan, Assembly.ofTokens, List.foldl_cons, hopening]
  change runItems (playExample 1) 0 [Frame.close ⟨1, text, [.statement 1 body]⟩] _ = _
  rw [Frame.close, hheader, runItems, runItems]

variable {a b : ℤ} (syntaxReason : String → String)

theorem counted_run (ha : a.natAbs < 2 ^ 52) (hb : b.natAbs < 2 ^ 52) :
    Counted a (b - a + 1).toNat
      ((Session.new {} syntaxReason).run s!"For i = {a} to {b} \x7b Create Node $i. \x7d") := by
  have hstart : Counted a 0 { session := Session.new {} syntaxReason, summary := {} } :=
    ⟨rfl, rfl, rfl, rfl, rfl⟩
  have hdepth : 0 < (Session.new {} syntaxReason).config.maxBlockDepth := Nat.succ_pos _
  rw [run_of_scan_block (scan_for_integers a b) (Header.parse_for_integers a b) hdepth,
    runItem_for_integers ha hb hdepth]
  have hend := countLoop_rec (P := Counted a) (b - a + 1).toNat
    (fun n _ hn run h => h.round ha (by omega) (playExample 1) 1) hstart
  rwa [zero_add] at hend

/-- A `For` between two integers creates the nodes that are named by their numerals, in ascending
    order, and leaves the last integer in its counter. With no integer in between, it does
    nothing at all. -/
theorem run_for_integers (ha : a.natAbs < 2 ^ 52) (hb : b.natAbs < 2 ^ 52) :
    let run := (Session.new {} syntaxReason).run
      s!"For i = {a} to {b} \x7b Create Node $i. \x7d"
    run.summary.errors = 0 ∧ run.summary.diagnostics = [] ∧
      (a ≤ b →
        run.session.graph.nodes =
            (List.range (b - a + 1).toNat).map (fun k : ℕ => Node.new (toString (a + k)) none) ∧
          (run.summary.success : ℤ) = b - a + 1 ∧
          run.session.env.get? "i" = some (Float.ofInt b)) ∧
      (b < a →
        run.session.graph.nodes = [] ∧ run.summary.success = 0 ∧
          run.session.env.get? "i" = none) := by
  intro run
  have hcounted : Counted a (b - a + 1).toNat run := counted_run syntaxReason ha hb
  clear_value run
  refine ⟨hcounted.errors_eq, hcounted.diagnostics_eq, fun hle => ?_, fun hlt => ?_⟩
  · have hcount : (b - a + 1).toNat = (b - a).toNat + 1 := by omega
    have hsum : a + (b - a).toNat = b := by omega
    refine ⟨hcounted.nodes_eq, by rw [hcounted.success_eq]; omega, ?_⟩
    rw [hcounted.counter_eq, hcount, List.range_succ, List.getLast?_concat, Option.map_some, hsum]
  · have hcount : (b - a + 1).toNat = 0 := by omega
    rw [hcount] at hcounted
    exact ⟨hcounted.nodes_eq, hcounted.success_eq, hcounted.counter_eq⟩

/-- Across zero there are two signs, and at the upper end all bits are in use. -/
theorem run_for_integers_ends :
    let run (a b : ℤ) := (Session.new {}).run s!"For i = {a} to {b} \x7b Create Node $i. \x7d"
    ((-2 : ℤ).natAbs < 2 ^ 52 ∧ (4503599627370495 : ℤ).natAbs < 2 ^ 52) ∧
      (run (-2) 1).session.graph.ids = ["-2", "-1", "0", "1"] ∧
      (run (-2) 1).session.env.get? "i" = some (Float.ofInt 1) ∧
      (run 4503599627370494 4503599627370495).session.graph.ids =
        ["4503599627370494", "4503599627370495"] ∧
      (run 4503599627370494 4503599627370495).summary.errors = 0 ∧
      (run 4503599627370495 (-2)).session.graph.ids = [] ∧
      (run 4503599627370495 (-2)).session.env.get? "i" = none := by
  intro run
  have hrun (a b : ℤ) :
      (Session.new {}).run s!"For i = {a} to {b} \x7b Create Node $i. \x7d" = run a b := rfl
  have hzero := run_for_integers (a := -2) (b := 1) Environment.plainReason (by omega) (by omega)
  have hlarge := run_for_integers (a := 4503599627370494) (b := 4503599627370495)
    Environment.plainReason (by omega) (by omega)
  have hback := run_for_integers (a := 4503599627370495) (b := -2) Environment.plainReason
    (by omega) (by omega)
  rw [hrun] at hzero hlarge hback
  clear_value run
  obtain ⟨hnodes, -, hcounter⟩ := hzero.2.2.1 (by omega)
  obtain ⟨hnodes', -, -⟩ := hlarge.2.2.1 (by omega)
  obtain ⟨hnodes'', -, hcounter''⟩ := hback.2.2.2 (by omega)
  refine ⟨by omega, ?_, hcounter, ?_, hlarge.1, ?_, hcounter''⟩
  · rw [Graph.ids, hnodes]
    decide +kernel
  · rw [Graph.ids, hnodes']
    decide +kernel
  · rw [Graph.ids, hnodes'']
    rfl

end Session

end GraphScript
