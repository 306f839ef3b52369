import GraphScript.Cli.Prompt
import GraphScript.Proofs.Session.Piecemeal

/-!
# The prompt and whole texts

At the prompt a text is run in chunks, and the session should end up as if the whole text
had been run at once. It does if no chunk is run while the scanner has a block open, since
texts can then be run in parts. But the prompt counts braces on its own, and it counts
differently in three places: it knows no comments, quotes reach beyond their lines, and a
closing brace that closes no block makes up for an opening one.

* `Prompt.converse_eq_run`: the session ends up the same if these three do not occur, or do no
  harm (`InStep`).
* `Prompt.converse_cuts_block`: in general it does not. A closing brace in a comment ends the
  chunk, and the rest of the block runs outside of it.
-/

namespace GraphScript

namespace Token

/-! ### Braces among the tokens -/

/-- What a token adds to the number of open blocks. -/
def change : Token → Int
  | .opening .. => 1
  | .closing _ => -1
  | .statement .. | .unterminated _ => 0

/-- The opening braces less the closing ones. -/
def balance (tokens : List Token) : Int :=
  (tokens.map change).sum

theorem balance_cons (token : Token) (tokens : List Token) :
    balance (token :: tokens) = token.change + balance tokens :=
  List.sum_cons

theorem balance_append (tokens more : List Token) :
    balance (tokens ++ more) = balance tokens + balance more := by
  rw [balance, List.map_append, List.sum_append]
  rfl

/-- Every closing brace closes a block, if a number of blocks is open at first. -/
def NoStray : Nat → List Token → Prop
  | _, [] => True
  | depth, token :: tokens => 0 ≤ depth + token.change ∧ NoStray (token.depthAfter depth) tokens

instance decidableNoStray : ∀ depth tokens, Decidable (NoStray depth tokens)
  | _, [] => inferInstanceAs (Decidable True)
  | depth, token :: tokens =>
    have := decidableNoStray (token.depthAfter depth) tokens
    inferInstanceAs (Decidable (_ ∧ _))

/-- The number of closing braces that close no block, if a number of blocks is open at first. -/
def strays : Nat → List Token → Nat
  | _, [] => 0
  | depth, token :: tokens =>
    (if (depth : Int) + token.change < 0 then 1 else 0) + strays (token.depthAfter depth) tokens

/-- A closing brace is missing in the balance only if it closes a block. -/
theorem depth_eq_balance_add (depth : Nat) (tokens : List Token) :
    ((tokens.foldl depthAfter depth : Nat) : Int) =
      depth + balance tokens + strays depth tokens := by
  induction tokens generalizing depth with
  | nil => simp [balance, strays]
  | cons token tokens ih =>
    rw [List.foldl_cons, ih, balance_cons, strays]
    by_cases hstray : (depth : Int) + token.change < 0
    · rw [if_pos hstray]
      cases token <;> simp only [depthAfter, change] at hstray ⊢ <;> omega
    · rw [if_neg hstray]
      cases token <;> simp only [depthAfter, change] at hstray ⊢ <;> omega

theorem NoStray.strays_eq_zero {depth : Nat} {tokens : List Token} (h : NoStray depth tokens) :
    strays depth tokens = 0 := by
  induction tokens generalizing depth with
  | nil => rfl
  | cons token tokens ih =>
    obtain ⟨hfirst, hrest⟩ := h
    rw [strays, if_neg (Int.not_lt.2 hfirst), ih hrest]

theorem NoStray.depth_eq {depth : Nat} {tokens : List Token} (h : NoStray depth tokens) :
    ((tokens.foldl depthAfter depth : Nat) : Int) = depth + balance tokens := by
  rw [depth_eq_balance_add, h.strays_eq_zero]
  exact Int.add_zero _

theorem foldl_depthAfter_shift (n depth : Nat) (tokens : List Token) :
    (tokens.map (shift n)).foldl depthAfter depth = tokens.foldl depthAfter depth := by
  have hshift : ∀ (depth : Nat) (token : Token),
      (token.shift n).depthAfter depth = token.depthAfter depth := by
    intro depth token
    cases token <;> rfl
  simp only [List.foldl_map, hshift]

/-- The number of blocks open behind a line, from the number of those open before it. -/
def depthAfterLine (depth : Nat) (line : List Char) : Nat :=
  (ofLine 1 line).foldl depthAfter depth

/-- The number of blocks open behind lines. -/
theorem foldl_ofLines (first depth : Nat) (ls : List (List Char)) :
    (ofLines first ls).foldl depthAfter depth = ls.foldl depthAfterLine depth := by
  induction ls generalizing first depth with
  | nil => rfl
  | cons line ls ih =>
    have hline : (ofLine first line).foldl depthAfter depth = depthAfterLine depth line := by
      have hfirst : ofLine (0 + first) line = _ := ofLine_add first
      have hone : ofLine (0 + 1) line = _ := ofLine_add 1
      rw [Nat.zero_add] at hfirst hone
      rw [depthAfterLine, hfirst, hone, foldl_depthAfter_shift, foldl_depthAfter_shift]
    rw [ofLines, List.foldl_append, hline, ih, List.foldl_cons]

end Token

namespace Cli

open Text

/-! ### Braces that the prompt counts -/

/-- What a character other than a quote adds to the count. -/
def braceChange (quoted : Bool) (c : Char) : Int :=
  if c = '\x7b' && !quoted then 1 else if c = '\x7d' && !quoted then -1 else 0

theorem openBlocks_quote (depth : Int) (quoted : Bool) (rest : List Char) :
    openBlocks depth quoted ('"' :: rest) = openBlocks depth (!quoted) rest := rfl

theorem openBlocks_cons {c : Char} (hc : c ≠ '"') (depth : Int) (quoted : Bool)
    (rest : List Char) :
    openBlocks depth quoted (c :: rest) =
      openBlocks (depth + braceChange quoted c) quoted rest := by
  rw [openBlocks, if_neg hc, braceChange]
  split_ifs
  · rfl
  · rfl
  · rw [Int.add_zero]

theorem openBlocks_eq_add (depth : Int) (quoted : Bool) (text : List Char) :
    openBlocks depth quoted text = depth + openBlocks 0 quoted text := by
  induction text generalizing depth quoted with
  | nil => simp [openBlocks]
  | cons c rest ih =>
    by_cases hc : c = '"'
    · subst hc
      exact ih depth (!quoted)
    · rw [openBlocks_cons hc, openBlocks_cons hc, ih (depth + _), ih (0 + _)]
      omega

/-- Whether the end of a text is inside of quotes depends on how many of them it holds. -/
theorem openBlocks_append (depth : Int) (quoted : Bool) (text more : List Char) :
    openBlocks depth quoted (text ++ more) =
      openBlocks (openBlocks depth quoted text)
        (if text.count '"' % 2 = 0 then quoted else !quoted) more := by
  induction text generalizing depth quoted with
  | nil => rfl
  | cons c rest ih =>
    by_cases hc : c = '"'
    · subst hc
      have hparity : (if rest.count '"' % 2 = 0 then !quoted else !(!quoted)) =
          if (rest.count '"' + 1) % 2 = 0 then quoted else !quoted := by
        rcases Nat.mod_two_eq_zero_or_one (rest.count '"') with heven | hodd
        · rw [if_pos heven, if_neg (by omega)]
        · rw [if_neg (by omega), if_pos (by omega), Bool.not_not]
      rw [List.cons_append, openBlocks_quote, openBlocks_quote, ih, List.count_cons_self, hparity]
    · rw [List.cons_append, openBlocks_cons hc, openBlocks_cons hc, ih, List.count_cons_of_ne hc]

theorem openBlocks_append_of_even {text : List Char} (h : text.count '"' % 2 = 0)
    (more : List Char) :
    openBlocks 0 false (text ++ more) = openBlocks 0 false text + openBlocks 0 false more := by
  rw [openBlocks_append, if_pos h, openBlocks_eq_add]

theorem balance_leftover (line : Nat) (pending : List Char) :
    Token.balance (Token.leftover line pending) = 0 := by
  rw [Token.leftover]
  split <;> rfl

/-- On a line that is not a comment, the prompt counts the braces that the scanner finds. -/
theorem balance_scanLine (line : Nat) (quoted : Bool) (pending text : List Char) :
    Token.balance (Token.scanLine line quoted pending text) = openBlocks 0 quoted text := by
  induction text generalizing quoted pending with
  | nil => exact balance_leftover line pending
  | cons c rest ih =>
    by_cases hquote : c = '"'
    · rw [Token.scanLine, if_pos hquote, ih, hquote, openBlocks_quote]
    · rw [Token.scanLine, if_neg hquote, openBlocks_cons hquote, openBlocks_eq_add, braceChange]
      cases quoted with
      | true => simp [ih]
      | false =>
        by_cases hend : (c = '.' && Token.endsStatement rest) = true
        · -- A period is no brace, whether it ends a statement or not.
          obtain ⟨rfl, -⟩ : c = '.' ∧ _ := by simpa using hend
          rw [if_neg Bool.false_ne_true, if_pos hend, Token.balance_cons, ih]
          rfl
        · rw [if_neg Bool.false_ne_true, if_neg hend]
          simp only [Bool.not_false, Bool.and_true, decide_eq_true_eq]
          split_ifs
          · rw [Token.balance_cons, ih]
            rfl
          · rw [Token.balance_append, balance_leftover, Token.balance_cons, ih, Token.change]
            omega
          · rw [ih]
            omega

/-! ### Lines that are counted alike -/

/-- A line that makes the prompt run nothing too early, if a number of blocks is open before
    it. -/
structure InStepLine (depth : Nat) (line : List Char) : Prop where
  /-- Quotes are closed on the line they are opened on. -/
  quotes : line.count '"' % 2 = 0
  /-- A comment has no more closing braces than opening ones. -/
  comment : Token.IsComment line → 0 ≤ openBlocks 0 false line
  /-- A closing brace closes a block, unless no block is left open at the end of the line. -/
  braces : Token.depthAfterLine depth line = 0 ∨ Token.NoStray depth (Token.ofLine 1 line)

/-- Lines that make the prompt run nothing too early. -/
def InStep : Nat → List (List Char) → Prop
  | _, [] => True
  | depth, line :: more => InStepLine depth line ∧ InStep (Token.depthAfterLine depth line) more

instance (depth : Nat) (line : List Char) : Decidable (InStepLine depth line) :=
  decidable_of_iff (line.count '"' % 2 = 0 ∧
      (Token.IsComment line → 0 ≤ openBlocks 0 false line) ∧
      (Token.depthAfterLine depth line = 0 ∨ Token.NoStray depth (Token.ofLine 1 line)))
    ⟨fun ⟨quotes, comment, braces⟩ => ⟨quotes, comment, braces⟩,
      fun ⟨quotes, comment, braces⟩ => ⟨quotes, comment, braces⟩⟩

instance decidableInStep : ∀ depth ls, Decidable (InStep depth ls)
  | _, [] => inferInstanceAs (Decidable True)
  | depth, line :: more =>
    have := decidableInStep (Token.depthAfterLine depth line) more
    inferInstanceAs (Decidable (_ ∧ _))

/-- The scanner has no more blocks open than the prompt counts, or none. -/
theorem InStepLine.depth_le {depth : Nat} {line : List Char} (h : InStepLine depth line) :
    Token.depthAfterLine depth line = 0 ∨
      (Token.depthAfterLine depth line : Int) ≤ depth + openBlocks 0 false line := by
  by_cases hcomment : Token.IsComment line
  · have hnone : Token.depthAfterLine depth line = depth := by
      rw [Token.depthAfterLine, Token.ofLine_comment hcomment]
      rfl
    have hbraces := h.comment hcomment
    right
    omega
  · rcases h.braces with hzero | hstray
    · exact .inl hzero
    · right
      rw [Token.depthAfterLine, hstray.depth_eq, Token.ofLine_eq_scanLine hcomment,
        balance_scanLine]

/-- Lines in which the quotes are closed, and of which the prompt counts enough blocks as
    open. -/
structure Counted (ls : List (List Char)) : Prop where
  depth_le : ((ls.foldl Token.depthAfterLine 0 : Nat) : Int) ≤ openBlocks 0 false (unlines ls)
  quotes : (unlines ls).count '"' % 2 = 0

theorem foldl_depthAfterLine_concat (ls : List (List Char)) (line : List Char) :
    (ls ++ [line]).foldl Token.depthAfterLine 0 =
      Token.depthAfterLine (ls.foldl Token.depthAfterLine 0) line := by
  rw [List.foldl_append]
  rfl

namespace Counted

variable {ls : List (List Char)} {line : List Char}

theorem nil : Counted [] := ⟨Int.le_refl 0, rfl⟩

theorem quotes_concat (h : Counted ls) (hline : line.count '"' % 2 = 0) :
    (unlines (ls ++ [line])).count '"' % 2 = 0 := by
  have hls := h.quotes
  have hfeed : (line ++ ['\n']).count '"' = line.count '"' := by
    rw [List.count_append]
    rfl
  rw [unlines_append, unlines_cons, List.count_append]
  change (_ + (line ++ ['\n']).count '"') % 2 = 0
  omega

theorem openBlocks_concat (h : Counted ls) (hline : line.count '"' % 2 = 0) :
    openBlocks 0 false (unlines (ls ++ [line])) =
      openBlocks 0 false (unlines ls) + openBlocks 0 false line := by
  have hfeed : openBlocks 0 false (line ++ ['\n']) = openBlocks 0 false line := by
    rw [openBlocks_append_of_even hline]
    exact Int.add_zero _
  rw [unlines_append, unlines_cons, openBlocks_append_of_even h.quotes, ← hfeed]
  rfl

theorem depth_concat (h : Counted ls)
    (hline : InStepLine (ls.foldl Token.depthAfterLine 0) line) :
    (ls ++ [line]).foldl Token.depthAfterLine 0 = 0 ∨
      (((ls ++ [line]).foldl Token.depthAfterLine 0 : Nat) : Int) ≤
        openBlocks 0 false (unlines (ls ++ [line])) := by
  have hbefore := h.depth_le
  have hafter := hline.depth_le
  rw [foldl_depthAfterLine_concat, h.openBlocks_concat hline.quotes]
  omega

/-- A chunk that is ready to run leaves no block open. -/
theorem depth_of_isComplete (h : Counted ls)
    (hline : InStepLine (ls.foldl Token.depthAfterLine 0) line)
    (hcomplete : isComplete (unlines (ls ++ [line])) = true) :
    (ls ++ [line]).foldl Token.depthAfterLine 0 = 0 := by
  have hdepth := h.depth_concat hline
  rw [isComplete, decide_eq_true_eq] at hcomplete
  omega

theorem concat (h : Counted ls) (hline : InStepLine (ls.foldl Token.depthAfterLine 0) line)
    (hcomplete : ¬isComplete (unlines (ls ++ [line])) = true) : Counted (ls ++ [line]) := by
  have hdepth := h.depth_concat hline
  rw [isComplete, decide_eq_true_eq] at hcomplete
  exact ⟨by omega, h.quotes_concat hline.quotes⟩

end Counted

/-! ### Chunks -/

/-- The prompt has run some lines, in whole blocks, and others wait. -/
structure Prompt.Follows (s : Session) (done pending : List (List Char)) (p : Prompt) : Prop where
  session : p.session = (s.run (String.ofList (unlines done))).session
  text : p.pending = unlines pending
  closed : done.foldl Token.depthAfterLine 0 = 0
  newline : ∀ line ∈ done ++ pending, '\n' ∉ line

end Cli

theorem Assembly.closed_ofLines {ls : List (List Char)}
    (h : ls.foldl Token.depthAfterLine 0 = 0) (ceiling : Nat) :
    (Assembly.ofTokens ceiling (Token.ofLines 1 ls)).Closed := by
  rw [Assembly.closed_iff_depth, Assembly.depth_ofTokens, Token.foldl_ofLines, h]

/-- A text of nothing but blanks does nothing. -/
theorem Session.run_blank (s : Session) {text : List Char} (h : text.all Text.isBlank = true) :
    (s.run (String.ofList text)).session = s := by
  have hlines : ∀ (ls : List (List Char)) (first : Nat),
      (∀ line ∈ ls, line.all Text.isBlank = true) → Token.ofLines first ls = [] := by
    intro ls
    induction ls with
    | nil => exact fun _ _ => rfl
    | cons line ls ih =>
      intro first hls
      obtain ⟨hline, hls⟩ := List.forall_mem_cons.1 hls
      rw [Token.ofLines, ih _ hls, Token.ofLine, Text.trim_of_all_isBlank hline]
      rfl
  have hscan : Token.scan (String.ofList text) = [] := by
    rw [Token.scan, String.toList_ofList]
    refine hlines _ 1 fun line hline => List.all_eq_true.2 fun c hc => ?_
    exact List.all_eq_true.1 h c (Text.mem_of_mem_lines hline hc).1
  rw [Session.run, runScript, Script.parse_eq, hscan]
  change (runItems _ _ [] _).session = s
  rw [runItems]

namespace Cli.Prompt.Follows

open Text

variable {s : Session} {done pending : List (List Char)} {p : Prompt}

/-- Running the lines that wait completes the run of all lines so far. -/
theorem run_pending (h : p.Follows s done pending) :
    (p.session.run (String.ofList p.pending)).session =
      (s.run (String.ofList (unlines (done ++ pending)))).session := by
  have hdone : ∀ line ∈ done, '\n' ∉ line := fun line hline =>
    h.newline line (List.mem_append_left _ hline)
  have hrun := s.run_unlines_append hdone (Assembly.closed_ofLines h.closed _) (unlines pending)
  rw [h.session, h.text, unlines_append]
  exact hrun.session.symm

theorem flush (h : p.Follows s done pending) (hzero : pending.foldl Token.depthAfterLine 0 = 0) :
    p.flush.Follows s (done ++ pending) [] where
  session := h.run_pending
  text := rfl
  closed := by rw [List.foldl_append, h.closed, hzero]
  newline := by rw [List.append_nil]; exact h.newline

/-- A line that waits with the others. -/
theorem wait (h : p.Follows s done pending) {line : List Char} (hnewline : '\n' ∉ line) :
    Follows s done (pending ++ [line]) { p with pending := p.pending ++ line ++ ['\n'] } where
  session := h.session
  text := by
    rw [h.text, unlines_append, unlines_cons, List.append_assoc]
    rfl
  closed := h.closed
  newline := by
    intro l hl
    rw [← List.append_assoc, List.mem_append, List.mem_singleton] at hl
    rcases hl with hl | rfl
    exacts [h.newline l hl, hnewline]

theorem feed (h : p.Follows s done pending) (hcounted : Counted pending) {line : List Char}
    (hline : InStepLine (pending.foldl Token.depthAfterLine 0) line) (hnewline : '\n' ∉ line) :
    (p.feed line).Follows s done (pending ++ [line]) ∧ Counted (pending ++ [line]) ∨
      (p.feed line).Follows s (done ++ (pending ++ [line])) [] ∧
        (pending ++ [line]).foldl Token.depthAfterLine 0 = 0 := by
  have hwait := h.wait hnewline
  have htext := hwait.text
  dsimp only at htext
  rw [Prompt.feed]
  dsimp only
  split_ifs with hcomplete
  · rw [htext] at hcomplete
    have hzero := hcounted.depth_of_isComplete hline hcomplete
    exact .inr ⟨hwait.flush hzero, hzero⟩
  · rw [htext] at hcomplete
    exact .inl ⟨hwait, hcounted.concat hline hcomplete⟩

/-- The run lemma for `feed`: whatever of the lines has been run at the end, no block is cut. -/
theorem feed_all {ls : List (List Char)} (h : p.Follows s done pending)
    (hcounted : Counted pending) (hls : InStep (pending.foldl Token.depthAfterLine 0) ls)
    (hnewline : ∀ line ∈ ls, '\n' ∉ line) :
    ∃ done' pending', (ls.foldl Prompt.feed p).Follows s done' pending' ∧
      done' ++ pending' = done ++ pending ++ ls := by
  induction ls generalizing p done pending with
  | nil => exact ⟨done, pending, h, (List.append_nil _).symm⟩
  | cons line ls ih =>
    obtain ⟨hline, hls⟩ := hls
    obtain ⟨hfirst, hrest⟩ := List.forall_mem_cons.1 hnewline
    rw [← foldl_depthAfterLine_concat] at hls
    rcases h.feed hcounted hline hfirst with ⟨hwaits, hcounted⟩ | ⟨hruns, hzero⟩
    · obtain ⟨done', pending', hfollows, heq⟩ := ih hwaits hcounted hls hrest
      exact ⟨done', pending', hfollows, by simp [heq]⟩
    · -- The next chunk begins with no block open, and so does the count.
      rw [hzero] at hls
      obtain ⟨done', pending', hfollows, heq⟩ := ih hruns Counted.nil hls hrest
      exact ⟨done', pending', hfollows, by simp [heq]⟩

theorem finish (h : p.Follows s done pending) :
    p.finish.session = (s.run (String.ofList (unlines (done ++ pending)))).session := by
  rw [Prompt.finish]
  split_ifs with hblank
  · rw [← h.run_pending, Session.run_blank p.session hblank]
  · exact h.run_pending

end Cli.Prompt.Follows

namespace Cli.Prompt

open Text

/-- Only the lines of a text matter. -/
theorem run_unlines_lines (s : Session) (input : String) :
    s.run (String.ofList (unlines (lines input.toList))) = s.run input := by
  have hlines := lines_unlines fun line (hline : line ∈ lines input.toList) =>
    not_mem_of_mem_lines hline
  rw [Session.run, Session.run, Script.parse, Script.parse, Token.scan, Token.scan,
    String.toList_ofList, hlines]

/-- Talking to the prompt and running the whole text lead to the same session, whatever the
    limits of the session are, if quotes are closed on their lines, comments do not close
    blocks, and closing braces without a block are not followed by blocks left open on the
    same line. -/
theorem converse_eq_run (s : Session) (input : String) (h : InStep 0 (lines input.toList)) :
    (converse s input).session = (s.run input).session := by
  have hstart : Follows s [] [] { session := s } :=
    { session := (s.run_blank rfl).symm
      text := rfl
      closed := rfl
      newline := fun _ hline => absurd hline List.not_mem_nil }
  obtain ⟨done, pending, hfollows, heq⟩ := hstart.feed_all Counted.nil h
    fun line hline => not_mem_of_mem_lines hline
  rw [converse, hfollows.finish, heq, List.nil_append, List.nil_append, run_unlines_lines]

/-- A stray brace, a comment with braces, a brace in quotes, and a block that is never
    closed. -/
theorem converse_eq_run_braces :
    let input := "\x7d\n// \x7b \x7d\nFor i = 1 to 2 \x7b\n" ++
      "  Create Node $i VALUE \"\x7d\".\n\x7d\nIf IS_TREE \x7b Reset.\n"
    let s := Session.new { maxBlockDepth := 1 }
    InStep 0 (lines input.toList) ∧ (converse s input).session = (s.run input).session :=
  ⟨by decide, converse_eq_run _ _ (by decide)⟩

/-- A closing brace in a comment makes the prompt run the beginning of a block; the rest of it
    then runs, though its condition does not hold. -/
theorem converse_cuts_block :
    let input := "If HAS_CYCLE \x7b\n// \x7d\nCreate Node a.\n\x7d\n"
    let s := Session.new {}
    (converse s input).session.graph.ids = ["a"] ∧ (s.run input).session.graph.ids = [] := by
  decide +kernel

end Cli.Prompt

end GraphScript
