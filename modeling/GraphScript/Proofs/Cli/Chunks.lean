import GraphScript.Proofs.Cli.Prompt

/-!
# Chunks that wait

A chunk waits at the prompt as long as the prompt counts a block as open. When the scanner has
none open, the chunk should run, and whether it does is a matter of two numbers: the *surplus*,
which is read off the braces of the lines, and the stray closing braces, which the scanner passes
over and the prompt counts (`isComplete_of_closed`).

The prompt and the scanner take different braces for text. To both, those in quotes are, but to
the scanner quotes end with their line, and comments are text as a whole. So a line has a surplus
(`surplusOf`) if it is a comment, of the braces of it that the prompt counts; and if the quotes
before it are odd in number, of the braces in its quotes, less those outside of them. It is what the
prompt counts on the line beyond the tokens of the scanner (`surplusOf_eq`). Nothing is withheld if
quotes are closed on their lines and comments open no more braces than they close; in general it is
(`withheld_behind_comment`).
-/

namespace GraphScript

namespace Token

theorem balance_shift (n : Nat) (tokens : List Token) :
    balance (tokens.map (shift n)) = balance tokens := by
  have hshift : change ∘ shift n = change := by
    funext token
    cases token <;> rfl
  rw [balance, List.map_map, hshift, balance]

/-- The balance of lines is that of the first and that of the others, wherever they stand. -/
theorem balance_ofLines_cons (first : Nat) (line : List Char) (more : List (List Char)) :
    balance (ofLines first (line :: more)) =
      balance (ofLine 1 line) + balance (ofLines 1 more) := by
  have hline : ∀ first, balance (ofLine first line) = balance (ofLine 0 line) := by
    intro first
    have hadd : ofLine (0 + first) line = _ := ofLine_add first
    rw [Nat.zero_add] at hadd
    rw [hadd, balance_shift]
  have hmore : balance (ofLines (first + 1) more) = balance (ofLines 1 more) := by
    rw [Nat.add_comm, ofLines_add, balance_shift]
  rw [ofLines, balance_append, hmore, hline first, hline 1]

end Token

namespace Cli

open Text

/-! ### Braces outside of quotes -/

/-- The opening braces of a text, less its closing ones. -/
def braces (text : List Char) : Int :=
  text.count '\x7b' - text.count '\x7d'

/-- The braces of every other piece: from the first one on, or from the second one on if the first
    stands inside of quotes. -/
def bracesOutside (quoted : Bool) : List (List Char) → Int
  | [] => 0
  | piece :: more => (if quoted then 0 else braces piece) + bracesOutside (!quoted) more

/-- The braces of a line that stand outside of quotes. Each quote begins a new piece. -/
def bracesOf (quoted : Bool) (line : List Char) : Int :=
  bracesOutside quoted (line.splitOn '"')

theorem braces_cons (c : Char) (text : List Char) :
    braces (c :: text) = braceChange false c + braces text := by
  simp only [braces, braceChange, List.count_cons, beq_iff_eq, Bool.not_false, Bool.and_true,
    decide_eq_true_eq]
  split_ifs <;> grind

theorem bracesOutside_modifyHead {c : Char} (quoted : Bool) {pieces : List (List Char)}
    (h : pieces ≠ []) :
    bracesOutside quoted (pieces.modifyHead (c :: ·)) =
      braceChange quoted c + bracesOutside quoted pieces := by
  obtain ⟨piece, more, rfl⟩ := List.exists_cons_of_ne_nil h
  rw [List.modifyHead_cons, bracesOutside, bracesOutside]
  cases quoted with
  | true => simp [braceChange]
  | false => simp [braces_cons, Int.add_assoc]

/-- The prompt counts the braces outside of quotes. -/
theorem openBlocks_eq_bracesOf (depth : Int) (quoted : Bool) (text : List Char) :
    openBlocks depth quoted text = depth + bracesOf quoted text := by
  induction text generalizing depth quoted with
  | nil => cases quoted <;> exact (Int.add_zero depth).symm
  | cons c rest ih =>
    have hrest := List.splitOn_ne_nil '"' rest
    rw [bracesOf, List.splitOn_cons_eq_if_modifyHead]
    by_cases hc : c = '"'
    · subst hc
      have hempty : (if quoted then 0 else braces []) = 0 := ite_self 0
      rw [openBlocks_quote, ih, if_pos (beq_self_eq_true _), bracesOutside, hempty, Int.zero_add,
        bracesOf]
    · rw [openBlocks_cons hc, ih, if_neg (by simpa using hc), bracesOutside_modifyHead quoted hrest,
        bracesOf, Int.add_assoc]

/-! ### Lines -/

/-- The braces of a line that the prompt counts and the scanner takes for text, less those that the
    scanner counts and the prompt takes for text. -/
def surplusOf (quoted : Bool) (line : List Char) : Int :=
  if Token.IsComment line then bracesOf quoted line
  else if quoted then bracesOf true line - bracesOf false line
  else 0

/-- The surplus of lines. A line begins inside of quotes if the lines before it hold an odd number
    of them. -/
def surplus (quoted : Bool) : List (List Char) → Int
  | [] => 0
  | line :: more =>
    surplusOf quoted line + surplus (if line.count '"' % 2 = 0 then quoted else !quoted) more

/-- The surplus is what the prompt counts on a line beyond the tokens of the scanner. -/
theorem surplusOf_eq (quoted : Bool) (line : List Char) :
    surplusOf quoted line = openBlocks 0 quoted line - Token.balance (Token.ofLine 1 line) := by
  rw [surplusOf, openBlocks_eq_bracesOf, Int.zero_add]
  split_ifs with hcomment hquoted
  · rw [Token.ofLine_comment hcomment]
    exact (Int.sub_zero _).symm
  · rw [Token.ofLine_eq_scanLine hcomment, balance_scanLine, openBlocks_eq_bracesOf, Int.zero_add,
      hquoted]
  · rw [Token.ofLine_eq_scanLine hcomment, balance_scanLine, openBlocks_eq_bracesOf, Int.zero_add,
      Bool.eq_false_of_not_eq_true hquoted, Int.sub_self]

theorem openBlocks_newline (depth : Int) (quoted : Bool) (rest : List Char) :
    openBlocks depth quoted ('\n' :: rest) = openBlocks depth quoted rest := by
  rw [openBlocks_cons (by decide)]
  exact congrArg (openBlocks · quoted rest) (Int.add_zero depth)

theorem openBlocks_unlines (quoted : Bool) (ls : List (List Char)) :
    openBlocks 0 quoted (unlines ls) = surplus quoted ls + Token.balance (Token.ofLines 1 ls) := by
  induction ls generalizing quoted with
  | nil => rfl
  | cons line more ih =>
    rw [unlines_cons, openBlocks_append, openBlocks_newline, openBlocks_eq_add, ih, surplus,
      surplusOf_eq, Token.balance_ofLines_cons]
    omega

/-- A line feed at the end of a text makes no difference. -/
theorem openBlocks_unlines_lines (depth : Int) (quoted : Bool) (text : List Char) :
    openBlocks depth quoted (unlines (lines text)) = openBlocks depth quoted text := by
  induction text generalizing depth quoted with
  | nil => rfl
  | cons c rest ih =>
    have hrest : ∀ depth quoted, openBlocks depth quoted
        (firstLine rest ++ '\n' :: unlines (laterLines rest)) = openBlocks depth quoted rest := by
      intro depth quoted
      cases rest with
      | nil => exact openBlocks_newline depth quoted []
      | cons d more => rw [← ih, lines_ne_nil (List.cons_ne_nil d more), unlines_cons]
    by_cases hfeed : c = '\n'
    · subst hfeed
      rw [lines_newline, unlines_cons, List.nil_append, openBlocks_newline, openBlocks_newline, ih]
    · rw [lines_cons hfeed, unlines_cons, List.cons_append]
      by_cases hquote : c = '"'
      · subst hquote
        rw [openBlocks_quote, openBlocks_quote, hrest]
      · rw [openBlocks_cons hquote, openBlocks_cons hquote, hrest]

/-! ### Texts -/

/-- What the prompt counts at the end of a text: the blocks that the scanner has open, and the
    surplus, less the stray closing braces. -/
theorem openBlocks_eq (source : String) :
    openBlocks 0 false source.toList = ((Token.scan source).foldl Token.depthAfter 0 : Nat) +
      surplus false (lines source.toList) - Token.strays 0 (Token.scan source) := by
  have hlines := openBlocks_unlines false (lines source.toList)
  have hdepth := Token.depth_eq_balance_add 0 (Token.scan source)
  rw [openBlocks_unlines_lines] at hlines
  rw [Token.scan] at hdepth ⊢
  omega

/-- A line that closes its quotes, and adds nothing to the surplus if the lines before it close
    theirs. -/
structure Plain (line : List Char) : Prop where
  /-- Quotes are closed on the line they are opened on. -/
  quotes : line.count '"' % 2 = 0
  /-- A comment has no more opening braces than closing ones. -/
  comment : Token.IsComment line → bracesOf false line ≤ 0

instance (line : List Char) : Decidable (Plain line) :=
  decidable_of_iff (line.count '"' % 2 = 0 ∧ (Token.IsComment line → bracesOf false line ≤ 0))
    ⟨fun ⟨quotes, comment⟩ => ⟨quotes, comment⟩, fun ⟨quotes, comment⟩ => ⟨quotes, comment⟩⟩

theorem surplus_nonpos {ls : List (List Char)} (h : ∀ line ∈ ls, Plain line) :
    surplus false ls ≤ 0 := by
  induction ls with
  | nil => exact Int.le_refl 0
  | cons line more ih =>
    obtain ⟨hline, hmore⟩ := List.forall_mem_cons.1 h
    have hfirst : surplusOf false line ≤ 0 := by
      rw [surplusOf, if_neg Bool.false_ne_true]
      split_ifs with hcomment
      · exact hline.comment hcomment
      · exact Int.le_refl 0
    rw [surplus, if_pos hline.quotes]
    exact Int.add_nonpos hfirst (ih hmore)

/-- A text that leaves no block open, whatever the ceiling, is ready to run at the prompt exactly
    if the surplus is made up for by stray closing braces. It is if all lines are plain: quotes
    are closed on their lines, and no comment opens more braces than it closes. -/
theorem isComplete_of_closed (source : String) (ceiling : Nat)
    (h : (Assembly.ofTokens ceiling (Token.scan source)).Closed) :
    (isComplete source.toList = true ↔
        surplus false (lines source.toList) ≤ Token.strays 0 (Token.scan source)) ∧
      ((∀ line ∈ lines source.toList, Plain line) → isComplete source.toList = true) := by
  have hiff : isComplete source.toList = true ↔
      surplus false (lines source.toList) ≤ Token.strays 0 (Token.scan source) := by
    rw [Assembly.closed_iff_depth, Assembly.depth_ofTokens] at h
    rw [isComplete, decide_eq_true_eq, openBlocks_eq, h]
    omega
  refine ⟨hiff, fun hplain => hiff.2 ?_⟩
  exact (surplus_nonpos hplain).trans (Int.natCast_nonneg _)

/-- A comment with a block of its own and a brace in quotes, which are plain; and a comment that
    opens a brace behind a stray one that makes up for it. -/
theorem isComplete_of_closed_made_up :
    let plain := "// \x7b \x7d\nFor i = 1 to 2 \x7b\n  Create Node $i VALUE \"\x7b\".\n\x7d\n"
    let madeUp := "\x7d\n// \x7b\nReset.\n"
    ((Assembly.ofTokens 1 (Token.scan plain)).Closed ∧ isComplete plain.toList = true) ∧
      (Assembly.ofTokens 0 (Token.scan madeUp)).Closed ∧ isComplete madeUp.toList = true := by
  intro plain madeUp
  have hplain : (Assembly.ofTokens 1 (Token.scan plain)).Closed :=
    Assembly.closed_iff_depth.2 (by decide)
  have hmadeUp : (Assembly.ofTokens 0 (Token.scan madeUp)).Closed :=
    Assembly.closed_iff_depth.2 (by decide)
  exact ⟨⟨hplain, (isComplete_of_closed plain 1 hplain).2 (by decide)⟩,
    hmadeUp, (isComplete_of_closed madeUp 0 hmadeUp).1.2 (by decide)⟩

/-- A comment with an opening brace is withheld, though the scanner has no block open; and so is
    a whole block if a quote on one of its lines is not closed. -/
theorem withheld_behind_comment :
    let comment := "// \x7b\n"
    let block := "If IS_TREE \x7b\nCreate Node \"a.\n\x7d\n"
    ((Assembly.ofTokens defaultCeiling (Token.scan comment)).Closed ∧
        isComplete comment.toList = false) ∧
      (Assembly.ofTokens defaultCeiling (Token.scan block)).Closed ∧
        isComplete block.toList = false :=
  ⟨⟨Assembly.closed_iff_depth.2 (by decide), by decide⟩,
    Assembly.closed_iff_depth.2 (by decide), by decide⟩

end Cli

end GraphScript
