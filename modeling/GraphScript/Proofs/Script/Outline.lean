import GraphScript.Proofs.Script.Assembly

/-!
# Scripts written out

An *outline* is a script as its author has it in mind: statements, and blocks of them. It is
written out as a row of pieces (a statement with its period, a header with its brace, a closing
brace), each followed by a line feed or a space, as the author likes.

Reading a text that was written so gives back the outline (`Script.parse_write`), however it
is laid out. The proof has two parts, which meet at the tokens:

* `Layout.scan_write`: the scanner finds the pieces, on the lines that they begin on. It may
  stand at the beginning of a line or behind a space, and finds the same in both cases.
* `Outline.foldl_tokensOf`: the assembly makes the outline of them. A block is put on the stack
  of open blocks, takes up its body, and comes down again at its closing brace.
-/

namespace GraphScript

open Text

/-! ### Phrases -/

/-- The position is outside of double quotes. -/
def Outside (text : List Char) (i : Nat) : Prop :=
  (text.take i).count '"' % 2 = 0

/-- A text that can be written as a statement or a header. -/
structure IsPhrase (text : List Char) : Prop where
  ne_nil : text ≠ []
  trimmed : trim text = text
  newline : '\n' ∉ text
  quotes : text.count '"' % 2 = 0
  /-- There is no brace outside of quotes. -/
  braces : ∀ i, i < text.length → Outside text i → text[i]? ≠ some '\x7b' ∧ text[i]? ≠ some '\x7d'
  /-- Behind a period outside of quotes stands a character that is neither a blank nor a
      closing brace. -/
  periods : ∀ i, i < text.length → Outside text i → text[i]? = some '.' →
    text[i + 1]?.any (fun c => !isBlank c && c != '\x7d') = true
  comment : ¬['/', '/'] <+: text

instance (text : List Char) (i : Nat) : Decidable (Outside text i) :=
  inferInstanceAs (Decidable (_ = _))

instance (text : List Char) : Decidable (IsPhrase text) :=
  decidable_of_iff (text ≠ [] ∧ trim text = text ∧ '\n' ∉ text ∧ text.count '"' % 2 = 0 ∧
      (∀ i, i < text.length → Outside text i → text[i]? ≠ some '\x7b' ∧ text[i]? ≠ some '\x7d') ∧
      (∀ i, i < text.length → Outside text i → text[i]? = some '.' →
        text[i + 1]?.any (fun c => !isBlank c && c != '\x7d') = true) ∧
      ¬['/', '/'] <+: text)
    ⟨fun ⟨h₁, h₂, h₃, h₄, h₅, h₆, h₇⟩ => ⟨h₁, h₂, h₃, h₄, h₅, h₆, h₇⟩,
      fun ⟨h₁, h₂, h₃, h₄, h₅, h₆, h₇⟩ => ⟨h₁, h₂, h₃, h₄, h₅, h₆, h₇⟩⟩

namespace IsPhrase

variable {text : List Char}

theorem getElem?_length (before left : List Char) (c : Char) :
    (before ++ c :: left)[before.length]? = some c ∧
      (before ++ c :: left)[before.length + 1]? = left.head? := by
  constructor
  · simp
  · rw [List.getElem?_append_right (by omega), Nat.add_sub_cancel_left]
    cases left <;> rfl

/-- The scanner reads over a phrase. The induction is on what is left of it; what lies behind
    tells whether the scanner is inside of quotes. -/
theorem scanLine_suffix (h : IsPhrase text) (line : Nat) (rest : List Char) :
    ∀ (left before : List Char) (quoted : Bool) (pending : List Char), text = before ++ left →
      before.count '"' % 2 = quoted.toNat →
      Token.scanLine line quoted pending (left ++ rest) =
        Token.scanLine line false (left.reverse ++ pending) rest := by
  intro left
  induction left with
  | nil =>
    intro before quoted pending heq hquoted
    rw [List.append_nil] at heq
    rw [← heq, h.quotes] at hquoted
    cases quoted with
    | false => rfl
    | true => cases hquoted
  | cons c left ih =>
    intro before quoted pending heq hquoted
    have heq' : text = (before ++ [c]) ++ left := by simp [heq]
    rw [List.cons_append, List.reverse_cons, List.append_assoc, List.singleton_append]
    by_cases hquote : c = '"'
    · subst hquote
      rw [Token.scanLine_quote]
      refine ih (before ++ ['"']) (!quoted) _ heq' ?_
      rw [List.count_append, List.count_singleton_self]
      cases quoted with
      | false | true =>
        simp only [Bool.toNat_false, Bool.toNat_true, Bool.not_false, Bool.not_true] at hquoted ⊢
        omega
    · have hquoted' : (before ++ [c]).count '"' % 2 = quoted.toNat := by
        rw [List.count_append, List.count_cons_of_ne hquote, List.count_nil, Nat.add_zero, hquoted]
      cases quoted with
      | true =>
        rw [Token.scanLine_quoted hquote]
        exact ih (before ++ [c]) true _ heq' hquoted'
      | false =>
        obtain ⟨hc, hnext⟩ := getElem?_length before left c
        rw [← heq] at hc hnext
        have hlength : before.length < text.length := by simp [heq]
        have houtside : Outside text before.length := by
          rw [Outside, heq, List.take_left]
          exact hquoted
        obtain ⟨hopening, hclosing⟩ := h.braces _ hlength houtside
        rw [hc] at hopening hclosing
        have hperiod : c = '.' → Token.endsStatement (left ++ rest) = false := by
          rintro rfl
          have hfollows := h.periods _ hlength houtside hc
          rw [hnext] at hfollows
          cases left with
          | nil => cases hfollows
          | cons d left => simpa [Token.endsStatement] using hfollows
        rw [Token.scanLine_unquoted hquote (fun hc => hopening (hc ▸ rfl))
          (fun hc => hclosing (hc ▸ rfl)) hperiod]
        exact ih (before ++ [c]) false _ heq' hquoted'

theorem scanLine_append (h : IsPhrase text) (line : Nat) (pending rest : List Char) :
    Token.scanLine line false pending (text ++ rest) =
      Token.scanLine line false (text.reverse ++ pending) rest :=
  h.scanLine_suffix line rest text [] false pending rfl rfl

/-- Blanks around a phrase are trimmed away. -/
theorem piece_eq (h : IsPhrase text) {before : List Char} (hbefore : before.all isBlank = true)
    (after : List Char) (hafter : after.all isBlank = true) :
    Token.piece (after ++ (text.reverse ++ before)) = String.ofList text := by
  have hreverse : after.reverse.all isBlank = true := by rwa [List.all_reverse]
  rw [← List.append_assoc, Token.piece_append hbefore, Token.piece, List.reverse_append,
    List.reverse_reverse, trim_append_right hreverse, h.trimmed]

/-- A phrase does not begin with a blank. -/
theorem head_not_blank (h : IsPhrase text) : ∃ c rest, text = c :: rest ∧ isBlank c = false := by
  cases htext : text with
  | nil => exact absurd htext h.ne_nil
  | cons c rest =>
    refine ⟨c, rest, rfl, ?_⟩
    cases hblank : isBlank c with
    | false => rfl
    | true =>
      -- Then trimming would shorten it.
      have hshort : trim ([c] ++ rest) = trim rest := trim_append_left (by simp [hblank]) rest
      have hlength := length_trim_le rest
      have htrim := h.trimmed
      rw [htext] at htrim
      rw [← hshort, List.singleton_append, htrim, List.length_cons] at hlength
      omega

/-- A line that begins with a phrase is no comment, and does not become one by what follows. -/
theorem not_isComment (h : IsPhrase text) {c : Char} (hc : c ≠ '/') (rest : List Char) :
    ¬Token.IsComment (text ++ c :: rest) := by
  intro hcomment
  obtain ⟨d, more, heq, hd⟩ := h.head_not_blank
  have hnone := h.comment
  rw [heq] at hnone hcomment
  have hprefix := hcomment.trans (trim_prefix_of_head hd (more ++ c :: rest))
  cases more with
  | nil =>
    simp only [List.nil_append, List.cons_prefix_cons] at hprefix
    exact hc hprefix.2.1.symm
  | cons e more =>
    simp only [List.cons_append, List.cons_prefix_cons, List.nil_prefix, and_true]
      at hprefix hnone
    exact hnone hprefix

end IsPhrase

/-- A phrase. -/
structure Phrase where
  text : String
  isPhrase : IsPhrase text.toList

/-- A phrase that is the header of a block. -/
structure Heading extends Phrase where
  header : Header
  parses : Header.parse text = .ok header

/-! ### Pieces -/

/-- The tokens of a text whose beginning is the rest of a line. -/
def Token.resume (line : Nat) (pending text : List Char) : List Token :=
  scanLine line false pending (firstLine text) ++ ofLines (line + 1) (laterLines text)

/-- A part of a script that is written at one go. -/
inductive Piece where
  | statement (phrase : Phrase)
  | opening (phrase : Phrase)
  | closing

namespace Piece

/-- The text of a piece. -/
def text : Piece → List Char
  | .statement phrase => phrase.text.toList ++ ['.']
  | .opening phrase => phrase.text.toList ++ [' ', '\x7b']
  | .closing => ['\x7d']

/-- The token of a piece. -/
def token (line : Nat) : Piece → Token
  | .statement phrase => .statement line phrase.text
  | .opening phrase => .opening line phrase.text
  | .closing => .closing line

theorem newline_not_mem_text (p : Piece) : '\n' ∉ p.text := by
  cases p with
  | statement phrase => simp [text, phrase.isPhrase.newline]
  | opening phrase => simp [text, phrase.isPhrase.newline]
  | closing => decide

/-- The scanner finds a piece in front of a blank or the end of the line. -/
theorem scanLine_text (p : Piece) (line : Nat) {pending rest : List Char}
    (hpending : pending.all isBlank = true) (hrest : rest.head?.all isBlank = true) :
    Token.scanLine line false pending (p.text ++ rest) =
      p.token line :: Token.scanLine line false [] rest := by
  cases p with
  | statement phrase =>
    have hend : Token.endsStatement rest = true := by
      cases rest with
      | nil => rfl
      | cons c rest =>
        have hc : isBlank c = true := hrest
        simp [Token.endsStatement, hc]
    have hpiece := phrase.isPhrase.piece_eq hpending [] rfl
    rw [text, List.append_assoc, phrase.isPhrase.scanLine_append, List.singleton_append,
      Token.scanLine_period hend, token]
    rw [List.nil_append, String.ofList_toList] at hpiece
    rw [hpiece]
  | opening phrase =>
    have hpiece := phrase.isPhrase.piece_eq hpending [' '] rfl
    rw [text, List.append_assoc, phrase.isPhrase.scanLine_append, List.cons_append,
      Token.scanLine_blank rfl, List.cons_append, List.nil_append, Token.scanLine_opening, token]
    rw [List.singleton_append, String.ofList_toList] at hpiece
    rw [hpiece]
  | closing =>
    rw [text, List.singleton_append, Token.scanLine_closing, Token.leftover_eq_nil hpending]
    rfl

/-- A line that begins with a piece is no comment. -/
theorem not_isComment (p : Piece) (rest : List Char) : ¬Token.IsComment (p.text ++ rest) := by
  cases p with
  | statement phrase =>
    rw [text, List.append_assoc]
    exact phrase.isPhrase.not_isComment (by decide) rest
  | opening phrase =>
    rw [text, List.append_assoc]
    exact phrase.isPhrase.not_isComment (by decide) _
  | closing =>
    intro hcomment
    have hprefix := hcomment.trans (trim_prefix_of_head (by decide) rest)
    simp at hprefix

theorem resume_newline (p : Piece) (line : Nat) {pending : List Char}
    (hpending : pending.all isBlank = true) (rest : List Char) :
    Token.resume line pending (p.text ++ '\n' :: rest) =
      p.token line :: Token.ofLines (line + 1) (lines rest) := by
  have hscan : Token.scanLine line false pending (p.text ++ []) = [p.token line] :=
    p.scanLine_text line hpending rfl
  have hfirst : firstLine ('\n' :: rest) = [] := rfl
  have hlater : laterLines ('\n' :: rest) = lines rest := rfl
  rw [Token.resume, firstLine_append p.newline_not_mem_text,
    laterLines_append p.newline_not_mem_text, hfirst, hlater, hscan, List.singleton_append]

theorem resume_space (p : Piece) (line : Nat) {pending : List Char}
    (hpending : pending.all isBlank = true) (rest : List Char) :
    Token.resume line pending (p.text ++ ' ' :: rest) =
      p.token line :: Token.resume line [' '] rest := by
  have hfirst : firstLine (' ' :: rest) = ' ' :: firstLine rest :=
    firstLine_append (show '\n' ∉ [' '] by decide) rest
  have hlater : laterLines (' ' :: rest) = laterLines rest :=
    laterLines_append (show '\n' ∉ [' '] by decide) rest
  rw [Token.resume, firstLine_append p.newline_not_mem_text,
    laterLines_append p.newline_not_mem_text, hfirst, hlater, p.scanLine_text line hpending rfl,
    Token.scanLine_blank rfl, List.cons_append]
  rfl

/-- At the beginning of a line the scanner looks for a comment, but a piece is none. -/
theorem ofLines_eq_resume (p : Piece) (line : Nat) (rest : List Char) :
    Token.ofLines line (lines (p.text ++ rest)) = Token.resume line [] (p.text ++ rest) := by
  have hne : p.text ++ rest ≠ [] := by
    cases p <;> simp [Piece.text]
  have hcomment : ¬Token.IsComment (firstLine (p.text ++ rest)) := by
    rw [firstLine_append p.newline_not_mem_text]
    exact p.not_isComment _
  rw [lines_ne_nil hne, Token.ofLines, Token.ofLine_eq_scanLine hcomment, Token.resume]

end Piece

/-! ### Layouts -/

/-- What follows a piece. -/
inductive Gap where
  | newline
  | space

/-- The character of a gap. -/
def Gap.char : Gap → Char
  | .newline => '\n'
  | .space => ' '

/-- A layout gives the gap behind each piece, by the position of the piece. -/
structure Layout where
  gap : Nat → Gap

namespace Layout

variable (layout : Layout)

/-- The line that the piece at a position begins on: one more for each line feed before it. -/
def line : Nat → Nat
  | 0 => 1
  | i + 1 =>
    match layout.gap i with
    | .newline => line i + 1
    | .space => line i

/-- The text of the pieces from a position on. -/
def write (i : Nat) : List Piece → List Char
  | [] => []
  | p :: pieces => p.text ++ (layout.gap i).char :: write (i + 1) pieces

/-- The tokens of the pieces from a position on. -/
def tokens (i : Nat) : List Piece → List Token
  | [] => []
  | p :: pieces => p.token (layout.line i) :: tokens (i + 1) pieces

theorem tokens_append (i : Nat) (pieces more : List Piece) :
    layout.tokens i (pieces ++ more) =
      layout.tokens i pieces ++ layout.tokens (i + pieces.length) more := by
  induction pieces generalizing i with
  | nil => rfl
  | cons p pieces ih =>
    rw [List.cons_append, tokens, tokens, ih, List.cons_append, List.length_cons,
      Nat.add_right_comm, Nat.add_assoc]

/-- The scanner finds the pieces of a text, whether it stands at the beginning of a line or
    behind a space. -/
theorem ofLines_write (pieces : List Piece) (i : Nat) :
    Token.ofLines (layout.line i) (lines (layout.write i pieces)) = layout.tokens i pieces ∧
      Token.resume (layout.line i) [' '] (layout.write i pieces) = layout.tokens i pieces := by
  induction pieces generalizing i with
  | nil => exact ⟨rfl, rfl⟩
  | cons p pieces ih =>
    obtain ⟨hline, hspace⟩ := ih (i + 1)
    -- The gap behind the piece decides which of the two is needed for the rest.
    have hresume : ∀ pending : List Char, pending.all isBlank = true →
        Token.resume (layout.line i) pending (layout.write i (p :: pieces)) =
          layout.tokens i (p :: pieces) := by
      intro pending hpending
      rw [write, tokens]
      cases hgap : layout.gap i with
      | newline =>
        rw [line, hgap] at hline
        rw [← hline]
        exact p.resume_newline _ hpending _
      | space =>
        rw [line, hgap] at hspace
        rw [← hspace]
        exact p.resume_space _ hpending _
    refine ⟨?_, hresume [' '] rfl⟩
    rw [← hresume [] rfl]
    exact p.ofLines_eq_resume _ _

theorem scan_write (pieces : List Piece) :
    Token.scan (String.ofList (layout.write 0 pieces)) = layout.tokens 0 pieces := by
  rw [Token.scan, String.toList_ofList]
  exact (layout.ofLines_write pieces 0).1

end Layout

/-! ### Outlines -/

/-- A statement or a block. -/
inductive Outline where
  | statement (phrase : Phrase)
  | block (heading : Heading) (body : List Outline)

namespace Outline

mutual

/-- How deep the blocks nest. -/
def depthOf : List Outline → Nat
  | [] => 0
  | outline :: rest => max outline.depth (depthOf rest)

/-- How deep the blocks nest, the block itself included. -/
def depth : Outline → Nat
  | .statement _ => 0
  | .block _ body => depthOf body + 1

end

mutual

/-- The number of statements, at any depth. -/
def statementsOf : List Outline → Nat
  | [] => 0
  | outline :: rest => outline.statements + statementsOf rest

/-- The number of statements, at any depth. -/
def statements : Outline → Nat
  | .statement _ => 1
  | .block _ body => statementsOf body

end

mutual

/-- The pieces, in the order in which they are written. -/
def piecesOf : List Outline → List Piece
  | [] => []
  | outline :: rest => outline.pieces ++ piecesOf rest

/-- The pieces, in the order in which they are written. -/
def pieces : Outline → List Piece
  | .statement phrase => [.statement phrase]
  | .block heading body => .opening heading.toPhrase :: (piecesOf body ++ [.closing])

end

mutual

/-- The items of a script with this outline, on the lines that their pieces begin on, if the
    first piece has the given position. -/
def itemsOf (layout : Layout) (i : Nat) : List Outline → List Item
  | [] => []
  | outline :: rest =>
    outline.item layout i :: itemsOf layout (i + outline.pieces.length) rest

/-- The item of an outline whose first piece has the given position. -/
def item (layout : Layout) (i : Nat) : Outline → Item
  | .statement phrase => .statement (layout.line i) phrase.text
  | .block heading body => .block (layout.line i) heading.header (itemsOf layout (i + 1) body)

end

end Outline

/-! ### Assembling -/

namespace Assembly

theorem foldl_push_frame (items : List Item) (a : Assembly) (f : Frame) (outer : List Frame) :
    items.foldl push { a with frames := f :: outer } =
      { a with frames := { f with body := f.body ++ items } :: outer } := by
  induction items generalizing f with
  | nil => rw [List.append_nil]; rfl
  | cons item items ih =>
    rw [List.foldl_cons, push, ih]
    simp

theorem foldl_push_outside (items : List Item) (a : Assembly) (h : a.frames = []) :
    items.foldl push a = { a with items := a.items ++ items } := by
  induction items generalizing a with
  | nil => rw [List.append_nil]; rfl
  | cons item items ih =>
    have hpush : a.push item = { a with items := a.items ++ [item] } := by
      rw [push, h]
    rw [List.foldl_cons, hpush, ih { a with items := a.items ++ [item] } h, List.append_assoc,
      List.singleton_append]

end Assembly

namespace Outline

variable {ceiling : Nat} (layout : Layout)

mutual

/-- The assembly makes items of the tokens of outlines, as long as the ceiling is high enough
    for their blocks on top of those that are open already. -/
theorem foldl_tokensOf : ∀ (outlines : List Outline) (i : Nat) (a : Assembly), a.skipping = 0 →
    a.frames.length + depthOf outlines ≤ ceiling →
    (layout.tokens i (piecesOf outlines)).foldl (Assembly.step ceiling) a =
      (itemsOf layout i outlines).foldl Assembly.push a
  | [], i, a, _, _ => by
    rw [piecesOf, itemsOf]
    rfl
  | outline :: rest, i, a, hskip, hdepth => by
    rw [depthOf] at hdepth
    have hfirst := foldl_tokens outline i a hskip (by omega)
    have hrest := foldl_tokensOf rest (i + outline.pieces.length) (a.push (outline.item layout i))
      (by rw [Assembly.skipping_push, hskip]) (by rw [Assembly.length_frames_push]; omega)
    rw [piecesOf, itemsOf, layout.tokens_append, List.foldl_append, hfirst, hrest, List.foldl_cons]

theorem foldl_tokens : ∀ (outline : Outline) (i : Nat) (a : Assembly), a.skipping = 0 →
    a.frames.length + outline.depth ≤ ceiling →
    (layout.tokens i outline.pieces).foldl (Assembly.step ceiling) a =
      a.push (outline.item layout i)
  | .statement phrase, i, a, hskip, _ => by
    rw [pieces, item, Layout.tokens, Layout.tokens, Piece.token, List.foldl_cons, List.foldl_nil,
      Assembly.step_statement hskip]
  | .block heading body, i, a, hskip, hdepth => by
    rw [depth] at hdepth
    -- The block as it lies on the stack, first without its body.
    have hbody := foldl_tokensOf body (i + 1)
      { a with frames := ⟨layout.line i, heading.text, []⟩ :: a.frames } hskip
      (by rw [List.length_cons]; omega)
    rw [Assembly.foldl_push_frame, List.nil_append] at hbody
    have hclose : Frame.close ⟨layout.line i, heading.text, itemsOf layout (i + 1) body⟩ =
        .block (layout.line i) heading.header (itemsOf layout (i + 1) body) := by
      rw [Frame.close, heading.parses]
    rw [pieces, item, Layout.tokens, Piece.token, List.foldl_cons,
      Assembly.step_opening hskip (by omega), layout.tokens_append, List.foldl_append, hbody,
      Layout.tokens, Layout.tokens, Piece.token, List.foldl_cons, List.foldl_nil,
      Assembly.step_closing_top hskip, hclose]

end

mutual

theorem diagnosticsOf_itemsOf : ∀ (outlines : List Outline) (i : Nat),
    Item.diagnosticsOf (itemsOf layout i outlines) = []
  | [], i => by rw [itemsOf, Item.diagnosticsOf]
  | outline :: rest, i => by
    rw [itemsOf, Item.diagnosticsOf, diagnostics_item outline i, diagnosticsOf_itemsOf rest,
      List.append_nil]

theorem diagnostics_item : ∀ (outline : Outline) (i : Nat),
    (outline.item layout i).diagnostics = []
  | .statement phrase, i => by rw [item, Item.diagnostics]
  | .block heading body, i => by rw [item, Item.diagnostics, diagnosticsOf_itemsOf body]

end

mutual

theorem statementsOf_itemsOf : ∀ (outlines : List Outline) (i : Nat),
    Item.statementsOf (itemsOf layout i outlines) = statementsOf outlines
  | [], i => by rw [itemsOf, Item.statementsOf, statementsOf]
  | outline :: rest, i => by
    rw [itemsOf, Item.statementsOf, statementsOf, statements_item outline i,
      statementsOf_itemsOf rest]

theorem statements_item : ∀ (outline : Outline) (i : Nat),
    (outline.item layout i).statements = outline.statements
  | .statement phrase, i => by rw [item, Item.statements, statements]
  | .block heading body, i => by
    rw [item, Item.statements, statements, statementsOf_itemsOf body]

end

end Outline

/-- Reading a script that was written out gives back its outline, however it was laid out, if
    the ceiling is not below its blocks: the same statements and blocks, each on the line that
    its piece begins on, no failures, and as many statements as there are in the outline. -/
theorem Script.parse_write (outlines : List Outline) (layout : Layout) {ceiling : Nat}
    (h : Outline.depthOf outlines ≤ ceiling) :
    let script := Script.parse (String.ofList (layout.write 0 (Outline.piecesOf outlines))) ceiling
    script.items = Outline.itemsOf layout 0 outlines ∧ script.diagnostics = [] ∧
      script.statementCount = Outline.statementsOf outlines := by
  intro script
  have hfold := Outline.foldl_tokensOf layout outlines 0 Assembly.start rfl
    (by simpa [Assembly.start] using h)
  have hitems : script.items = Outline.itemsOf layout 0 outlines := by
    change (Assembly.ofTokens ceiling (Token.scan _)).finish = _
    rw [layout.scan_write, Assembly.ofTokens, hfold, Assembly.foldl_push_outside _ _ rfl]
    rfl
  refine ⟨hitems, ?_, ?_⟩
  · rw [Script.diagnostics, hitems, Outline.diagnosticsOf_itemsOf]
  · rw [Script.statementCount, hitems, Outline.statementsOf_itemsOf]

/-- A loop around a loop, with a decimal point, and with braces and a period in quotes. -/
def nestedOutline : List Outline :=
  [.statement ⟨"Create Node a VALUE 3.25", by decide⟩,
    .block
      { text := "While NOT IS_TREE", isPhrase := by decide,
        header := .whileBlock (.not (.check .isTree)), parses := by rfl }
      [.statement ⟨"Create Node q VALUE \"\x7d x. \x7b\"", by decide⟩,
        .block
          { text := "For i = 1 to 3", isPhrase := by decide,
            header := .forBlock "i" "1" "3", parses := by rfl }
          [.statement ⟨"Create Node $i", by decide⟩]],
    .statement ⟨"Reset", by decide⟩]

/-- Two pieces to a line. -/
def pairedLayout : Layout where
  gap i := if i % 2 = 0 then .space else .newline

theorem Script.parse_write_nested :
    let source := "Create Node a VALUE 3.25. While NOT IS_TREE \x7b\n" ++
      "Create Node q VALUE \"\x7d x. \x7b\". For i = 1 to 3 \x7b\n" ++
      "Create Node $i. \x7d\n\x7d Reset.\n"
    Outline.depthOf nestedOutline ≤ 2 ∧
      (Script.parse source 2).items =
        [.statement 1 "Create Node a VALUE 3.25",
          .block 1 (.whileBlock (.not (.check .isTree)))
            [.statement 2 "Create Node q VALUE \"\x7d x. \x7b\"",
              .block 2 (.forBlock "i" "1" "3") [.statement 3 "Create Node $i"]],
          .statement 4 "Reset"] ∧
      (Script.parse source 2).diagnostics = [] ∧ (Script.parse source 2).statementCount = 4 := by
  intro source
  have hdepth : Outline.depthOf nestedOutline ≤ 2 := by decide
  have hsource :
      String.ofList (pairedLayout.write 0 (Outline.piecesOf nestedOutline)) = source := by
    decide +kernel
  have hparse := Script.parse_write nestedOutline pairedLayout hdepth
  rw [hsource] at hparse
  exact ⟨hdepth, hparse⟩

end GraphScript
