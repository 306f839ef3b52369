import GraphScript.Proofs.Text
import GraphScript.Script.Token

/-!
# Tokens of lines

A line that is not a comment may be scanned without trimming it first
(`ofLine_eq_scanLine`): blanks in front of a piece and at the end of a line have no effect on
the tokens.

Lines are scanned one by one, so the tokens of a text are those of its first lines followed
by those of the others (`ofLines_append`), and a text further down gives the same tokens with
larger line numbers (`ofLines_add`).
-/

namespace GraphScript.Token

open Text

variable {line : Nat} {quoted : Bool} {pending text blanks : List Char}

/-! ### Characters -/

theorem scanLine_quote (rest : List Char) :
    scanLine line quoted pending ('"' :: rest) =
      scanLine line (!quoted) ('"' :: pending) rest := rfl

theorem scanLine_quoted {c : Char} (hc : c ≠ '"') (rest : List Char) :
    scanLine line true pending (c :: rest) = scanLine line true (c :: pending) rest := by
  simp [scanLine, hc]

/-- Outside of quotes, a character that ends nothing. -/
theorem scanLine_unquoted {c : Char} {rest : List Char} (hquote : c ≠ '"')
    (hopening : c ≠ '\x7b') (hclosing : c ≠ '\x7d')
    (hperiod : c = '.' → endsStatement rest = false) :
    scanLine line false pending (c :: rest) = scanLine line false (c :: pending) rest := by
  have hend : (c = '.' && endsStatement rest) = false := by
    simpa using hperiod
  simp [scanLine, hquote, hopening, hclosing, hend]

theorem scanLine_period {rest : List Char} (h : endsStatement rest = true) :
    scanLine line false pending ('.' :: rest) =
      .statement line (piece pending) :: scanLine line false [] rest := by
  simp [scanLine, h]

theorem scanLine_opening (rest : List Char) :
    scanLine line false pending ('\x7b' :: rest) =
      .opening line (piece pending) :: scanLine line false [] rest := rfl

theorem scanLine_closing (rest : List Char) :
    scanLine line false pending ('\x7d' :: rest) =
      leftover line pending ++ .closing line :: scanLine line false [] rest := rfl

/-- The characters that can end a piece or begin quotes. -/
def isMark (c : Char) : Bool :=
  c == '"' || c == '.' || c == '\x7b' || c == '\x7d'

/-- Outside of quotes, the scanner reads over a text without marks. -/
theorem scanLine_unmarked (h : text.any isMark = false) (rest : List Char) :
    scanLine line false pending (text ++ rest) =
      scanLine line false (text.reverse ++ pending) rest := by
  induction text generalizing pending with
  | nil => rfl
  | cons c text ih =>
    rw [List.any_cons, Bool.or_eq_false_iff] at h
    obtain ⟨hc, htext⟩ := h
    simp only [isMark, Bool.or_eq_false_iff, beq_eq_false_iff_ne] at hc
    obtain ⟨⟨⟨hquote, hperiod⟩, hopening⟩, hclosing⟩ := hc
    rw [List.cons_append, scanLine_unquoted hquote hopening hclosing (absurd · hperiod), ih htext,
      List.reverse_cons, List.append_assoc, List.singleton_append]

/-- Inside of quotes, the scanner reads over everything else. -/
theorem scanLine_enclosed (h : '"' ∉ text) (rest : List Char) :
    scanLine line true pending (text ++ rest) =
      scanLine line true (text.reverse ++ pending) rest := by
  induction text generalizing pending with
  | nil => rfl
  | cons c text ih =>
    obtain ⟨hc, htext⟩ := List.ne_and_not_mem_of_not_mem_cons h
    rw [List.cons_append, scanLine_quoted hc.symm, ih htext, List.reverse_cons, List.append_assoc,
      List.singleton_append]

/-! ### Blanks -/

theorem ne_of_isBlank {c d : Char} (hc : isBlank c = true) (hd : isBlank d = false) : c ≠ d := by
  rintro rfl
  rw [hc] at hd
  cases hd

theorem leftover_eq_nil (h : pending.all isBlank = true) : leftover line pending = [] :=
  if_pos h

theorem leftover_append (h : blanks.all isBlank = true) (pending : List Char) :
    leftover line (pending ++ blanks) = leftover line pending := by
  simp [leftover, List.all_append, h]

theorem piece_append (h : blanks.all isBlank = true) (pending : List Char) :
    piece (pending ++ blanks) = piece pending := by
  rw [piece, piece, List.reverse_append, trim_append_left (by rwa [List.all_reverse])]

theorem endsStatement_append (h : blanks.all isBlank = true) (rest : List Char) :
    endsStatement (rest ++ blanks) = endsStatement rest := by
  cases rest with
  | cons c rest => rfl
  | nil =>
    cases blanks with
    | nil => rfl
    | cons b blanks =>
      rw [List.all_cons, Bool.and_eq_true] at h
      simp [endsStatement, h.1]

/-- Blanks at the beginning of an unfinished piece do not matter. -/
theorem scanLine_pending_append (h : blanks.all isBlank = true) :
    scanLine line quoted (pending ++ blanks) text = scanLine line quoted pending text := by
  induction text generalizing quoted pending with
  | nil => exact leftover_append h pending
  | cons c rest ih =>
    simp only [scanLine, ← List.cons_append, ih, piece_append h, leftover_append h]

theorem scanLine_blank {c : Char} (hc : isBlank c = true) (rest : List Char) :
    scanLine line quoted pending (c :: rest) = scanLine line quoted (c :: pending) rest := by
  have hquote : c ≠ '"' := ne_of_isBlank hc (by decide)
  cases quoted with
  | true => exact scanLine_quoted hquote rest
  | false =>
    exact scanLine_unquoted hquote (ne_of_isBlank hc (by decide)) (ne_of_isBlank hc (by decide))
      fun h => absurd h (ne_of_isBlank hc (by decide))

theorem scanLine_blanks (h : blanks.all isBlank = true) (rest : List Char) :
    scanLine line quoted pending (blanks ++ rest) =
      scanLine line quoted (blanks.reverse ++ pending) rest := by
  induction blanks generalizing pending with
  | nil => rfl
  | cons b blanks ih =>
    rw [List.all_cons, Bool.and_eq_true] at h
    rw [List.cons_append, scanLine_blank h.1, ih h.2, List.reverse_cons, List.append_assoc,
      List.singleton_append]

/-- Blanks at the end of a line do not matter. -/
theorem scanLine_append_blanks (h : blanks.all isBlank = true) :
    scanLine line quoted pending (text ++ blanks) = scanLine line quoted pending text := by
  induction text generalizing quoted pending with
  | nil =>
    have hblanks : scanLine line quoted pending (blanks ++ []) = _ := scanLine_blanks h []
    rw [List.append_nil] at hblanks
    rw [List.nil_append, hblanks]
    simp [scanLine, leftover, List.all_append, h]
  | cons c rest ih =>
    simp only [List.cons_append, scanLine, ih, endsStatement_append h]

/-! ### Comments -/

/-- The line is a comment. -/
def IsComment (text : List Char) : Prop :=
  ['/', '/'] <+: trim text

instance (text : List Char) : Decidable (IsComment text) :=
  inferInstanceAs (Decidable (_ <+: _))

theorem ofLine_comment (h : IsComment text) : ofLine line text = [] := by
  obtain ⟨rest, hrest⟩ := h
  rw [ofLine, ← hrest]
  rfl

/-- What is not a comment can be scanned with the blanks on its ends. -/
theorem ofLine_eq_scanLine (h : ¬IsComment text) :
    ofLine line text = scanLine line false [] text := by
  obtain ⟨before, after, hbefore, hafter, heq⟩ := exists_trim text
  have htrim : scanLine line false [] text = scanLine line false [] (trim text) := by
    have hpending : before.reverse.all isBlank = true := by rwa [List.all_reverse]
    calc scanLine line false [] text
        = scanLine line false [] (before ++ (trim text ++ after)) := by
          rw [← List.append_assoc, ← heq]
      _ = scanLine line false ([] ++ before.reverse) (trim text ++ after) := by
          rw [scanLine_blanks hbefore, List.append_nil, List.nil_append]
      _ = scanLine line false [] (trim text) := by
          rw [scanLine_pending_append hpending, scanLine_append_blanks hafter]
  rw [htrim, ofLine]
  split
  · rw [‹trim text = []›]
    rfl
  · rename_i rest hcomment
    exact absurd ⟨rest, hcomment.symm⟩ h
  · rfl

/-- A text of one line. -/
theorem scan_eq_scanLine {source : String} {c : Char} {rest : List Char}
    (hsource : source.toList = c :: rest) (hnewline : '\n' ∉ c :: rest)
    (hblank : isBlank c = false) (hslash : c ≠ '/') :
    scan source = scanLine 1 false [] (c :: rest) := by
  have hcomment : ¬IsComment (c :: rest) := by
    intro hcomment
    have hhead := hcomment.trans (trim_prefix_of_head hblank rest)
    rw [List.cons_prefix_cons] at hhead
    exact hslash hhead.1.symm
  have hfirst := firstLine_append hnewline []
  have hlater := laterLines_append hnewline []
  rw [List.append_nil] at hfirst hlater
  rw [scan, hsource, lines_ne_nil (List.cons_ne_nil c rest), hfirst, hlater, firstLine, laterLines,
    lines, List.headD_nil, List.tail_nil, List.append_nil, ofLines, ofLines, List.append_nil,
    ofLine_eq_scanLine hcomment]

/-- A block of one statement on a line of its own. -/
theorem scan_block {header body : String} (hheader : IsTight header.toList)
    (hbody : IsTight body.toList) (hmarks : (header ++ body).toList.any isMark = false)
    (hnewline : '\n' ∉ (header ++ body).toList) (hslash : header.toList.head? ≠ some '/') :
    scan (header ++ " \x7b " ++ body ++ ". \x7d") =
      [.opening 1 header, .statement 1 body, .closing 1] := by
  rw [String.toList_append, List.any_append, Bool.or_eq_false_iff] at hmarks
  rw [String.toList_append, List.mem_append, not_or] at hnewline
  have hsource : (header ++ " \x7b " ++ body ++ ". \x7d").toList =
      header.toList ++ [' '] ++ '\x7b' :: (' ' :: body.toList ++ '.' :: ' ' :: ['\x7d']) := by
    simp [String.toList_append]
  have hopening : (header.toList ++ [' ']).any isMark = false := by
    rw [List.any_append, hmarks.1]
    rfl
  have hstatement : (' ' :: body.toList).any isMark = false := hmarks.2
  have hpiece : piece ((header.toList ++ [' ']).reverse ++ []) = header := by
    rw [List.append_nil, piece, List.reverse_reverse, trim_append_right rfl,
      trim_of_isTight hheader, String.ofList_toList]
  have hpiece' : piece ((' ' :: body.toList).reverse ++ []) = body := by
    rw [List.append_nil, piece, List.reverse_reverse, ← List.singleton_append,
      trim_append_left rfl, trim_of_isTight hbody, String.ofList_toList]
  have hscan : scan (header ++ " \x7b " ++ body ++ ". \x7d") = scanLine 1 false []
      (header.toList ++ [' '] ++ '\x7b' :: (' ' :: body.toList ++ '.' :: ' ' :: ['\x7d'])) := by
    have hline : '\n' ∉
        header.toList ++ [' '] ++ '\x7b' :: (' ' :: body.toList ++ '.' :: ' ' :: ['\x7d']) := by
      simp [hnewline]
    obtain ⟨c, rest, hcons, hblank⟩ := hheader.head
    rw [hcons, List.head?_cons, ne_eq, Option.some_inj] at hslash
    rw [hcons] at hsource hline ⊢
    exact scan_eq_scanLine hsource hline hblank hslash
  rw [hscan, scanLine_unmarked hopening, scanLine_opening, scanLine_unmarked hstatement,
    scanLine_period rfl, scanLine_blank rfl, scanLine_closing, leftover_eq_nil rfl, scanLine,
    leftover_eq_nil rfl, hpiece, hpiece']
  rfl

/-! ### Line numbers -/

/-- The token on a line further down. -/
def shift (n : Nat) : Token → Token
  | .statement line text => .statement (line + n) text
  | .unterminated line => .unterminated (line + n)
  | .opening line header => .opening (line + n) header
  | .closing line => .closing (line + n)

theorem leftover_add (n : Nat) (pending : List Char) :
    leftover (line + n) pending = (leftover line pending).map (shift n) := by
  rw [leftover, leftover]
  split <;> rfl

theorem scanLine_add (n : Nat) :
    scanLine (line + n) quoted pending text =
      (scanLine line quoted pending text).map (shift n) := by
  induction text generalizing quoted pending with
  | nil => exact leftover_add n pending
  | cons c rest ih =>
    simp only [scanLine, ih, leftover_add, apply_ite (List.map (shift n)), List.map_append,
      List.map_cons, shift]

theorem ofLine_add (n : Nat) : ofLine (line + n) text = (ofLine line text).map (shift n) := by
  rw [ofLine, ofLine]
  split
  · rfl
  · rfl
  · exact scanLine_add n

theorem ofLines_add (first n : Nat) (ls : List (List Char)) :
    ofLines (first + n) ls = (ofLines first ls).map (shift n) := by
  induction ls generalizing first with
  | nil => rfl
  | cons line more ih =>
    rw [ofLines, ofLines, List.map_append, ofLine_add, ← ih, Nat.add_right_comm]

theorem ofLines_append (first : Nat) (ls more : List (List Char)) :
    ofLines first (ls ++ more) = ofLines first ls ++ ofLines (first + ls.length) more := by
  induction ls generalizing first with
  | nil => rfl
  | cons line ls ih =>
    rw [List.cons_append, ofLines, ofLines, ih, List.append_assoc, List.length_cons,
      Nat.add_right_comm, Nat.add_assoc]

end GraphScript.Token
