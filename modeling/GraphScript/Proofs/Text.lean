import GraphScript.Text.Blank
import GraphScript.Text.Lines

/-!
# Blanks and lines of texts

Blanks on the two ends of a text do not matter to `trim`, and a text is its trimmed part
between two runs of blanks (`exists_trim`).

`lines` is undone by `unlines`, which ends each line with a line feed: `lines_unlines_append`
cuts the lines off the front of a text, and `unlines_lines` puts a text together again that
ends with a line feed. Within a line, a text is followed through its *first line* and the
*later* ones (`firstLine_append`, `laterLines_append`).
-/

namespace GraphScript.Text

/-! ### Blanks -/

theorem trimStart_append {blanks : List Char} (h : blanks.all isBlank = true) (text : List Char) :
    trimStart (blanks ++ text) = trimStart text :=
  List.dropWhile_append_of_pos (List.all_eq_true.1 h)

theorem trimEnd_append {blanks : List Char} (h : blanks.all isBlank = true) (text : List Char) :
    trimEnd (text ++ blanks) = trimEnd text := by
  have hreverse : blanks.reverse.all isBlank = true := by rwa [List.all_reverse]
  rw [trimEnd, List.reverse_append]
  exact congrArg List.reverse (trimStart_append hreverse text.reverse)

/-- A text is a run of blanks, what `trimStart` leaves of it, and nothing else. -/
theorem exists_trimStart (text : List Char) :
    ∃ blanks, blanks.all isBlank = true ∧ text = blanks ++ trimStart text :=
  ⟨text.takeWhile isBlank, List.all_takeWhile, (List.takeWhile_append_dropWhile ..).symm⟩

/-- What is trimmed off the end is blank. -/
theorem exists_trimEnd (text : List Char) :
    ∃ blanks, blanks.all isBlank = true ∧ text = trimEnd text ++ blanks := by
  obtain ⟨blanks, hblanks, heq⟩ := exists_trimStart text.reverse
  refine ⟨blanks.reverse, by rwa [List.all_reverse], ?_⟩
  rw [trimEnd, ← List.reverse_append]
  exact List.reverse_eq_iff.1 heq

/-- A text is what `trim` leaves of it between two runs of blanks. -/
theorem exists_trim (text : List Char) :
    ∃ before after, before.all isBlank = true ∧ after.all isBlank = true ∧
      text = before ++ trim text ++ after := by
  obtain ⟨before, hbefore, hstart⟩ := exists_trimStart text
  obtain ⟨after, hafter, hend⟩ := exists_trimEnd (trimStart text)
  refine ⟨before, after, hbefore, hafter, ?_⟩
  rw [List.append_assoc, trim, ← hend]
  exact hstart

theorem length_trim_le (text : List Char) : (trim text).length ≤ text.length := by
  obtain ⟨before, after, -, -, heq⟩ := exists_trim text
  have hlength := congrArg List.length heq
  simp only [List.length_append] at hlength
  omega

/-- Only the end of a text that does not begin with a blank is trimmed. -/
theorem trim_prefix_of_head {c : Char} (hc : isBlank c = false) (rest : List Char) :
    trim (c :: rest) <+: c :: rest := by
  have hstart : trimStart (c :: rest) = c :: rest := by simp [trimStart, hc]
  obtain ⟨after, -, heq⟩ := exists_trimEnd (c :: rest)
  rw [trim, hstart]
  exact ⟨after, heq.symm⟩

theorem trim_append_left {blanks : List Char} (h : blanks.all isBlank = true) (text : List Char) :
    trim (blanks ++ text) = trim text :=
  congrArg trimEnd (trimStart_append h text)

theorem trim_append_right {blanks : List Char} (h : blanks.all isBlank = true) (text : List Char) :
    trim (text ++ blanks) = trim text := by
  obtain ⟨before, hbefore, heq⟩ := exists_trimStart text
  cases hrest : trimStart text with
  | nil =>
    -- Nothing but blanks.
    rw [hrest, List.append_nil] at heq
    have hall : (text ++ blanks).all isBlank = true := by
      rw [List.all_append, heq, hbefore, h]
      rfl
    have hnil := trimStart_append hall []
    rw [List.append_nil] at hnil
    rw [trim, trim, hnil, hrest]
    rfl
  | cons c rest =>
    have hc : isBlank c = false := by
      have := List.head?_dropWhile_not isBlank text
      rw [trimStart] at hrest
      rw [hrest] at this
      simpa using this
    have hstart : trimStart (text ++ blanks) = trimStart text ++ blanks := by
      rw [heq, List.append_assoc, trimStart_append hbefore, trimStart_append hbefore, hrest]
      simp [trimStart, hc]
    rw [trim, trim, hstart, trimEnd_append h]

theorem trim_of_all_isBlank {text : List Char} (h : text.all isBlank = true) : trim text = [] := by
  have hnil := trim_append_left h []
  rwa [List.append_nil] at hnil

theorem trim_ne_nil {text : List Char} {c : Char} (hmem : c ∈ text) (hc : isBlank c = false) :
    trim text ≠ [] := by
  intro hnil
  obtain ⟨before, after, hbefore, hafter, htext⟩ := exists_trim text
  rw [hnil, List.append_nil] at htext
  rw [htext, List.mem_append] at hmem
  have hblank : isBlank c = true :=
    hmem.elim (List.all_eq_true.1 hbefore c) (List.all_eq_true.1 hafter c)
  rw [hc] at hblank
  cases hblank

theorem trim_trim (text : List Char) : trim (trim text) = trim text := by
  obtain ⟨before, after, hbefore, hafter, htext⟩ := exists_trim text
  have htrim := congrArg trim htext
  rw [trim_append_right hafter, trim_append_left hbefore] at htrim
  exact htrim.symm

/-- Begins and ends with something else than a blank. -/
structure IsTight (text : List Char) : Prop where
  head : ∃ c rest, text = c :: rest ∧ isBlank c = false
  last : ∃ rest c, text = rest ++ [c] ∧ isBlank c = false

/-- Blanks between two tight texts are not on the ends of the whole. -/
theorem IsTight.append {text text' : List Char} (h : IsTight text) (h' : IsTight text')
    (between : List Char) : IsTight (text ++ (between ++ text')) := by
  obtain ⟨c, rest, rfl, hc⟩ := h.head
  obtain ⟨rest', c', rfl, hc'⟩ := h'.last
  exact ⟨⟨c, rest ++ (between ++ (rest' ++ [c'])), rfl, hc⟩,
    ⟨c :: rest ++ (between ++ rest'), c', by simp, hc'⟩⟩

theorem isTight_singleton {c : Char} (hc : isBlank c = false) : IsTight [c] :=
  ⟨⟨c, [], rfl, hc⟩, ⟨[], c, rfl, hc⟩⟩

/-- A tight text has nothing to trim. -/
theorem trim_of_isTight {text : List Char} (h : IsTight text) : trim text = text := by
  have hstart : trimStart text = text := by
    obtain ⟨c, rest, rfl, hc⟩ := h.head
    rw [trimStart, List.dropWhile_cons_of_neg (Bool.eq_false_iff.1 hc)]
  have hend : trimEnd text = text := by
    obtain ⟨rest, c, rfl, hc⟩ := h.last
    rw [trimEnd, List.reverse_concat, List.dropWhile_cons_of_neg (Bool.eq_false_iff.1 hc),
      List.reverse_cons, List.reverse_reverse]
  rw [trim, hstart, hend]

/-- What `trim` leaves of a text has no blanks on its ends. -/
theorem isTight_trim {text : List Char} (h : trim text ≠ []) : IsTight (trim text) := by
  obtain ⟨rest, hrest⟩ : trim text <+: trimStart text := by
    obtain ⟨after, -, hafter⟩ := exists_trimEnd (trimStart text)
    exact ⟨after, hafter.symm⟩
  constructor
  · obtain ⟨c, tail, htrim⟩ := List.exists_cons_of_ne_nil h
    have hhead := List.head?_dropWhile_not isBlank text
    rw [htrim, trimStart] at hrest
    rw [← hrest] at hhead
    exact ⟨c, tail, htrim, by simpa using hhead⟩
  · obtain ⟨c, tail, hreverse⟩ := List.exists_cons_of_ne_nil (List.reverse_ne_nil_iff.2 h)
    have hhead := List.head?_dropWhile_not isBlank (trimStart text).reverse
    rw [trim, trimEnd, List.reverse_reverse] at hreverse
    rw [hreverse] at hhead
    refine ⟨tail.reverse, c, ?_, by simpa using hhead⟩
    rw [trim, trimEnd, hreverse, List.reverse_cons]

/-! ### Lines -/

/-- The first line of a text; that of an empty text is empty. -/
def firstLine (text : List Char) : List Char :=
  (lines text).headD []

/-- The lines of a text behind the first. -/
def laterLines (text : List Char) : List (List Char) :=
  (lines text).tail

theorem lines_newline (rest : List Char) : lines ('\n' :: rest) = [] :: lines rest := rfl

theorem lines_cons {c : Char} (h : c ≠ '\n') (rest : List Char) :
    lines (c :: rest) = (c :: firstLine rest) :: laterLines rest := by
  rw [lines, if_neg h, firstLine, laterLines]
  cases lines rest with
  | nil => rfl
  | cons line more => rfl

theorem firstLine_append {text : List Char} (h : '\n' ∉ text) (rest : List Char) :
    firstLine (text ++ rest) = text ++ firstLine rest := by
  induction text with
  | nil => rfl
  | cons c text ih =>
    obtain ⟨hc, htext⟩ := List.ne_and_not_mem_of_not_mem_cons h
    rw [List.cons_append, firstLine, lines_cons hc.symm, List.headD_cons, ih htext]
    rfl

theorem laterLines_append {text : List Char} (h : '\n' ∉ text) (rest : List Char) :
    laterLines (text ++ rest) = laterLines rest := by
  induction text with
  | nil => rfl
  | cons c text ih =>
    obtain ⟨hc, htext⟩ := List.ne_and_not_mem_of_not_mem_cons h
    rw [List.cons_append, laterLines, lines_cons hc.symm, List.tail_cons, ih htext]

theorem lines_ne_nil {text : List Char} (h : text ≠ []) :
    lines text = firstLine text :: laterLines text := by
  cases text with
  | nil => contradiction
  | cons c rest =>
    by_cases hc : c = '\n'
    · subst hc
      rfl
    · rw [firstLine, laterLines, lines_cons hc]
      rfl

theorem unlines_append (ls more : List (List Char)) :
    unlines (ls ++ more) = unlines ls ++ unlines more :=
  List.flatMap_append

theorem unlines_cons (line : List Char) (more : List (List Char)) :
    unlines (line :: more) = line ++ '\n' :: unlines more := by
  simp [unlines]

/-- Lines that line feeds end are found again, whatever comes behind them. -/
theorem lines_unlines_append {ls : List (List Char)} (h : ∀ line ∈ ls, '\n' ∉ line)
    (rest : List Char) : lines (unlines ls ++ rest) = ls ++ lines rest := by
  induction ls with
  | nil => rfl
  | cons line more ih =>
    obtain ⟨hline, hmore⟩ := List.forall_mem_cons.1 h
    have hne : line ++ '\n' :: (unlines more ++ rest) ≠ [] := by simp
    rw [unlines_cons, List.append_assoc, List.cons_append, lines_ne_nil hne,
      firstLine_append hline, laterLines_append hline, firstLine, laterLines, lines_newline,
      List.headD_cons, List.append_nil, List.tail_cons, ih hmore, List.cons_append]

theorem lines_unlines {ls : List (List Char)} (h : ∀ line ∈ ls, '\n' ∉ line) :
    lines (unlines ls) = ls := by
  have happend := lines_unlines_append h []
  rwa [List.append_nil, lines, List.append_nil] at happend

/-- The characters of a line are characters of the text, but not line feeds. -/
theorem mem_of_mem_lines {text line : List Char} {c : Char} (h : line ∈ lines text)
    (hc : c ∈ line) : c ∈ text ∧ c ≠ '\n' := by
  induction text generalizing line with
  | nil => exact absurd h List.not_mem_nil
  | cons d rest ih =>
    by_cases hd : d = '\n'
    · subst hd
      rw [lines_newline] at h
      rcases List.mem_cons.1 h with rfl | hline
      · exact absurd hc List.not_mem_nil
      · obtain ⟨hmem, hne⟩ := ih hline hc
        exact ⟨List.mem_cons_of_mem _ hmem, hne⟩
    · rw [lines_cons hd] at h
      rcases List.mem_cons.1 h with rfl | hline
      · rcases List.mem_cons.1 hc with rfl | hfirst
        · exact ⟨List.mem_cons_self, hd⟩
        · -- The first line of the rest is a line of it, as it is not empty.
          have hrest : rest ≠ [] := by
            rintro rfl
            exact List.not_mem_nil hfirst
          obtain ⟨hmem, hne⟩ := ih (lines_ne_nil hrest ▸ List.mem_cons_self) hfirst
          exact ⟨List.mem_cons_of_mem _ hmem, hne⟩
      · obtain ⟨hmem, hne⟩ := ih (List.mem_of_mem_tail hline) hc
        exact ⟨List.mem_cons_of_mem _ hmem, hne⟩

theorem not_mem_of_mem_lines {text line : List Char} (h : line ∈ lines text) : '\n' ∉ line :=
  fun hc => (mem_of_mem_lines h hc).2 rfl

/-- A text that ends with a line feed is put together again from its lines. -/
theorem unlines_lines {text : List Char} (h : text.getLast? = some '\n') :
    unlines (lines text) = text := by
  induction text with
  | nil => cases h
  | cons c rest ih =>
    cases rest with
    | nil =>
      obtain rfl : c = '\n' := by simpa using h
      rfl
    | cons d more =>
      have hrest := ih (by simpa [List.getLast?_cons_cons] using h)
      by_cases hc : c = '\n'
      · subst hc
        rw [lines_newline, unlines_cons, hrest]
        rfl
      · rw [lines_ne_nil (List.cons_ne_nil d more), unlines_cons] at hrest
        rw [lines_cons hc, unlines_cons, List.cons_append, hrest]

/-! ### Cuts -/

theorem isPrefixOf?_cons (c d : Char) (text rest : List Char) :
    (c :: text).isPrefixOf? (d :: rest) = if c == d then text.isPrefixOf? rest else none := rfl

theorem isPrefixOf?_append (text rest : List Char) :
    text.isPrefixOf? (text ++ rest) = some rest := by
  induction text with
  | nil => rfl
  | cons c text ih => rw [List.cons_append, isPrefixOf?_cons, if_pos (beq_self_eq_true c), ih]

theorem eq_append_of_isPrefixOf? {text all rest : List Char}
    (h : text.isPrefixOf? all = some rest) : all = text ++ rest := by
  induction text generalizing all with
  | nil => exact Option.some_inj.1 h
  | cons c text ih =>
    cases all with
    | nil => cases h
    | cons d all =>
      rw [isPrefixOf?_cons] at h
      split at h
      · rename_i heq
        rw [List.cons_append, ← ih h, beq_iff_eq.1 heq]
      · cases h

/-- A text is cut at a separator if the separator cannot begin before. -/
theorem cut?_append {c : Char} {before : List Char} (h : c ∉ before) (separator after : List Char) :
    cut? (c :: separator) (before ++ (c :: separator ++ after)) = some (before, after) := by
  induction before with
  | nil => rw [List.nil_append, List.cons_append, cut?, ← List.cons_append, isPrefixOf?_append]
  | cons d before ih =>
    obtain ⟨hne, hbefore⟩ := List.ne_and_not_mem_of_not_mem_cons h
    have hnone (rest : List Char) : (c :: separator).isPrefixOf? (d :: rest) = none := by
      rw [isPrefixOf?_cons, if_neg (by simpa using hne)]
    rw [List.cons_append, cut?, hnone, ih hbefore]
    rfl

end GraphScript.Text
