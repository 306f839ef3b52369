import GraphScript.Proofs.Script.Lines
import Mathlib.Data.List.Induction

/-!
# Items in the order of the text

An item is added when its last token is read, but it stands on the line of its first one. Between
the two, items are added to the block that it is going to be, and whatever stands open around it
stays open. So an assembly is in order at all times, if the open blocks are read along with the
items, from the outermost to the innermost: the lines are some of the lines of the tokens, in
their order (`Assembly.outline_ofTokens`). The end of the text gives the open blocks up, the
innermost first, and in the end drops what they hold and adds nothing but the outermost of their
headers, which is in its place there.

* `Token.IsOutermost`: the header of the outermost block that tokens leave open, told by the
  braces alone.
* `Script.parse_in_order`: the lines of the items of a script, read before the items within them,
  never go back, and of all items at most the last one reports a block that is never closed.
-/

namespace GraphScript

open Text

/-! ### Lines of tokens -/

namespace Token

theorem pairwise_line_ofLines (first : Nat) (ls : List (List Char)) :
    ((ofLines first ls).map line).Pairwise (· ≤ ·) := by
  induction ls generalizing first with
  | nil => exact List.Pairwise.nil
  | cons text ls ih =>
    rw [ofLines, List.map_append, List.pairwise_append]
    refine ⟨?_, ih (first + 1), ?_⟩
    · -- The tokens of one line carry the same number.
      refine List.pairwise_map.2 (List.pairwise_of_forall_mem_list fun a ha b hb => ?_)
      exact Nat.le_of_eq ((of_mem_ofLine ha).1.trans (of_mem_ofLine hb).1.symm)
    · intro m hm n hn
      obtain ⟨token, htoken, rfl⟩ := List.mem_map.1 hm
      obtain ⟨later, hlater, rfl⟩ := List.mem_map.1 hn
      obtain ⟨i, -, -, -, hline⟩ := of_mem_ofLines hlater
      rw [(of_mem_ofLine htoken).1, hline]
      omega

end Token

/-! ### Lines of items -/

namespace Item

/-- The lines of items, each before the lines of the items within it. -/
def linesOf (items : List Item) : List Nat :=
  (partsOf items).map line

theorem linesOf_append (items more : List Item) :
    linesOf (items ++ more) = linesOf items ++ linesOf more := by
  rw [linesOf, partsOf_append, List.map_append, linesOf, linesOf]

theorem linesOf_singleton (item : Item) : linesOf [item] = item.parts.map line := by
  rw [linesOf, partsOf_singleton]

mutual

/-- Failures are told in the order of their items. -/
theorem lines_diagnosticsOf : ∀ items : List Item,
    ((diagnosticsOf items).map Diagnostic.line).Sublist (linesOf items)
  | [] => by
    rw [diagnosticsOf]
    exact List.nil_sublist _
  | item :: rest => by
    rw [diagnosticsOf, List.map_append, ← List.singleton_append, linesOf_append, linesOf_singleton]
    exact (lines_diagnostics item).append (lines_diagnosticsOf rest)

theorem lines_diagnostics : ∀ item : Item,
    (item.diagnostics.map Diagnostic.line).Sublist (item.parts.map line)
  | .statement number text => by
    rw [diagnostics]
    exact List.nil_sublist _
  | .block number header body => by
    rw [diagnostics, parts, List.map_cons]
    exact (lines_diagnosticsOf body).cons _
  | .broken number error => by
    rw [diagnostics, parts]
    exact List.Sublist.refl _

end

end Item

/-! ### Lines of an assembly -/

theorem Frame.lines_close (f : Frame) :
    (Item.linesOf [f.close]).Sublist (f.line :: Item.linesOf f.body) := by
  rw [Item.linesOf_singleton, Frame.close]
  split
  · rw [Item.parts]
    exact List.Sublist.refl _
  · rw [Item.parts]
    exact (List.nil_sublist _).cons_cons _

namespace Assembly

variable {ceiling : Nat} {a : Assembly}

/-- The lines of all that is assembled: of the items, and behind them of each open block and what
    it holds, from the outermost to the innermost. -/
def outline (a : Assembly) : List Nat :=
  Item.linesOf a.items ++ a.frames.reverse.flatMap fun f => f.line :: Item.linesOf f.body

theorem outline_cons {f : Frame} {outer : List Frame} (hframes : a.frames = f :: outer) :
    a.outline = { a with frames := outer }.outline ++ f.line :: Item.linesOf f.body := by
  simp [outline, hframes]

/-- An item is added at the end. -/
theorem outline_push (a : Assembly) (item : Item) :
    (a.push item).outline = a.outline ++ Item.linesOf [item] := by
  obtain ⟨items, frames, skipping⟩ := a
  cases frames with
  | nil => simp [push, outline, Item.linesOf_append]
  | cons f outer => simp [push, outline, Item.linesOf_append]

theorem outline_step (ceiling : Nat) (a : Assembly) (token : Token) :
    (step ceiling a token).outline.Sublist (a.outline ++ [token.line]) := by
  have hpush (item : Item) : (a.push item).outline.Sublist (a.outline ++ Item.linesOf [item]) :=
    outline_push a item ▸ List.Sublist.refl _
  have htakes := takes_step ceiling a token
  generalize step ceiling a token = a' at htakes ⊢
  cases htakes with
  | skipped hskip => cases token <;> exact List.sublist_append_left _ _
  | statement hskip line text => exact hpush _
  | unterminated hskip line => exact hpush _
  | opened hskip hceiling line header =>
    rw [outline_cons rfl]
    exact List.Sublist.refl _
  | turnedAway hskip hceiling line header => exact hpush (.broken line (.tooDeep ceiling))
  | stray hskip hframes line => exact hpush _
  | @closed hskip f outer hframes line =>
    -- The block takes the place of its header, or its header stays without what it held.
    rw [outline_push, outline_cons hframes]
    exact ((List.Sublist.refl _).append f.lines_close).trans (List.sublist_append_left _ _)

/-- The lines of all that is assembled are lines of the tokens, in their order. -/
theorem outline_ofTokens (ceiling : Nat) (tokens : List Token) :
    (ofTokens ceiling tokens).outline.Sublist (tokens.map Token.line) := by
  induction tokens using List.reverseRecOn with
  | nil => exact List.Sublist.refl _
  | append_singleton tokens token ih =>
    rw [ofTokens_concat, List.map_append]
    exact (outline_step ceiling _ token).trans (ih.append (List.Sublist.refl _))

/-- At the end, of the open blocks the header of the outermost stays. -/
theorem linesOf_finish (a : Assembly) : (Item.linesOf a.finish).Sublist a.outline := by
  rw [outline]
  cases hlast : a.frames.getLast? with
  | none =>
    rw [finish_of_frames_eq_nil (List.getLast?_eq_none_iff.1 hlast)]
    exact List.sublist_append_left _ _
  | some outermost =>
    obtain ⟨inner, hframes⟩ := List.getLast?_eq_some_iff.1 hlast
    rw [finish_of_getLast? hlast, Item.linesOf_append, hframes, List.reverse_concat,
      List.flatMap_cons]
    exact (List.Sublist.refl _).append (List.sublist_append_of_sublist_left
      ((List.nil_sublist _).cons_cons _))

end Assembly

/-! ### Reports on open blocks -/

/-- The item reports a block that is never closed. -/
def Item.IsUnclosed (item : Item) : Prop :=
  ∃ f : Frame, item = f.abandon

/-- How a message begins, which tells the reports on open blocks from all others. -/
def Error.beginning (error : Error) : List Char :=
  error.message.toList.take 6

theorem Error.beginning_append {text : String} (h : 6 ≤ text.toList.length) (rest : String) :
    (Error.malformed (text ++ rest)).beginning = text.toList.take 6 := by
  change (text ++ rest).toList.take 6 = _
  rw [String.toList_append, List.take_append_of_le_length h]

theorem Item.IsUnclosed.beginning {line : Nat} {error : Error}
    (h : (Item.broken line error).IsUnclosed) : error.beginning = "Block ".toList := by
  obtain ⟨f, hf⟩ := h
  rw [Frame.abandon] at hf
  cases hf
  rw [String.append_assoc]
  exact Error.beginning_append (by decide) _

theorem Condition.beginning_of_parse {text : List Char} {error : Error}
    (h : parse text = .error error) : error.beginning = "CONNEC".toList := by
  have hpositive {positive : List Char} (h : parsePositive positive = .error error) :
      error.beginning = "CONNEC".toList := by
    rw [parsePositive] at h
    split at h
    · cases h
    · split at h
      · cases h
      · split at h
        · cases h
        · cases h
          exact Error.beginning_append (by decide) _
  rw [parse] at h
  dsimp only at h
  split at h
  · cases h
  · rename_i heq
    cases h
    exact hpositive heq

theorem Header.beginning_of_parse {text : String} {error : Error} (h : parse text = .error error) :
    error.beginning = "CONNEC".toList ∨ error.beginning = "Invali".toList := by
  have hmap (block : Condition → Header) {condition : List Char}
      (h : (Condition.parse condition).map block = .error error) :
      error.beginning = "CONNEC".toList := by
    cases hcondition : Condition.parse condition with
    | error e =>
      rw [hcondition] at h
      cases h
      exact Condition.beginning_of_parse hcondition
    | ok c =>
      rw [hcondition] at h
      cases h
  rw [parse] at h
  split at h
  · exact .inl (hmap .ifBlock h)
  · split at h
    · exact .inl (hmap .whileBlock h)
    · refine .inr ?_
      split at h
      · split at h
        · cases h
        · cases h
          rw [String.append_assoc, String.append_assoc]
          exact Error.beginning_append (by decide) _
      · cases h
        rw [String.append_assoc]
        exact Error.beginning_append (by decide) _

/-- No token becomes a report on an open block. -/
theorem Token.Makes.not_isUnclosed {ceiling : Nat} {token : Token} {item : Item}
    (h : token.Makes ceiling item) : ¬item.IsUnclosed := by
  intro hunclosed
  cases h with
  | statement line text => cases hunclosed.choose_spec
  | block h body => cases hunclosed.choose_spec
  | unterminated line => exact absurd hunclosed.beginning (by decide)
  | stray line => exact absurd hunclosed.beginning (by decide)
  | tooDeep line text =>
    have hbeginning : (Error.tooDeep ceiling).beginning = "Blocks".toList := by
      rw [Error.tooDeep, String.append_assoc]
      exact Error.beginning_append (by decide) _
    exact absurd (hbeginning.symm.trans hunclosed.beginning) (by decide)
  | unreadable h =>
    rcases Header.beginning_of_parse h with hbeginning | hbeginning
    · exact absurd (hbeginning.symm.trans hunclosed.beginning) (by decide)
    · exact absurd (hbeginning.symm.trans hunclosed.beginning) (by decide)

/-- The token opens a block while no other is open, and its block stays open. -/
def Token.IsOutermost (tokens : List Token) (token : Token) : Prop :=
  ∃ before after, tokens = before ++ token :: after ∧ before.foldl depthAfter 0 = 0 ∧
    ∀ part, part <+: after → 0 < part.foldl depthAfter (token.depthAfter 0)

namespace Assembly

variable {ceiling : Nat} {a : Assembly}

/-- The tokens that opened the blocks which are open, the innermost first. -/
def openers (a : Assembly) : List Token :=
  a.frames.map Frame.opener

theorem getLast?_openers {f : Frame} (h : a.frames.getLast? = some f) :
    a.openers.getLast? = some f.opener := by
  rw [openers, List.getLast?_map, h]
  rfl

theorem openers_push (a : Assembly) (item : Item) : (a.push item).openers = a.openers := by
  obtain ⟨items, frames, skipping⟩ := a
  cases frames with
  | nil => rfl
  | cons f outer => rfl

/-- A token opens a block, closes the innermost one, or leaves the blocks as they are. -/
theorem openers_step (ceiling : Nat) (a : Assembly) (token : Token) :
    (step ceiling a token).openers = a.openers ∨
      (∃ innermost, a.openers = innermost :: (step ceiling a token).openers) ∨
      a.skipping = 0 ∧ (step ceiling a token).openers = token :: a.openers := by
  have htakes := takes_step ceiling a token
  generalize step ceiling a token = a' at htakes ⊢
  cases htakes with
  | skipped hskip => cases token <;> exact .inl rfl
  | statement | unterminated | turnedAway | stray => exact .inl (openers_push a _)
  | opened hskip => exact .inr (.inr ⟨hskip, rfl⟩)
  | @closed hskip f outer hframes line =>
    have hopeners : a.openers = f.opener :: outer.map Frame.opener := by
      rw [openers, hframes]
      rfl
    rw [openers_push]
    exact .inr (.inl ⟨f.opener, hopeners⟩)

/-- The outermost of the open blocks is the one that the braces leave open. -/
theorem isOutermost_getLast? {tokens : List Token} {token : Token}
    (h : (ofTokens ceiling tokens).openers.getLast? = some token) :
    Token.IsOutermost tokens token := by
  induction tokens using List.reverseRecOn with
  | nil => cases h
  | append_singleton tokens new ih =>
    rw [ofTokens_concat] at h
    have hopen : 0 < (tokens ++ [new]).foldl Token.depthAfter 0 := by
      have hlength := List.length_pos_of_mem (List.mem_of_getLast? h)
      rw [openers, List.length_map] at hlength
      rw [← depth_ofTokens ceiling, ofTokens_concat]
      exact Nat.add_pos_left hlength _
    rw [List.foldl_append] at hopen
    -- A block that was open before stays the outermost as long as it is open.
    have hkeeps (h : (ofTokens ceiling tokens).openers.getLast? = some token) :
        Token.IsOutermost (tokens ++ [new]) token := by
      obtain ⟨before, after, rfl, hbefore, hafter⟩ := ih h
      refine ⟨before, after ++ [new], by simp, hbefore, fun part hpart => ?_⟩
      rcases List.prefix_concat_iff.1 hpart with rfl | hpart
      · rw [List.foldl_append, List.foldl_cons, hbefore] at hopen
        rwa [List.foldl_append]
      · exact hafter part hpart
    rcases openers_step ceiling (ofTokens ceiling tokens) new with
      heq | ⟨innermost, heq⟩ | ⟨hskip, heq⟩
    · exact hkeeps (heq ▸ h)
    · refine hkeeps ?_
      rw [heq, List.getLast?_cons, h]
      rfl
    · rw [heq] at h
      cases hopeners : (ofTokens ceiling tokens).openers with
      | nil =>
        have hframes : (ofTokens ceiling tokens).frames = [] := List.map_eq_nil_iff.1 hopeners
        have hclosed : tokens.foldl Token.depthAfter 0 = 0 := by
          rw [← depth_ofTokens ceiling]
          exact closed_iff_depth.1 ⟨hframes, hskip⟩
        rw [hopeners] at h
        cases h
        refine ⟨tokens, [], rfl, hclosed, fun part hpart => ?_⟩
        rw [List.prefix_nil.1 hpart]
        rwa [hclosed] at hopen
      | cons first rest =>
        rw [hopeners, List.getLast?_cons_cons] at h
        exact hkeeps (hopeners ▸ h)

/-- Nothing that is assembled reports an open block: only the end of the text does. -/
theorem not_isUnclosed {tokens : List Token} {item : Item}
    (h : item ∈ Item.partsOf (ofTokens ceiling tokens).items) : ¬item.IsUnclosed := by
  obtain ⟨token, -, hmakes⟩ := (Made.ofTokens ceiling tokens).items item h
  exact hmakes.not_isUnclosed

end Assembly

namespace Script

open Assembly

variable {source : String} {ceiling : Nat}

theorem partsOf_items {f : Frame}
    (h : (ofTokens ceiling (Token.scan source)).frames.getLast? = some f) :
    Item.partsOf (parse source ceiling).items =
      Item.partsOf (ofTokens ceiling (Token.scan source)).items ++ [f.abandon] := by
  rw [parse_eq, finish_of_getLast? h, Item.partsOf_append, Item.partsOf_singleton, Frame.abandon,
    Item.parts]

theorem exists_isUnclosed_iff :
    (∃ item ∈ Item.partsOf (parse source ceiling).items, item.IsUnclosed) ↔
      (ofTokens ceiling (Token.scan source)).frames ≠ [] := by
  constructor
  · rintro ⟨item, hitem, hunclosed⟩ hframes
    rw [parse_eq, finish_of_frames_eq_nil hframes] at hitem
    exact not_isUnclosed hitem hunclosed
  · intro hframes
    have hlast := List.getLast?_eq_some_getLast hframes
    refine ⟨_, ?_, List.getLast _ hframes, rfl⟩
    rw [partsOf_items hlast]
    exact List.mem_append_right _ (List.mem_singleton_self _)

/-- A report on an open block is the last of all items, it stands outside of all blocks, and it is
    about the outermost block that is open. -/
theorem of_isUnclosed {before after : List Item} {item : Item}
    (hparts : Item.partsOf (parse source ceiling).items = before ++ item :: after)
    (h : item.IsUnclosed) :
    after = [] ∧ (∀ other ∈ before, ¬other.IsUnclosed) ∧
      (parse source ceiling).items.getLast? = some item ∧
      ∃ f, (ofTokens ceiling (Token.scan source)).frames.getLast? = some f ∧ item = f.abandon := by
  have hmem : item ∈ Item.partsOf (parse source ceiling).items :=
    hparts ▸ List.mem_append_right _ List.mem_cons_self
  have hframes := exists_isUnclosed_iff.1 ⟨item, hmem, h⟩
  have hlast := List.getLast?_eq_some_getLast hframes
  rw [partsOf_items hlast] at hparts
  -- All but the last are made from tokens, which make no such reports.
  rcases List.eq_nil_or_concat after with rfl | ⟨after, last, rfl⟩
  · obtain ⟨hbefore, hitem⟩ := List.append_inj' hparts rfl
    obtain rfl := List.singleton_inj.1 hitem
    refine ⟨rfl, fun other hother => not_isUnclosed (hbefore ▸ hother), ?_, _, hlast, rfl⟩
    rw [parse_eq, finish_of_getLast? hlast]
    exact List.getLast?_concat
  · rw [List.concat_eq_append, ← List.cons_append, ← List.append_assoc] at hparts
    obtain ⟨hbefore, -⟩ := List.append_inj' hparts rfl
    exact absurd h (not_isUnclosed (hbefore ▸ List.mem_append_right _ List.mem_cons_self))

/-- The lines of all items, those of a block before those of the items that it holds, never go
    back, and neither do the lines of the failures; they are lines of the text. A block that is
    never closed is reported if one is open at the end, and then once: by the last of all items,
    which stands outside of all blocks, on the line of the header that opened the outermost block
    still open. -/
theorem parse_in_order (source : String) (ceiling : Nat) :
    (Item.linesOf (parse source ceiling).items).Pairwise (· ≤ ·) ∧
      ((parse source ceiling).diagnostics.map Diagnostic.line).Pairwise (· ≤ ·) ∧
      (∀ line ∈ Item.linesOf (parse source ceiling).items,
        1 ≤ line ∧ line ≤ (lines source.toList).length) ∧
      ((∃ item ∈ Item.partsOf (parse source ceiling).items, item.IsUnclosed) ↔
        (ofTokens ceiling (Token.scan source)).frames ≠ []) ∧
      ∀ before item after, Item.partsOf (parse source ceiling).items = before ++ item :: after →
        item.IsUnclosed → after = [] ∧ (∀ other ∈ before, ¬other.IsUnclosed) ∧
          (parse source ceiling).items.getLast? = some item ∧
          ∃ f, (ofTokens ceiling (Token.scan source)).frames.getLast? = some f ∧
            item = f.abandon ∧ Token.IsOutermost (Token.scan source) f.opener := by
  have hlines : (Item.linesOf (parse source ceiling).items).Sublist
      ((Token.scan source).map Token.line) :=
    (linesOf_finish _).trans (outline_ofTokens ceiling _)
  have hordered := (Token.pairwise_line_ofLines 1 _).sublist hlines
  refine ⟨hordered, hordered.sublist (Item.lines_diagnosticsOf _), fun line hline => ?_,
    exists_isUnclosed_iff, fun before item after hparts hunclosed => ?_⟩
  · obtain ⟨token, htoken, rfl⟩ := List.mem_map.1 (hlines.subset hline)
    obtain ⟨i, text, htext, -, hnumber⟩ := Token.of_mem_ofLines htoken
    obtain ⟨hi, -⟩ := List.getElem?_eq_some_iff.1 htext
    omega
  · obtain ⟨hafter, hbefore, hitem, f, hlast, habandon⟩ := of_isUnclosed hparts hunclosed
    exact ⟨hafter, hbefore, hitem, f, hlast, habandon,
      isOutermost_getLast? (getLast?_openers hlast)⟩

/-- A stray brace, a header that cannot be read with its block, and two blocks left open, with a
    third one in between that is closed. -/
theorem parse_in_order_two_open :
    let source := "\x7d\nFor i = 1 \x7b\nCreate Node a.\n\x7d\nIf IS_TREE \x7b\n" ++
      "If IS_TREE \x7b Reset. \x7d While HAS_CYCLE \x7b\nReset."
    let items := (parse source 2).items
    Item.linesOf items = [1, 2, 5] ∧ (lines source.toList).length = 7 ∧
      ∃ item ∈ Item.partsOf items, item.IsUnclosed ∧ items.getLast? = some item ∧ item.line = 5 ∧
        Token.IsOutermost (Token.scan source) (.opening 5 "If IS_TREE") := by
  intro source items
  obtain ⟨-, -, -, hexists, hunique⟩ := parse_in_order source 2
  have hopeners : (ofTokens 2 (Token.scan source)).openers =
      [.opening 6 "While HAS_CYCLE", .opening 5 "If IS_TREE"] := by decide +kernel
  have hframes : (ofTokens 2 (Token.scan source)).frames ≠ [] := by
    intro hnil
    rw [openers, hnil] at hopeners
    cases hopeners
  obtain ⟨item, hitem, hunclosed⟩ := hexists.2 hframes
  obtain ⟨before, after, hparts⟩ := List.append_of_mem hitem
  obtain ⟨-, -, hlast, f, hf, rfl, houtermost⟩ := hunique before item after hparts hunclosed
  have hopener : f.opener = .opening 5 "If IS_TREE" := by
    have houter := getLast?_openers hf
    rw [hopeners] at houter
    exact (Option.some_inj.1 houter).symm
  have hline : f.line = 5 := congrArg Token.line hopener
  exact ⟨by decide +kernel, by decide +kernel, _, hitem, hunclosed, hlast, hline,
    hopener ▸ houtermost⟩

end Script

end GraphScript
