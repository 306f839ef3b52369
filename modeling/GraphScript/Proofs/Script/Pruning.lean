import GraphScript.Proofs.Script.Nesting
import Mathlib.Data.List.Induction

/-!
# Scripts under another ceiling

A script that is assembled without any failure says all there is to say about its text: under
any other ceiling the same text gives the same items, except that the blocks which stand at
that ceiling are turned away (`Item.pruneAll`, `Script.parse_prune`).

The two assemblies go through the tokens side by side. Below the lower ceiling they agree. From
a block at that ceiling on, the one has open blocks that the other does not have, and the other
counts them in order to find the brace that ends the skipping. `Assembly.prune` is this relation
as a function: it gives the state of the one from the state of the other.

* `Assembly.Builds`: what a token does to an assembly as long as nothing fails.
* `Assembly.Builds.step_prune`: pruning goes along with each of these steps.
-/

namespace GraphScript

namespace Item

mutual

/-- The items without the blocks at the ceiling, where so many blocks are around the items. -/
def pruneAll (ceiling around : Nat) : List Item → List Item
  | [] => []
  | item :: rest => item.prune ceiling around :: pruneAll ceiling around rest

/-- The item without the blocks at the ceiling: each of them is a broken item on the line of
    its header. -/
def prune (ceiling around : Nat) : Item → Item
  | .statement line text => .statement line text
  | .block line header body =>
    if around = ceiling then .broken line (.tooDeep ceiling)
    else .block line header (pruneAll ceiling (around + 1) body)
  | .broken line error => .broken line error

end

theorem pruneAll_append (ceiling around : Nat) (items more : List Item) :
    pruneAll ceiling around (items ++ more) =
      pruneAll ceiling around items ++ pruneAll ceiling around more := by
  induction items with
  | nil => rfl
  | cons item items ih => rw [List.cons_append, pruneAll, pruneAll, ih, List.cons_append]

theorem prune_block_ceiling (ceiling line : Nat) (header : Header) (body : List Item) :
    (Item.block line header body).prune ceiling ceiling = .broken line (.tooDeep ceiling) := by
  rw [prune, if_pos rfl]

theorem prune_block {ceiling around : Nat} (h : around ≠ ceiling) (line : Nat) (header : Header)
    (body : List Item) :
    (Item.block line header body).prune ceiling around =
      .block line header (pruneAll ceiling (around + 1) body) := by
  rw [prune, if_neg h]

mutual

/-- Below the ceiling there is nothing to prune. -/
theorem pruneAll_of_below {ceiling : Nat} : ∀ {around : Nat} {items : List Item},
    Below ceiling around items → pruneAll ceiling around items = items
  | _, [], _ => rfl
  | around, item :: rest, h => by
    have hitem := h.mono (List.cons_subset_cons item (List.nil_subset rest))
    rw [pruneAll, prune_of_below hitem, pruneAll_of_below (h.mono (List.subset_cons_self item rest))]

theorem prune_of_below {ceiling : Nat} : ∀ {around : Nat} {item : Item},
    Below ceiling around [item] → item.prune ceiling around = item
  | _, .statement line text, _ => rfl
  | around, .block line header body, h => by
    obtain ⟨hlt, hbody⟩ := h.body (List.mem_singleton_self _)
    rw [prune_block (Nat.ne_of_lt hlt), pruneAll_of_below hbody]
  | _, .broken line error, _ => rfl

end

mutual

/-- Pruning adds no statements. -/
theorem textsOf_pruneAll_subset (ceiling : Nat) : ∀ (around : Nat) (items : List Item),
    textsOf (pruneAll ceiling around items) ⊆ textsOf items
  | _, [] => List.Subset.refl _
  | around, item :: rest => by
    rw [pruneAll, textsOf, textsOf]
    exact List.append_subset.2
      ⟨List.subset_append_of_subset_left _ (texts_prune_subset ceiling around item),
        List.subset_append_of_subset_right _ (textsOf_pruneAll_subset ceiling around rest)⟩

theorem texts_prune_subset (ceiling : Nat) : ∀ (around : Nat) (item : Item),
    (item.prune ceiling around).texts ⊆ item.texts
  | _, .statement line text => List.Subset.refl _
  | around, .block line header body => by
    rw [prune]
    split
    · rw [texts]
      exact List.nil_subset _
    · rw [texts, texts]
      exact textsOf_pruneAll_subset ceiling (around + 1) body
  | _, .broken line error => List.Subset.refl _

end

end Item

namespace Assembly

/-! ### Steps without failures -/

/-- Nothing that is assembled so far has failed. -/
structure Faultless (a : Assembly) : Prop where
  items : Item.diagnosticsOf a.items = []
  frames : ∀ f ∈ a.frames, Item.diagnosticsOf f.body = []

/-- What a token does when nothing fails. -/
inductive Builds (a : Assembly) : Token → Assembly → Prop
  | statement (line : Nat) (text : String) :
      Builds a (.statement line text) (a.push (.statement line text))
  | opening (line : Nat) (header : String) :
      Builds a (.opening line header)
        { a with frames := { line := line, header := header, body := [] } :: a.frames }
  | closing (line : Nat) {f : Frame} {outer : List Frame} {header : Header}
      (hframes : a.frames = f :: outer) (hheader : Header.parse f.header = .ok header) :
      Builds a (.closing line) ({ a with frames := outer }.push (.block f.line header f.body))

theorem Builds.skipping_eq {a a' : Assembly} {token : Token} (h : a.Builds token a') :
    a'.skipping = a.skipping := by
  cases h with
  | statement line text => exact skipping_push a _
  | opening line header => rfl
  | closing line hframes hheader => exact skipping_push _ _

theorem diagnosticsOf_append (items more : List Item) :
    Item.diagnosticsOf (items ++ more) = Item.diagnosticsOf items ++ Item.diagnosticsOf more := by
  simp only [Item.diagnosticsOf_eq_flatMap, List.flatMap_append]

namespace Faultless

variable {a : Assembly} {ceiling : Nat}

/-- What is pushed has not failed either. -/
theorem of_push {item : Item} (h : (a.push item).Faultless) :
    a.Faultless ∧ item.diagnostics = [] := by
  obtain ⟨items, frames, skipping⟩ := a
  obtain ⟨hitems, hframes⟩ := h
  cases frames with
  | nil =>
    rw [push, diagnosticsOf_append, List.append_eq_nil_iff] at hitems
    obtain ⟨hold, hnew⟩ := hitems
    exact ⟨⟨hold, hframes⟩, by simpa [Item.diagnosticsOf] using hnew⟩
  | cons f outer =>
    obtain ⟨hbody, houter⟩ := List.forall_mem_cons.1 hframes
    rw [diagnosticsOf_append, List.append_eq_nil_iff] at hbody
    obtain ⟨hold, hnew⟩ := hbody
    exact ⟨⟨hitems, List.forall_mem_cons.2 ⟨hold, houter⟩⟩,
      by simpa [Item.diagnosticsOf] using hnew⟩

/-- A broken item is a failure. -/
theorem not_push_broken {line : Nat} {error : Error} : ¬(a.push (.broken line error)).Faultless := by
  intro h
  have hdiagnostics := h.of_push.2
  rw [Item.diagnostics] at hdiagnostics
  cases hdiagnostics

/-- A block that is closed without a failure has a header that can be read. -/
theorem of_close {f : Frame} (h : f.close.diagnostics = []) :
    ∃ header, Header.parse f.header = .ok header ∧ f.close = .block f.line header f.body ∧
      Item.diagnosticsOf f.body = [] := by
  rw [Frame.close] at h ⊢
  split at h
  · rename_i header hheader
    rw [Item.diagnostics] at h
    exact ⟨header, hheader, rfl, h⟩
  · rw [Item.diagnostics] at h
    cases h

/-- A step after which nothing has failed is one of the listed ones, and nothing had failed
    before it. -/
theorem builds (hskip : a.skipping = 0) {token : Token} (h : (step ceiling a token).Faultless) :
    a.Faultless ∧ a.Builds token (step ceiling a token) := by
  have htakes := takes_step ceiling a token
  generalize step ceiling a token = a' at htakes h ⊢
  cases htakes with
  | skipped hpos => exact absurd hskip (Nat.ne_of_gt hpos)
  | statement _ line text => exact ⟨h.of_push.1, .statement line text⟩
  | unterminated | stray => exact absurd h not_push_broken
  | opened _ hceiling line header =>
    exact ⟨⟨h.items, (List.forall_mem_cons.1 h.frames).2⟩, .opening line header⟩
  | turnedAway => exact absurd ⟨h.items, h.frames⟩ (not_push_broken (a := a))
  | @closed _ f outer hframes line =>
    obtain ⟨⟨hitems, houter⟩, hclose⟩ := h.of_push
    obtain ⟨header, hheader, heq, hbody⟩ := of_close hclose
    rw [heq]
    refine ⟨⟨hitems, ?_⟩, .closing line hframes hheader⟩
    rw [hframes]
    exact List.forall_mem_cons.2 ⟨hbody, houter⟩

/-- While a block is skipped, what is assembled stays as it is. -/
theorem of_skipping (hskip : 0 < a.skipping) {token : Token}
    (h : (step ceiling a token).Faultless) : a.Faultless := by
  rw [step_skipping hskip] at h
  cases token <;> exact ⟨h.items, h.frames⟩

/-- At the end, no block is open. -/
theorem of_finish (h : Item.diagnosticsOf a.finish = []) : a.Faultless ∧ a.frames = [] := by
  cases hlast : a.frames.getLast? with
  | none =>
    have hframes := List.getLast?_eq_none_iff.1 hlast
    rw [finish_of_frames_eq_nil hframes] at h
    refine ⟨⟨h, ?_⟩, hframes⟩
    rw [hframes]
    exact fun f hf => absurd hf List.not_mem_nil
  | some outermost =>
    rw [finish_of_getLast? hlast, diagnosticsOf_append, Frame.abandon, List.append_eq_nil_iff] at h
    cases h.2

end Faultless

/-! ### Pruning -/

/-- The state of the assembly under a ceiling, from the items outside of all blocks and the open
    blocks under a higher one. An open block at the ceiling is turned away, and those within it
    are counted. -/
def pruneFrames (ceiling : Nat) (items : List Item) : List Frame → Assembly
  | [] => { items := Item.pruneAll ceiling 0 items, frames := [], skipping := 0 }
  | f :: outer =>
    let a := pruneFrames ceiling items outer
    if outer.length < ceiling then
      { a with
        frames := { f with body := Item.pruneAll ceiling (outer.length + 1) f.body } :: a.frames }
    else if outer.length = ceiling then
      { a.push (.broken f.line (.tooDeep ceiling)) with skipping := 1 }
    else { a with skipping := a.skipping + 1 }

/-- The state of the assembly under a ceiling, from that under a higher one. -/
def prune (ceiling : Nat) (a : Assembly) : Assembly :=
  pruneFrames ceiling a.items a.frames

section

variable {ceiling : Nat} {items : List Item} {f : Frame} {outer : List Frame}

theorem pruneFrames_below (h : outer.length < ceiling) :
    pruneFrames ceiling items (f :: outer) =
      { pruneFrames ceiling items outer with
        frames := { f with body := Item.pruneAll ceiling (outer.length + 1) f.body } ::
          (pruneFrames ceiling items outer).frames } :=
  if_pos h

theorem pruneFrames_at (h : outer.length = ceiling) :
    pruneFrames ceiling items (f :: outer) =
      { (pruneFrames ceiling items outer).push (.broken f.line (.tooDeep ceiling)) with
        skipping := 1 } := by
  rw [pruneFrames, if_neg (Nat.not_lt.2 (Nat.le_of_eq h.symm)), if_pos h]

theorem pruneFrames_beyond (h : ceiling < outer.length) :
    pruneFrames ceiling items (f :: outer) =
      { pruneFrames ceiling items outer with
        skipping := (pruneFrames ceiling items outer).skipping + 1 } := by
  rw [pruneFrames, if_neg (Nat.not_lt.2 (Nat.le_of_lt h)), if_neg (Nat.ne_of_gt h)]

/-- The open blocks below the ceiling stay open, and the others are counted. -/
theorem pruneFrames_depth (ceiling : Nat) (items : List Item) (frames : List Frame) :
    (pruneFrames ceiling items frames).frames.length = min frames.length ceiling ∧
      (pruneFrames ceiling items frames).skipping = frames.length - ceiling := by
  induction frames with
  | nil => exact ⟨(Nat.zero_min ceiling).symm, (Nat.zero_sub ceiling).symm⟩
  | cons f outer ih =>
    rcases Nat.lt_trichotomy outer.length ceiling with hlt | heq | hgt
    · rw [pruneFrames_below hlt]
      simp only [List.length_cons]
      omega
    · rw [pruneFrames_at heq]
      simp only [List.length_cons, length_frames_push]
      omega
    · rw [pruneFrames_beyond hgt]
      simp only [List.length_cons]
      omega

/-- Within a block that is turned away, nothing more is assembled. -/
theorem prune_push (a : Assembly) (item : Item) :
    (a.push item).prune ceiling =
      if a.frames.length ≤ ceiling then (a.prune ceiling).push (item.prune ceiling a.frames.length)
      else a.prune ceiling := by
  obtain ⟨items, frames, skipping⟩ := a
  cases frames with
  | nil => simp [prune, push, pruneFrames, Item.pruneAll_append, Item.pruneAll]
  | cons f outer =>
    by_cases hbelow : outer.length < ceiling
    · have hle : outer.length + 1 ≤ ceiling := hbelow
      simp [prune, push, pruneFrames_below hbelow, hle, Item.pruneAll_append, Item.pruneAll]
    · have hgt : ¬outer.length + 1 ≤ ceiling := hbelow
      simp [prune, push, pruneFrames, hbelow, hgt]

/-- The brace that ends the skipping. -/
theorem skip_closing_last {a : Assembly} (h : a.skipping = 0) (line : Nat) :
    { a with skipping := 1 }.skip (.closing line) = a := by
  obtain ⟨items, frames, skipping⟩ := a
  cases h
  rfl

/-- The brace that closes a block closes it under the ceiling too. There it may be the one that
    ends the skipping. -/
theorem step_closing_pruneFrames {header : Header} (hheader : Header.parse f.header = .ok header)
    (line : Nat) :
    step ceiling (pruneFrames ceiling items (f :: outer)) (.closing line) =
      if outer.length ≤ ceiling then
        (pruneFrames ceiling items outer).push
          ((Item.block f.line header f.body).prune ceiling outer.length)
      else pruneFrames ceiling items outer := by
  have hskipping := (pruneFrames_depth ceiling items outer).2
  rcases Nat.lt_trichotomy outer.length ceiling with hlt | heq | hgt
  · -- The block is open under both ceilings.
    have hskip : (pruneFrames ceiling items outer).skipping = 0 := by omega
    rw [pruneFrames_below hlt, if_pos (Nat.le_of_lt hlt), Item.prune_block (Nat.ne_of_lt hlt)]
    refine (step_closing_top hskip _ line).trans ?_
    simp only [Frame.close, hheader]
  · -- The block was turned away, and nothing is skipped any more.
    have hskip : (pruneFrames ceiling items outer).skipping = 0 := by omega
    rw [pruneFrames_at heq, if_pos (Nat.le_of_eq heq), heq, Item.prune_block_ceiling,
      step_skipping Nat.zero_lt_one]
    exact skip_closing_last (by rw [skipping_push, hskip]) line
  · -- The block stands within one that was turned away.
    rw [pruneFrames_beyond hgt, if_neg (Nat.not_le.2 hgt), step_skipping (Nat.succ_pos _), skip,
      Nat.add_sub_cancel]

/-- Pruning goes along with a step at which nothing fails. -/
theorem Builds.step_prune {a a' : Assembly} {token : Token} (h : a.Builds token a') :
    step ceiling (a.prune ceiling) token = a'.prune ceiling := by
  obtain ⟨hlength, hskipping⟩ := pruneFrames_depth ceiling a.items a.frames
  cases h with
  | statement line text =>
    rw [prune_push, Item.prune]
    split
    · exact step_statement (by rw [prune]; omega) line text
    · rw [step_skipping (by rw [prune]; omega), skip]
  | opening line header =>
    rcases Nat.lt_trichotomy a.frames.length ceiling with hlt | heq | hgt
    · rw [prune, prune, pruneFrames_below hlt, Item.pruneAll]
      exact step_opening (by omega) (by omega) line header
    · rw [prune, prune, pruneFrames_at heq]
      exact step_opening_skips (by omega) (by omega) line header
    · rw [prune, prune, pruneFrames_beyond hgt, step_skipping (by omega), skip]
  | closing line hframes hheader =>
    rw [prune_push, prune, hframes, step_closing_pruneFrames hheader]
    rfl

/-- Two assemblies side by side: as long as nothing fails in the one, the other is what pruning
    makes of it. -/
theorem ofTokens_prune (ceiling : Nat) {higher : Nat} (tokens : List Token)
    (h : (ofTokens higher tokens).Faultless) :
    (ofTokens higher tokens).skipping = 0 ∧
      ofTokens ceiling tokens = (ofTokens higher tokens).prune ceiling := by
  -- The tokens are taken from the end: what has not failed in the end has not failed before.
  induction tokens using List.reverseRecOn with
  | nil => exact ⟨rfl, rfl⟩
  | append_singleton tokens token ih =>
    rw [ofTokens_concat] at h
    rw [ofTokens_concat, ofTokens_concat]
    have hbefore : (ofTokens higher tokens).Faultless := by
      rcases Nat.eq_zero_or_pos (ofTokens higher tokens).skipping with hskip | hskip
      · exact (h.builds hskip).1
      · exact h.of_skipping hskip
    obtain ⟨hskip, hprune⟩ := ih hbefore
    have hbuilds := (h.builds hskip).2
    exact ⟨hbuilds.skipping_eq.trans hskip, hprune ▸ hbuilds.step_prune⟩

/-- What is assembled without a failure is pruned at every other ceiling. -/
theorem finish_ofTokens_prune {higher : Nat} {tokens : List Token}
    (h : Item.diagnosticsOf (ofTokens higher tokens).finish = []) :
    (ofTokens ceiling tokens).finish = Item.pruneAll ceiling 0 (ofTokens higher tokens).finish := by
  obtain ⟨hfaultless, hframes⟩ := Faultless.of_finish h
  obtain ⟨-, hprune⟩ := ofTokens_prune ceiling tokens hfaultless
  rw [hprune, prune, hframes, pruneFrames, finish_of_frames_eq_nil hframes]
  rfl

end

end Assembly

namespace Script

/-- Another ceiling only prunes. If a text is read without failures under one ceiling, then
    under any other it gives the same items, with one broken item in the place of each block
    that has as many blocks around it as the other ceiling allows. In particular all that
    follows such a block stays what it is and where it is. -/
theorem parse_prune {source : String} {ceiling : Nat} (h : (parse source ceiling).diagnostics = [])
    (lower : Nat) :
    (parse source lower).items = Item.pruneAll lower 0 (parse source ceiling).items := by
  rw [diagnostics, parse_eq] at h
  rw [parse_eq, parse_eq]
  exact Assembly.finish_ofTokens_prune h

/-- Two blocks at the ceiling, of which the first holds further blocks, and a statement behind
    each of them. -/
theorem parse_prune_siblings :
    let source := "If IS_TREE \x7b\n  While IS_TREE \x7b For i = 1 to 2 \x7b Reset. \x7d Reset. \x7d\n" ++
      "  Create Node a.\n  If IS_TREE \x7b \x7d\n\x7d\nCreate Node b."
    (parse source 3).diagnostics = [] ∧
      (parse source 1).items = Item.pruneAll 1 0 (parse source 3).items ∧
      (parse source 1).diagnostics =
        [.ofError 2 (.malformed "Blocks nest deeper than 1 levels."),
          .ofError 4 (.malformed "Blocks nest deeper than 1 levels.")] ∧
      (parse source 1).statementCount = 2 := by
  intro source
  have hclean : (parse source 3).diagnostics = [] := by decide +kernel
  have hprune := parse_prune hclean 1
  refine ⟨hclean, hprune, ?_, ?_⟩
  · rw [diagnostics, hprune]
    decide +kernel
  · rw [statementCount, hprune]
    decide +kernel

end Script

end GraphScript
