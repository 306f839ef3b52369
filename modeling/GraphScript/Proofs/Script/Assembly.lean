import GraphScript.Proofs.Script.Token
import GraphScript.Script.Item

/-!
# Assembly of scripts

What a token does to an assembly is told case by case (`Assembly.Takes`), and what all tokens keep
follows from these cases. At the end the open blocks are given up one into the other, which comes
down to a report on the outermost of them (`Assembly.finish_eq`).

The items of a script are assembled from its tokens one by one, so a text can be assembled in
two parts. The second part finds nothing left over from the first if this leaves no block open
(`Assembly.Closed`); its items then follow those of the first, on lines further down
(`Script.items_unlines_append`).

How many blocks are open depends on the braces alone, and not on the ceiling: a block at the
ceiling is skipped, but its braces still count (`Assembly.depth_ofTokens`).
-/

namespace GraphScript

/-! ### Steps -/

namespace Assembly

variable {ceiling : Nat} {a : Assembly}

/-- Within a block that is skipped, only braces matter. -/
theorem step_skipping (h : 0 < a.skipping) (token : Token) : step ceiling a token = a.skip token :=
  if_pos h

theorem step_statement (h : a.skipping = 0) (line : Nat) (text : String) :
    step ceiling a (.statement line text) = a.push (.statement line text) := by
  simp [step, h]

theorem step_unterminated (h : a.skipping = 0) (line : Nat) :
    step ceiling a (.unterminated line) =
      a.push (.broken line (.malformed "Each statement must end with a period.")) := by
  simp [step, h]

/-- A block at the ceiling is skipped. -/
theorem step_opening_skips (h : a.skipping = 0) (hceiling : ceiling ≤ a.frames.length)
    (line : Nat) (header : String) :
    step ceiling a (.opening line header) =
      { a.push (.broken line (.tooDeep ceiling)) with skipping := 1 } := by
  simp [step, h, hceiling]

theorem step_opening (h : a.skipping = 0) (hceiling : a.frames.length < ceiling) (line : Nat)
    (header : String) :
    step ceiling a (.opening line header) =
      { a with frames := { line := line, header := header, body := [] } :: a.frames } := by
  simp [step, h, hceiling]

theorem step_closing_stray (h : a.skipping = 0) (hframes : a.frames = []) (line : Nat) :
    step ceiling a (.closing line) =
      a.push (.broken line (.malformed "Unexpected closing brace.")) := by
  simp [step, h, hframes]

/-- A closing brace closes the innermost block, which goes into the one around it. -/
theorem step_closing (h : a.skipping = 0) {f : Frame} {outer : List Frame}
    (hframes : a.frames = f :: outer) (line : Nat) :
    step ceiling a (.closing line) = { a with frames := outer }.push f.close := by
  simp [step, h, hframes]

theorem step_closing_top (h : a.skipping = 0) (f : Frame) (line : Nat) :
    step ceiling { a with frames := f :: a.frames } (.closing line) = a.push f.close :=
  step_closing (a := { a with frames := f :: a.frames }) h rfl line

/-- What a token does to an assembly, case by case. -/
inductive Takes (ceiling : Nat) (a : Assembly) : Token → Assembly → Prop
  | skipped (hskip : 0 < a.skipping) (token : Token) : Takes ceiling a token (a.skip token)
  | statement (hskip : a.skipping = 0) (line : Nat) (text : String) :
      Takes ceiling a (.statement line text) (a.push (.statement line text))
  | unterminated (hskip : a.skipping = 0) (line : Nat) :
      Takes ceiling a (.unterminated line)
        (a.push (.broken line (.malformed "Each statement must end with a period.")))
  | opened (hskip : a.skipping = 0) (hceiling : a.frames.length < ceiling) (line : Nat)
      (header : String) :
      Takes ceiling a (.opening line header)
        { a with frames := { line := line, header := header, body := [] } :: a.frames }
  | turnedAway (hskip : a.skipping = 0) (hceiling : ceiling ≤ a.frames.length) (line : Nat)
      (header : String) :
      Takes ceiling a (.opening line header)
        { a.push (.broken line (.tooDeep ceiling)) with skipping := 1 }
  | stray (hskip : a.skipping = 0) (hframes : a.frames = []) (line : Nat) :
      Takes ceiling a (.closing line)
        (a.push (.broken line (.malformed "Unexpected closing brace.")))
  | closed (hskip : a.skipping = 0) {f : Frame} {outer : List Frame}
      (hframes : a.frames = f :: outer) (line : Nat) :
      Takes ceiling a (.closing line) ({ a with frames := outer }.push f.close)

/-- The cases are all there are. -/
theorem takes_step (ceiling : Nat) (a : Assembly) (token : Token) :
    a.Takes ceiling token (step ceiling a token) := by
  rcases Nat.eq_zero_or_pos a.skipping with hskip | hskip
  · cases token with
    | statement line text => exact step_statement hskip line text ▸ .statement hskip line text
    | unterminated line => exact step_unterminated hskip line ▸ .unterminated hskip line
    | opening line header =>
      rcases Nat.lt_or_ge a.frames.length ceiling with hceiling | hceiling
      · exact step_opening hskip hceiling line header ▸ .opened hskip hceiling line header
      · exact step_opening_skips hskip hceiling line header ▸ .turnedAway hskip hceiling line header
    | closing line =>
      cases hframes : a.frames with
      | nil => exact step_closing_stray hskip hframes line ▸ .stray hskip hframes line
      | cons f outer => exact step_closing hskip hframes line ▸ .closed hskip hframes line
  · exact step_skipping hskip token ▸ .skipped hskip token

/-! ### The end of the tokens -/

theorem abandon_push (a : Assembly) (item : Item) :
    (a.push item).frames.map Frame.abandon = a.frames.map Frame.abandon := by
  rw [push]
  split
  · rfl
  · rename_i f outer hframes
    rw [hframes]
    rfl

/-- A block that is given up goes into the block around it, which is given up next, so that the
    report on the outermost block is all that is left. -/
theorem items_giveUp {rounds : Nat} {item : Item} (hrounds : a.frames.length = rounds)
    (hlast : (a.frames.map Frame.abandon).getLast? = some item) :
    (giveUp rounds a).items = a.items ++ [item] := by
  induction rounds generalizing a with
  | zero =>
    rw [List.length_eq_zero_iff.1 hrounds] at hlast
    cases hlast
  | succ rounds ih =>
    obtain ⟨f, outer, hframes⟩ := List.exists_cons_of_length_eq_add_one hrounds
    rw [hframes] at hrounds hlast
    rw [giveUp, hframes]
    dsimp only
    cases outer with
    | nil =>
      cases hrounds
      cases hlast
      rfl
    | cons around outer =>
      refine ih (Nat.succ.inj hrounds) ?_
      rw [abandon_push]
      exact hlast

/-- At the end, the outermost of the open blocks is reported. -/
theorem finish_eq (a : Assembly) :
    a.finish = a.items ++ (a.frames.getLast?.map Frame.abandon).toList := by
  cases hlast : a.frames.getLast? with
  | none =>
    rw [finish, List.getLast?_eq_none_iff.1 hlast]
    exact (List.append_nil _).symm
  | some f =>
    refine items_giveUp rfl ?_
    rw [List.getLast?_map, hlast]
    rfl

theorem finish_of_frames_eq_nil (h : a.frames = []) : a.finish = a.items := by
  rw [finish_eq, h]
  exact List.append_nil _

theorem finish_of_getLast? {f : Frame} (h : a.frames.getLast? = some f) :
    a.finish = a.items ++ [f.abandon] := by
  rw [finish_eq, h]
  rfl

end Assembly

/-! ### Items further down -/

mutual

/-- The items on lines further down. -/
def Item.shiftAll (n : Nat) : List Item → List Item
  | [] => []
  | item :: rest => item.shift n :: Item.shiftAll n rest

/-- The item on a line further down, with all that it holds. -/
def Item.shift (n : Nat) : Item → Item
  | .statement line text => .statement (line + n) text
  | .block line header body => .block (line + n) header (Item.shiftAll n body)
  | .broken line error => .broken (line + n) error

end

theorem Item.shiftAll_append (n : Nat) (items more : List Item) :
    Item.shiftAll n (items ++ more) = Item.shiftAll n items ++ Item.shiftAll n more := by
  induction items with
  | nil => rfl
  | cons item items ih => rw [List.cons_append, shiftAll, shiftAll, ih, List.cons_append]

/-- The block on a line further down. -/
def Frame.shift (n : Nat) (f : Frame) : Frame where
  line := f.line + n
  header := f.header
  body := Item.shiftAll n f.body

theorem Frame.close_shift (n : Nat) (f : Frame) : (f.shift n).close = f.close.shift n := by
  rw [Frame.close, Frame.close, Frame.shift]
  dsimp only
  split
  · rw [Item.shift]
  · rw [Item.shift]

namespace Assembly

/-- All that is assembled, on lines further down. -/
def shift (n : Nat) (a : Assembly) : Assembly where
  items := Item.shiftAll n a.items
  frames := a.frames.map (Frame.shift n)
  skipping := a.skipping

/-- Lines further down do not change where an item goes. -/
theorem push_shift (n : Nat) (a : Assembly) (item : Item) :
    (a.shift n).push (item.shift n) = (a.push item).shift n := by
  obtain ⟨items, frames, skipping⟩ := a
  cases frames with
  | nil => simp [shift, push, Item.shiftAll_append, Item.shiftAll]
  | cons f outer => simp [shift, push, Frame.shift, Item.shiftAll_append, Item.shiftAll]

/-- A token further down does the same further down. -/
theorem step_shift (ceiling n : Nat) (a : Assembly) (token : Token) :
    step ceiling (a.shift n) (token.shift n) = (step ceiling a token).shift n := by
  rcases Nat.eq_zero_or_pos a.skipping with hskip | hskip
  · have hskip' : (a.shift n).skipping = 0 := hskip
    cases token with
    | statement line text =>
      rw [Token.shift, step_statement hskip', step_statement hskip, ← push_shift, Item.shift]
    | unterminated line =>
      rw [Token.shift, step_unterminated hskip', step_unterminated hskip, ← push_shift, Item.shift]
    | opening line header =>
      -- As many blocks are open, so the ceiling is met or not in both.
      have hlength : (a.shift n).frames.length = a.frames.length := List.length_map ..
      rcases Nat.lt_or_ge a.frames.length ceiling with hceiling | hceiling
      · rw [Token.shift, step_opening hskip' (hlength ▸ hceiling), step_opening hskip hceiling]
        simp [shift, Frame.shift, Item.shiftAll]
      · have hpush := push_shift n a (.broken line (.tooDeep ceiling))
        rw [Item.shift] at hpush
        rw [Token.shift, step_opening_skips hskip' (hlength ▸ hceiling),
          step_opening_skips hskip hceiling, hpush]
        rfl
    | closing line =>
      cases hframes : a.frames with
      | nil =>
        have hframes' : (a.shift n).frames = [] := by simp [shift, hframes]
        rw [Token.shift, step_closing_stray hskip' hframes', step_closing_stray hskip hframes,
          ← push_shift, Item.shift]
      | cons f outer =>
        have hframes' : (a.shift n).frames = f.shift n :: outer.map (Frame.shift n) := by
          simp [shift, hframes]
        rw [Token.shift, step_closing hskip' hframes', step_closing hskip hframes, ← push_shift,
          Frame.close_shift]
        rfl
  · rw [step_skipping hskip, step_skipping (show 0 < (a.shift n).skipping from hskip)]
    cases token <;> rfl

/-- What is given up at the end is on a line further down as well. -/
theorem finish_shift (n : Nat) (a : Assembly) : (a.shift n).finish = Item.shiftAll n a.finish := by
  rw [finish_eq, finish_eq, Item.shiftAll_append, shift, List.getLast?_map]
  cases a.frames.getLast? with
  | none => rfl
  | some f =>
    rw [Option.map_some, Option.map_some, Option.map_some, Option.toList_some, Option.toList_some,
      Item.shiftAll, Item.shiftAll, Frame.abandon, Frame.abandon, Item.shift]
    rfl

/-! ### Items in front -/

/-- The assembly with items in front of all that it holds. -/
def behind (items : List Item) (a : Assembly) : Assembly :=
  { a with items := items ++ a.items }

theorem push_behind (items : List Item) (a : Assembly) (item : Item) :
    (a.behind items).push item = (a.push item).behind items := by
  obtain ⟨own, frames, skipping⟩ := a
  cases frames with
  | nil => simp [behind, push]
  | cons f outer => rfl

/-- No token looks at the items that are finished. -/
theorem step_behind (ceiling : Nat) (items : List Item) (a : Assembly) (token : Token) :
    step ceiling (a.behind items) token = (step ceiling a token).behind items := by
  rcases Nat.eq_zero_or_pos a.skipping with hskip | hskip
  · have hskip' : (a.behind items).skipping = 0 := hskip
    cases token with
    | statement line text =>
      rw [step_statement hskip', step_statement hskip, push_behind]
    | unterminated line =>
      rw [step_unterminated hskip', step_unterminated hskip, push_behind]
    | opening line header =>
      rcases Nat.lt_or_ge a.frames.length ceiling with hceiling | hceiling
      · rw [step_opening hskip' hceiling, step_opening hskip hceiling]
        rfl
      · rw [step_opening_skips hskip' hceiling, step_opening_skips hskip hceiling, push_behind]
        rfl
    | closing line =>
      cases hframes : a.frames with
      | nil => rw [step_closing_stray hskip' hframes, step_closing_stray hskip hframes, push_behind]
      | cons f outer =>
        rw [step_closing hskip' hframes, step_closing hskip hframes, ← push_behind]
        rfl
  · rw [step_skipping hskip, step_skipping (show 0 < (a.behind items).skipping from hskip)]
    cases token <;> rfl

theorem finish_behind (items : List Item) (a : Assembly) :
    (a.behind items).finish = items ++ a.finish := by
  rw [finish_eq, finish_eq, ← List.append_assoc]
  rfl

/-! ### Two parts -/

/-- What is assembled from tokens. -/
def ofTokens (ceiling : Nat) (tokens : List Token) : Assembly :=
  tokens.foldl (step ceiling) start

theorem ofTokens_concat (ceiling : Nat) (tokens : List Token) (token : Token) :
    ofTokens ceiling (tokens ++ [token]) = step ceiling (ofTokens ceiling tokens) token := by
  rw [ofTokens, List.foldl_append]
  rfl

/-- No block is open, and none is being skipped. -/
def Closed (a : Assembly) : Prop :=
  a.frames = [] ∧ a.skipping = 0

theorem ofTokens_shift (ceiling n : Nat) (tokens : List Token) :
    ofTokens ceiling (tokens.map (Token.shift n)) = (ofTokens ceiling tokens).shift n := by
  rw [ofTokens, ofTokens, List.foldl_map]
  -- Nothing assembled is the same anywhere.
  change List.foldl _ (start.shift n) tokens = _
  exact List.foldl_hom (shift n) fun a token => step_shift ceiling n a token

/-- Behind tokens that leave no block open, others are assembled as they are on their own. -/
theorem ofTokens_append {ceiling : Nat} {tokens : List Token}
    (h : (ofTokens ceiling tokens).Closed) (more : List Token) :
    ofTokens ceiling (tokens ++ more) =
      (ofTokens ceiling more).behind (ofTokens ceiling tokens).items := by
  have hstart : ofTokens ceiling tokens = start.behind (ofTokens ceiling tokens).items := by
    obtain ⟨hframes, hskipping⟩ := h
    generalize ofTokens ceiling tokens = a at *
    obtain ⟨items, frames, skipping⟩ := a
    subst hframes hskipping
    simp [behind, start]
  calc ofTokens ceiling (tokens ++ more)
      = more.foldl (step ceiling) (start.behind (ofTokens ceiling tokens).items) := by
        rw [← hstart, ofTokens, List.foldl_append, ofTokens]
    _ = (ofTokens ceiling more).behind (ofTokens ceiling tokens).items :=
        List.foldl_hom (behind _) fun a token => step_behind ceiling _ a token

theorem Closed.finish_eq {a : Assembly} (h : a.Closed) : a.finish = a.items :=
  finish_of_frames_eq_nil h.1

/-! ### Open blocks -/

/-- The number of closing braces that are missing. -/
def depth (a : Assembly) : Nat :=
  a.frames.length + a.skipping

theorem closed_iff_depth {a : Assembly} : a.Closed ↔ a.depth = 0 := by
  rw [Closed, depth, Nat.add_eq_zero_iff, List.length_eq_zero_iff]

theorem length_frames_push (a : Assembly) (item : Item) :
    (a.push item).frames.length = a.frames.length := by
  rw [push]
  split
  · rfl
  · simp [*]

theorem skipping_push (a : Assembly) (item : Item) : (a.push item).skipping = a.skipping := by
  rw [push]
  split <;> rfl

theorem depth_push (a : Assembly) (item : Item) : (a.push item).depth = a.depth := by
  rw [depth, depth, length_frames_push, skipping_push]

end Assembly

/-- The number of blocks open behind a token, from the number of those open before it. -/
def Token.depthAfter (depth : Nat) : Token → Nat
  | .opening .. => depth + 1
  | .closing _ => depth - 1
  | .statement .. | .unterminated _ => depth

namespace Assembly

/-- A block that is skipped counts as an open one, so that the ceiling does not matter. -/
theorem depth_step (ceiling : Nat) (a : Assembly) (token : Token) :
    (step ceiling a token).depth = token.depthAfter a.depth := by
  have hdepth (hskip : a.skipping = 0) : a.depth = a.frames.length := by
    rw [depth, hskip, Nat.add_zero]
  have htakes := takes_step ceiling a token
  generalize step ceiling a token = a' at htakes ⊢
  cases htakes with
  | skipped hskip =>
    cases token with
    | statement line text => rfl
    | unterminated line => rfl
    | opening line header => rfl
    | closing line => exact (Nat.add_sub_assoc hskip _).symm
  | statement | unterminated => exact depth_push a _
  | opened hskip =>
    rw [Token.depthAfter, hdepth hskip, depth, hskip, Nat.add_zero, List.length_cons]
  | turnedAway hskip => rw [Token.depthAfter, hdepth hskip, depth, length_frames_push]
  | stray hskip hframes =>
    -- A stray brace leaves the depth at zero, which is where the subtraction stops.
    rw [Token.depthAfter, depth_push, hdepth hskip, hframes, List.length_nil]
  | closed hskip hframes =>
    rw [Token.depthAfter, hdepth hskip, depth_push, depth, hskip, Nat.add_zero, hframes,
      List.length_cons, Nat.add_sub_cancel]

/-- How many blocks are open is a matter of the braces, whatever the ceiling is. -/
theorem depth_ofTokens (ceiling : Nat) (tokens : List Token) :
    (ofTokens ceiling tokens).depth = tokens.foldl Token.depthAfter 0 :=
  (List.foldl_hom depth fun a token => (depth_step ceiling a token).symm).symm

end Assembly

namespace Script

theorem parse_eq (source : String) (ceiling : Nat) :
    (parse source ceiling).items = (Assembly.ofTokens ceiling (Token.scan source)).finish := rfl

/-- The items of a text in two parts, of which the first leaves no block open. -/
theorem items_unlines_append {ceiling : Nat} {ls : List (List Char)} (hls : ∀ l ∈ ls, '\n' ∉ l)
    (hclosed : (Assembly.ofTokens ceiling (Token.ofLines 1 ls)).Closed) (rest : List Char) :
    (parse (String.ofList (Text.unlines ls ++ rest)) ceiling).items =
      (parse (String.ofList (Text.unlines ls)) ceiling).items ++
        Item.shiftAll ls.length (parse (String.ofList rest) ceiling).items := by
  simp only [parse_eq, Token.scan, String.toList_ofList, Text.lines_unlines_append hls,
    Text.lines_unlines hls]
  rw [Token.ofLines_append, Token.ofLines_add, Assembly.ofTokens_append hclosed,
    Assembly.finish_behind, Assembly.ofTokens_shift, Assembly.finish_shift, hclosed.finish_eq]

end Script

end GraphScript
