import GraphScript.Proofs.Script.Assembly

/-!
# Nesting of blocks

How deep blocks nest is limited twice: the assembly of a script turns away a header at the
ceiling, by the number of blocks that are open, and a run turns away a block at the ceiling,
by the depth at which it comes to it. The first number becomes the second one: an item that is
added while so many blocks are open ends up with so many blocks around it.

* `Item.Inside`: an item is part of others, with a number of blocks around it.
* `Script.inside_lt_ceiling`: the blocks of a script have fewer blocks around them than the
  ceiling says.
* `Item.mem_diagnosticsOf`: a broken item is told among the diagnostics of a script, however
  deep it stands.
-/

namespace GraphScript

namespace Item

/-- The item is part of the items, with the given number of blocks around it. -/
inductive Inside : List Item → Nat → Item → Prop
  | top {items : List Item} {item : Item} (h : item ∈ items) : Inside items 0 item
  | within {items body : List Item} {line n : Nat} {header : Header} {item : Item}
      (hblock : .block line header body ∈ items) (h : Inside body n item) :
      Inside items (n + 1) item

theorem Inside.mono {items more : List Item} {n : Nat} {item : Item} (h : Inside items n item)
    (hsubset : items ⊆ more) : Inside more n item := by
  cases h with
  | top hitem => exact .top (hsubset hitem)
  | within hblock hitem => exact .within (hsubset hblock) hitem

/-- What is inside of two parts is inside of one of them. -/
theorem Inside.append_cases {items more : List Item} {n : Nat} {item : Item}
    (h : Inside (items ++ more) n item) : Inside items n item ∨ Inside more n item := by
  cases h with
  | top hitem => exact (List.mem_append.1 hitem).imp .top .top
  | within hblock hitem =>
    exact (List.mem_append.1 hblock).imp (.within · hitem) (.within · hitem)

theorem diagnosticsOf_eq_flatMap (items : List Item) :
    diagnosticsOf items = items.flatMap diagnostics := by
  induction items with
  | nil => rw [diagnosticsOf, List.flatMap_nil]
  | cons item items ih => rw [diagnosticsOf, List.flatMap_cons, ih]

/-- A broken item is told, however deep it stands. -/
theorem mem_diagnosticsOf {items : List Item} {n line : Nat} {error : Error}
    (h : Inside items n (.broken line error)) :
    Diagnostic.ofError line error ∈ diagnosticsOf items := by
  generalize hitem : Item.broken line error = item at h
  induction h with
  | @top items item hmem =>
    subst hitem
    rw [diagnosticsOf_eq_flatMap]
    refine List.mem_flatMap.2 ⟨_, hmem, ?_⟩
    rw [diagnostics]
    exact List.mem_singleton_self _
  | @within items body line' n header item hblock _ ih =>
    rw [diagnosticsOf_eq_flatMap]
    refine List.mem_flatMap.2 ⟨_, hblock, ?_⟩
    rw [diagnostics]
    exact ih hitem

mutual

/-- The texts of the statements among items, at any depth. -/
def textsOf : List Item → List String
  | [] => []
  | item :: rest => item.texts ++ textsOf rest

/-- The texts of the statements within an item. -/
def texts : Item → List String
  | .statement _ text => [text]
  | .block _ _ body => textsOf body
  | .broken .. => []

end

mutual

/-- The items among others, at any depth. -/
def partsOf : List Item → List Item
  | [] => []
  | item :: rest => item.parts ++ partsOf rest

/-- An item and the items within it. -/
def parts : Item → List Item
  | .statement line text => [.statement line text]
  | .block line header body => .block line header body :: partsOf body
  | .broken line error => [.broken line error]

end

theorem partsOf_append (items more : List Item) :
    partsOf (items ++ more) = partsOf items ++ partsOf more := by
  induction items with
  | nil => rw [partsOf, List.nil_append, List.nil_append]
  | cons item items ih => rw [List.cons_append, partsOf, partsOf, ih, List.append_assoc]

theorem partsOf_singleton (item : Item) : partsOf [item] = item.parts := by
  rw [partsOf, partsOf, List.append_nil]

theorem mem_parts (item : Item) : item ∈ item.parts := by
  cases item <;> simp [parts]

theorem parts_subset_partsOf {items : List Item} {item : Item} (h : item ∈ items) :
    item.parts ⊆ partsOf items := by
  obtain ⟨before, after, rfl⟩ := List.append_of_mem h
  rw [partsOf_append, partsOf]
  exact fun part hpart => List.mem_append_right _ (List.mem_append_left _ hpart)

theorem Inside.mem_partsOf {items : List Item} {n : Nat} {item : Item} (h : Inside items n item) :
    item ∈ partsOf items := by
  induction h with
  | top hmem => exact parts_subset_partsOf hmem (mem_parts _)
  | within hblock _ ih =>
    refine parts_subset_partsOf hblock ?_
    rw [parts]
    exact List.mem_cons_of_mem _ ih

/-- With so many blocks around the items, no block among them exceeds the ceiling. -/
def Below (ceiling around : Nat) (items : List Item) : Prop :=
  ∀ n line header body, Inside items n (.block line header body) → around + n < ceiling

namespace Below

variable {ceiling around : Nat} {items more : List Item}

theorem nil (ceiling around : Nat) : Below ceiling around [] := by
  intro n line header body h
  cases h with
  | top hmem => exact absurd hmem List.not_mem_nil
  | within hblock _ => exact absurd hblock List.not_mem_nil

theorem append (h : Below ceiling around items) (hmore : Below ceiling around more) :
    Below ceiling around (items ++ more) :=
  fun n line header body hblock =>
    hblock.append_cases.elim (h n line header body) (hmore n line header body)

theorem mono (h : Below ceiling around more) (hsubset : items ⊆ more) :
    Below ceiling around items :=
  fun n line header body hblock => h n line header body (hblock.mono hsubset)

theorem statement (ceiling around line : Nat) (text : String) :
    Below ceiling around [.statement line text] := by
  intro n line' header body h
  cases h with
  | top hmem => cases List.mem_singleton.1 hmem
  | within hblock _ => cases List.mem_singleton.1 hblock

theorem broken (ceiling around line : Nat) (error : Error) :
    Below ceiling around [.broken line error] := by
  intro n line' header body h
  cases h with
  | top hmem => cases List.mem_singleton.1 hmem
  | within hblock _ => cases List.mem_singleton.1 hblock

/-- A block has one block less around it than what it holds. -/
theorem block {line : Nat} {header : Header} {body : List Item} (haround : around < ceiling)
    (hbody : Below ceiling (around + 1) body) :
    Below ceiling around [.block line header body] := by
  intro n line' header' body' h
  cases h with
  | top hmem => exact haround
  | within hblock hinside =>
    cases List.mem_singleton.1 hblock
    have := hbody _ _ _ _ hinside
    omega

/-- Blocks below a ceiling are below a higher one. -/
theorem raise {higher : Nat} (h : Below ceiling around items) (hle : ceiling ≤ higher) :
    Below higher around items :=
  fun n line header body hblock => Nat.lt_of_lt_of_le (h n line header body hblock) hle

/-- What a block holds has one block more around it than the block. -/
theorem body {line : Nat} {header : Header} {body : List Item}
    (h : Below ceiling around items) (hblock : .block line header body ∈ items) :
    around < ceiling ∧ Below ceiling (around + 1) body := by
  refine ⟨h 0 line header body (.top hblock), fun n line' header' body' hinside => ?_⟩
  have := h _ _ _ _ (.within hblock hinside)
  omega

end Below

end Item

/-! ### Assembly -/

namespace Assembly

/-- What is assembled stays below the ceiling. The items of an open block have that block and
    the ones outside of it around them. -/
structure Nested (ceiling : Nat) (a : Assembly) : Prop where
  items : Item.Below ceiling 0 a.items
  frames : ∀ f outer, f :: outer <:+ a.frames →
    outer.length < ceiling ∧ Item.Below ceiling (outer.length + 1) f.body

namespace Nested

variable {ceiling : Nat} {a : Assembly}

theorem start (ceiling : Nat) : Assembly.start.Nested ceiling where
  items := Item.Below.nil ceiling 0
  frames _ _ h := by cases List.suffix_nil.1 h

/-- An item can be added that stays below the ceiling with all open blocks around it. -/
theorem push (h : a.Nested ceiling) {item : Item}
    (hitem : Item.Below ceiling a.frames.length [item]) : (a.push item).Nested ceiling := by
  obtain ⟨hitems, hframes⟩ := h
  rw [Assembly.push]
  split
  · rename_i hnil
    rw [hnil] at hitem
    exact ⟨hitems.append hitem, hframes⟩
  · rename_i f outer hcons
    rw [hcons] at hitem
    refine ⟨hitems, fun f' outer' hsuffix => ?_⟩
    rcases List.suffix_cons_iff.1 hsuffix with heq | hsuffix
    · obtain ⟨rfl, rfl⟩ := List.cons.inj heq
      obtain ⟨hlength, hbody⟩ := hframes f outer' (hcons ▸ List.suffix_refl _)
      exact ⟨hlength, hbody.append hitem⟩
    · exact hframes f' outer' (hcons ▸ hsuffix.trans (List.suffix_cons f outer))

/-- Closing a block takes it off the open ones, which are then around it. -/
theorem close (h : a.Nested ceiling) {f : Frame} {outer : List Frame}
    (hframes : a.frames = f :: outer) : ({ a with frames := outer }.push f.close).Nested ceiling := by
  have houter : { a with frames := outer }.Nested ceiling :=
    ⟨h.items, fun f' outer' hsuffix =>
      h.frames f' outer' (hframes ▸ hsuffix.trans (List.suffix_cons f outer))⟩
  refine houter.push ?_
  obtain ⟨hlength, hbody⟩ := h.frames f outer (hframes ▸ List.suffix_refl _)
  rw [Frame.close]
  split
  · exact Item.Below.block hlength hbody
  · exact Item.Below.broken _ _ _ _

/-- A block is put on the stack below the ceiling only, and what is closed goes one level up. -/
theorem step (h : a.Nested ceiling) (token : Token) : (step ceiling a token).Nested ceiling := by
  have htakes := takes_step ceiling a token
  generalize Assembly.step ceiling a token = a' at htakes ⊢
  cases htakes with
  | skipped hskip =>
    -- Skipped tokens leave the items and the open blocks alone.
    cases token <;> exact ⟨h.items, h.frames⟩
  | statement hskip line text => exact h.push (Item.Below.statement _ _ _ _)
  | unterminated | stray => exact h.push (Item.Below.broken _ _ _ _)
  | opened hskip hceiling line header =>
    refine ⟨h.items, fun f outer hsuffix => ?_⟩
    rcases List.suffix_cons_iff.1 hsuffix with heq | hsuffix
    · obtain ⟨rfl, rfl⟩ := List.cons.inj heq
      exact ⟨hceiling, Item.Below.nil _ _⟩
    · exact h.frames f outer hsuffix
  | turnedAway hskip hceiling line header =>
    have hpush := h.push (Item.Below.broken ceiling a.frames.length line (.tooDeep ceiling))
    exact ⟨hpush.items, hpush.frames⟩
  | closed hskip hframes line => exact h.close hframes

theorem ofTokens (ceiling : Nat) (tokens : List Token) : (ofTokens ceiling tokens).Nested ceiling := by
  rw [Assembly.ofTokens]
  refine List.foldlRecOn tokens _ (start ceiling) fun a ha token _ => ?_
  exact ha.step token

theorem finish (h : a.Nested ceiling) : Item.Below ceiling 0 a.finish := by
  rw [Assembly.finish_eq]
  cases a.frames.getLast? with
  | none =>
    rw [Option.map_none, Option.toList_none, List.append_nil]
    exact h.items
  | some f => exact h.items.append (Item.Below.broken _ _ _ _)

end Nested

end Assembly

namespace Script

theorem below_parse (source : String) (ceiling : Nat) :
    Item.Below ceiling 0 (parse source ceiling).items :=
  (Assembly.Nested.ofTokens ceiling (Token.scan source)).finish

/-- No block of a script has as many blocks around it as the ceiling says. -/
theorem inside_lt_ceiling {source : String} {ceiling n line : Nat} {header : Header}
    {body : List Item} (h : Item.Inside (parse source ceiling).items n (.block line header body)) :
    n < ceiling := by
  have := below_parse source ceiling n line header body h
  omega

end Script

end GraphScript
