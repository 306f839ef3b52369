import GraphScript.Proofs.Script.Nesting

/-!
# Where items come from

The items of a script are made from the tokens of its text, one from each: a statement, a
closing brace or a header becomes an item (`Token.Makes`), and the other tokens become none. An
open block is a header that has become nothing yet. This holds for all that is assembled, however
deep it stands (`Assembly.Made`), and what is to be shown of all items of a script need only be
shown of what a token can become.

There is one exception, which the end of the text makes: the outermost block that is still open
is given up (`Script.exists_token`).
-/

namespace GraphScript

/-- What a token can become. A header becomes a block, with whatever it holds, unless it cannot be
    read or stands at the ceiling. -/
inductive Token.Makes (ceiling : Nat) : Token → Item → Prop
  | statement (line : Nat) (text : String) :
      Makes ceiling (.statement line text) (.statement line text)
  | unterminated (line : Nat) :
      Makes ceiling (.unterminated line)
        (.broken line (.malformed "Each statement must end with a period."))
  | tooDeep (line : Nat) (text : String) :
      Makes ceiling (.opening line text) (.broken line (.tooDeep ceiling))
  | block {line : Nat} {text : String} {header : Header} (h : Header.parse text = .ok header)
      (body : List Item) : Makes ceiling (.opening line text) (.block line header body)
  | unreadable {line : Nat} {text : String} {error : Error} (h : Header.parse text = .error error) :
      Makes ceiling (.opening line text) (.broken line error)
  | stray (line : Nat) :
      Makes ceiling (.closing line) (.broken line (.malformed "Unexpected closing brace."))

namespace Frame

/-- The token that opened the block. -/
def opener (f : Frame) : Token :=
  .opening f.line f.header

theorem makes_close (ceiling : Nat) (f : Frame) : f.opener.Makes ceiling f.close := by
  rw [Frame.close]
  split
  · exact .block ‹_› _
  · exact .unreadable ‹_›

end Frame

/-- All items, and the items within them, come from tokens. -/
def Item.MadeFrom (ceiling : Nat) (tokens : List Token) (items : List Item) : Prop :=
  ∀ item ∈ Item.partsOf items, ∃ token ∈ tokens, token.Makes ceiling item

namespace Item.MadeFrom

variable {ceiling : Nat} {tokens : List Token} {items more : List Item}

theorem nil : MadeFrom ceiling tokens [] := by
  rw [MadeFrom, partsOf]
  exact List.forall_mem_nil _

theorem append (h : MadeFrom ceiling tokens items) (hmore : MadeFrom ceiling tokens more) :
    MadeFrom ceiling tokens (items ++ more) := by
  rw [MadeFrom, partsOf_append]
  exact List.forall_mem_append.2 ⟨h, hmore⟩

/-- An item that holds no others comes from one token. -/
theorem single {item : Item} (hparts : item.parts = [item]) {token : Token}
    (htoken : token ∈ tokens) (h : token.Makes ceiling item) : MadeFrom ceiling tokens [item] := by
  rw [MadeFrom, partsOf_singleton, hparts]
  exact List.forall_mem_singleton.2 ⟨token, htoken, h⟩

/-- A block comes from its header, and what it holds from other tokens. -/
theorem close {f : Frame} (hopener : f.opener ∈ tokens) (hbody : MadeFrom ceiling tokens f.body) :
    MadeFrom ceiling tokens [f.close] := by
  have hclose := f.makes_close ceiling
  rw [Frame.close] at hclose ⊢
  split at hclose
  · rw [MadeFrom, partsOf_singleton, parts]
    exact List.forall_mem_cons.2 ⟨⟨_, hopener, hclose⟩, hbody⟩
  · exact single rfl hopener hclose

end Item.MadeFrom

/-! ### Assembly -/

namespace Assembly

/-- What is assembled, and the open blocks, come from tokens. -/
structure Made (ceiling : Nat) (tokens : List Token) (a : Assembly) : Prop where
  items : Item.MadeFrom ceiling tokens a.items
  frames : ∀ f ∈ a.frames, f.opener ∈ tokens ∧ Item.MadeFrom ceiling tokens f.body

namespace Made

variable {ceiling : Nat} {tokens : List Token} {a : Assembly}

theorem push (h : a.Made ceiling tokens) {item : Item}
    (hitem : Item.MadeFrom ceiling tokens [item]) : (a.push item).Made ceiling tokens := by
  obtain ⟨hitems, hframes⟩ := h
  rw [Assembly.push]
  split
  · exact ⟨hitems.append hitem, hframes⟩
  · rename_i f outer hcons
    rw [hcons, List.forall_mem_cons] at hframes
    obtain ⟨⟨hopener, hbody⟩, houter⟩ := hframes
    exact ⟨hitems, List.forall_mem_cons.2 ⟨⟨hopener, hbody.append hitem⟩, houter⟩⟩

theorem step (h : a.Made ceiling tokens) {token : Token} (htoken : token ∈ tokens) :
    (step ceiling a token).Made ceiling tokens := by
  have htakes := takes_step ceiling a token
  generalize Assembly.step ceiling a token = a' at htakes ⊢
  cases htakes with
  | skipped hskip =>
    -- Skipped tokens leave the items and the open blocks alone.
    cases token <;> exact ⟨h.items, h.frames⟩
  | statement hskip line text => exact h.push (.single rfl htoken (.statement line text))
  | unterminated hskip line => exact h.push (.single rfl htoken (.unterminated line))
  | opened hskip hceiling line header =>
    exact ⟨h.items, List.forall_mem_cons.2 ⟨⟨htoken, .nil⟩, h.frames⟩⟩
  | turnedAway hskip hceiling line header =>
    have hpush := h.push (.single rfl htoken (.tooDeep line header))
    exact ⟨hpush.items, hpush.frames⟩
  | stray hskip hframes line => exact h.push (.single rfl htoken (.stray line))
  | @closed hskip f outer hframes line =>
    have hall := h.frames
    rw [hframes, List.forall_mem_cons] at hall
    obtain ⟨⟨hopener, hbody⟩, houter⟩ := hall
    have hopen : { a with frames := outer }.Made ceiling tokens := ⟨h.items, houter⟩
    exact hopen.push (.close hopener hbody)

theorem ofTokens (ceiling : Nat) (tokens : List Token) :
    (ofTokens ceiling tokens).Made ceiling tokens := by
  have hstart : start.Made ceiling tokens := ⟨.nil, List.forall_mem_nil _⟩
  rw [Assembly.ofTokens]
  exact List.foldlRecOn tokens _ hstart fun a ha token htoken => ha.step htoken

end Made

end Assembly

/-- An item of a script comes from a token, or it is there for the outermost open block. -/
theorem Script.exists_token {source : String} {ceiling : Nat} {item : Item}
    (h : item ∈ Item.partsOf (parse source ceiling).items) :
    ∃ token ∈ Token.scan source, token.Makes ceiling item ∨
      ∃ f : Frame, token = f.opener ∧ item = f.abandon := by
  obtain ⟨hitems, hframes⟩ := Assembly.Made.ofTokens ceiling (Token.scan source)
  rw [parse_eq] at h
  cases hlast : (Assembly.ofTokens ceiling (Token.scan source)).frames.getLast? with
  | none =>
    rw [Assembly.finish_of_frames_eq_nil (List.getLast?_eq_none_iff.1 hlast)] at h
    obtain ⟨token, htoken, hmakes⟩ := hitems item h
    exact ⟨token, htoken, .inl hmakes⟩
  | some outermost =>
    rw [Assembly.finish_of_getLast? hlast, Item.partsOf_append, List.mem_append] at h
    rcases h with h | h
    · obtain ⟨token, htoken, hmakes⟩ := hitems item h
      exact ⟨token, htoken, .inl hmakes⟩
    · rw [Item.partsOf_singleton, Frame.abandon, Item.parts, List.mem_singleton] at h
      exact ⟨outermost.opener, (hframes outermost (List.mem_of_getLast? hlast)).1,
        .inr ⟨outermost, rfl, h⟩⟩

end GraphScript
