import GraphScript.Proofs.Decimal.Literal
import GraphScript.Proofs.Expr.Grammar

/-!
# Reading expressions by the grammar

A reader is *sound* for a kind of phrases if all that it takes off a text is one of them with
blanks around it (`Sound`), and *complete* if it takes every one of them off a text that goes on
with something that may follow it (`Complete`). Both pass from the reader of the operands to the
reader of a chain (`sound_readChain`, `complete_readChain`), and from the reader of a sum with
fewer parentheses around it to that of an atom (`sound_readAtom`, `complete_readAtom`). So a text
denotes an expression exactly if, without the blanks on its ends, it is a sum
(`parse?_eq_some_iff`).
-/

namespace GraphScript.Expr

open Text

/-! ### Sound and complete readers -/

/-- What a reader takes off a text is a phrase with blanks around it. -/
def Sound (read : Reader) (phrases : Phrases) : Prop :=
  ∀ ⦃text rest : List Char⦄ ⦃e : Expr⦄, read text = some (e, rest) →
    ∃ before taken after, before.all isBlank = true ∧ after.all isBlank = true ∧
      phrases taken e ∧ text = before ++ (taken ++ (after ++ rest))

/-- A reader takes a phrase of fewer than `length` characters off a text, and the blanks behind
    it, if what comes next may follow the phrase. -/
def Complete (length level : ℕ) (read : Reader) (phrases : Phrases) : Prop :=
  ∀ ⦃text rest : List Char⦄ ⦃e : Expr⦄, phrases text e → text.length < length →
    Follows level (trimStart rest) → read (text ++ rest) = some (e, trimStart rest)

/-- A reader does not mind blanks at the front of a text. -/
def SkipsBlanks (read : Reader) : Prop :=
  ∀ ⦃blanks : List Char⦄ (text : List Char), blanks.all isBlank = true →
    read (blanks ++ text) = read text

theorem Sound.imp {read : Reader} {phrases phrases' : Phrases} (h : Sound read phrases)
    (himp : ∀ {text e}, phrases text e → phrases' text e) : Sound read phrases' := by
  intro text rest e hread
  obtain ⟨before, taken, after, hbefore, hafter, htaken, htext⟩ := h hread
  exact ⟨before, taken, after, hbefore, hafter, himp htaken, htext⟩

theorem Sound.length_le {read : Reader} {phrases : Phrases} (h : Sound read phrases)
    {text rest : List Char} {e : Expr} (hread : read text = some (e, rest)) :
    rest.length ≤ text.length := by
  obtain ⟨before, taken, after, -, -, -, rfl⟩ := h hread
  simp only [List.length_append]
  omega

/-! ### Atoms -/

/-- The digits before and after a point make the double that a literal of them denotes. -/
theorem ofDigits_eq_number {text whole rest part : List Char} (hne : whole ≠ [])
    (hspan : text.span Char.isDigit = (whole, rest)) (hpart : Decimal.fraction rest = (part, [])) :
    ∃ x, Decimal.read? text = some x ∧ ofDigits whole part = .number x := by
  have hsign : Decimal.sign text = (false, text) := by
    obtain ⟨hall, rfl⟩ := of_span_eq hspan
    exact Decimal.sign_append .none (Decimal.IsDigits.unsigned ⟨hne, hall⟩ rest)
  have hempty : (whole.isEmpty && part.isEmpty) = false := by
    rw [List.isEmpty_eq_false_iff.2 hne, Bool.false_and]
  refine ⟨Decimal.nearest (Decimal.valueOf (whole ++ part)) (-part.length), ?_, rfl⟩
  simp only [Decimal.read?, hsign, hspan, hpart, hempty, Decimal.exponent?, Option.map_some,
    Int.zero_sub, Bool.false_eq_true, if_false]

theorem ofDigits_whole {digits : List Char} (hne : digits ≠ [])
    (hdigits : digits.all Char.isDigit = true) :
    ∃ x, Denotes digits x ∧ ofDigits digits [] = .number x := by
  obtain ⟨x, hread, hnumber⟩ := ofDigits_eq_number hne (span_self hdigits) rfl
  exact ⟨x, ⟨.whole hne hdigits, hread⟩, hnumber⟩

/-- A point ends the digits before it. -/
theorem span_point {whole : List Char} (hdigits : whole.all Char.isDigit = true)
    (rest : List Char) : (whole ++ '.' :: rest).span Char.isDigit = (whole, '.' :: rest) := by
  refine span_append hdigits ?_
  rintro c ⟨⟩
  rfl

theorem ofDigits_decimal {whole part : List Char} (hne : whole ≠ [])
    (hdigits : whole.all Char.isDigit = true) (hpart : part ≠ [])
    (hbehind : part.all Char.isDigit = true) :
    ∃ x, Denotes (whole ++ '.' :: part) x ∧ ofDigits whole part = .number x := by
  obtain ⟨x, hread, hnumber⟩ :=
    ofDigits_eq_number hne (span_point hdigits part) (span_self hbehind)
  exact ⟨x, ⟨.decimal hne hdigits hpart hbehind, hread⟩, hnumber⟩

theorem Denotes.inj {digits : List Char} {x y : Float} (h : Denotes digits x)
    (h' : Denotes digits y) : x = y :=
  Option.some_inj.1 (h.value.symm.trans h'.value)

/-- A numeral is read up to the first character that cannot belong to it. -/
theorem readNumber_append {digits rest : List Char} {x : Float} (h : Denotes digits x)
    (hrest : ∀ c ∈ rest.head?, c.isDigit = false ∧ c ≠ '.') :
    readNumber (digits ++ rest) = some (.number x, rest) := by
  have hend : ∀ c ∈ rest.head?, c.isDigit = false := fun c hc => (hrest c hc).1
  cases h.numeral with
  | whole hne hdigits =>
    obtain ⟨y, hdenotes, hnumber⟩ := ofDigits_whole hne hdigits
    obtain rfl := h.inj hdenotes
    rw [readNumber, span_append hdigits hend]
    simp only [List.isEmpty_eq_false_iff.2 hne, hnumber, Bool.false_eq_true, if_false]
    split
    · exact absurd rfl (hrest '.' rfl).2
    · rfl
  | decimal hne hdigits hpart hbehind =>
    obtain ⟨y, hdenotes, hnumber⟩ := ofDigits_decimal hne hdigits hpart hbehind
    obtain rfl := h.inj hdenotes
    rw [readNumber, List.append_assoc, List.cons_append, span_point hdigits]
    simp only [List.isEmpty_eq_false_iff.2 hne, span_append hbehind hend,
      List.isEmpty_eq_false_iff.2 hpart, hnumber, Bool.false_eq_true, if_false]

theorem exists_of_readNumber {text rest : List Char} {e : Expr}
    (h : readNumber text = some (e, rest)) : ∃ digits, Atom digits e ∧ text = digits ++ rest := by
  rw [readNumber] at h
  generalize hspan : text.span Char.isDigit = parts at h
  obtain ⟨whole, behind⟩ := parts
  obtain ⟨hdigits, rfl⟩ := of_span_eq hspan
  dsimp only at h
  split_ifs at h with hempty
  have hne : whole ≠ [] := by simpa using hempty
  obtain ⟨x, hdenotes, hnumber⟩ := ofDigits_whole hne hdigits
  have hwhole : Atom whole (ofDigits whole []) := hnumber ▸ .numeral hdenotes
  split at h
  · rename_i more
    generalize hfraction : more.span Char.isDigit = parts at h
    obtain ⟨part, after⟩ := parts
    obtain ⟨hbehind, rfl⟩ := of_span_eq hfraction
    dsimp only at h
    split_ifs at h with hpart
    · cases h
      exact ⟨whole, hwhole, rfl⟩
    · cases h
      have hpart : part ≠ [] := by simpa using hpart
      obtain ⟨x, hdenotes, hnumber⟩ := ofDigits_decimal hne hdigits hpart hbehind
      have hdecimal : Atom (whole ++ '.' :: part) (ofDigits whole part) :=
        hnumber ▸ .numeral hdenotes
      exact ⟨_, hdecimal, by rw [List.append_assoc, List.cons_append]⟩
  · cases h
    exact ⟨whole, hwhole, rfl⟩

theorem exists_of_readVariable {text rest : List Char} {e : Expr}
    (h : readVariable text = some (e, rest)) :
    ∃ name, Atom ('$' :: name) e ∧ text = name ++ rest := by
  rw [readVariable] at h
  generalize hspan : text.span isNameChar = split at h
  obtain ⟨name, behind⟩ := split
  obtain ⟨hall, htext⟩ := of_span_eq hspan
  dsimp only at h
  split_ifs at h with hne
  cases h
  exact ⟨name, .named ⟨by simpa using hne, List.all_eq_true.1 hall⟩, htext⟩

/-- An atom is read by one of three readers, and the blanks behind it are dropped. -/
theorem exists_of_readAtom {inner : Reader} {text rest : List Char} {e : Expr}
    (h : readAtom inner text = some (e, rest)) :
    ∃ behind, rest = trimStart behind ∧
      ((∃ more, text = '$' :: more ∧ readVariable more = some (e, behind)) ∨
        (∃ more, text = '(' :: more ∧ inner more = some (e, ')' :: behind)) ∨
        readNumber text = some (e, behind)) := by
  unfold readAtom at h
  extract_lets finish at h
  have hfinish {read : Option (Expr × List Char)} (h : read >>= finish = some (e, rest)) :
      ∃ behind, rest = trimStart behind ∧ read = some (e, behind) := by
    obtain ⟨⟨e', behind⟩, rfl, hresult⟩ := Option.bind_eq_some_iff.1 h
    cases hresult
    exact ⟨behind, rfl, rfl⟩
  split at h
  · obtain ⟨behind, hrest, hread⟩ := hfinish h
    exact ⟨behind, hrest, .inl ⟨_, rfl, hread⟩⟩
  · split at h
    · rename_i hinner
      obtain ⟨behind, hrest, hread⟩ := hfinish h
      obtain ⟨rfl, rfl⟩ := Prod.mk.inj (Option.some.inj hread)
      exact ⟨_, hrest, .inr (.inl ⟨_, rfl, hinner⟩)⟩
    · cases h
  · obtain ⟨behind, hrest, hread⟩ := hfinish h
    exact ⟨behind, hrest, .inr (.inr hread)⟩

theorem sound_readAtom {inner : Reader} (hinner : Sound inner IsSum) :
    Sound (readAtom inner) Atom := by
  intro text rest e h
  obtain ⟨behind, rfl, hread⟩ := exists_of_readAtom h
  obtain ⟨after, hafter, hbehind⟩ := exists_trimStart behind
  suffices ∃ taken, Atom taken e ∧ text = taken ++ behind by
    obtain ⟨taken, htaken, rfl⟩ := this
    exact ⟨[], taken, after, rfl, hafter, htaken, by rw [List.nil_append, ← hbehind]⟩
  rcases hread with ⟨more, rfl, hread⟩ | ⟨more, rfl, hread⟩ | hread
  · obtain ⟨name, hname, rfl⟩ := exists_of_readVariable hread
    exact ⟨'$' :: name, hname, rfl⟩
  · obtain ⟨before, taken, blanks, hbefore, hblanks, htaken, rfl⟩ := hinner hread
    exact ⟨_, .enclosed hbefore hblanks htaken, by simp⟩
  · exact exists_of_readNumber hread

theorem complete_readAtom {inner : Reader} {n : ℕ} (hskips : SkipsBlanks inner)
    (hinner : Complete n 0 inner IsSum) : Complete (n + 1) 2 (readAtom inner) Atom := by
  intro text rest e htext hlength hrest
  have hend {c : Char} (hc : c ∈ rest.head?) := hrest.head_not_taken hc
  cases htext with
  | numeral h =>
    have hread := readNumber_append h fun c hc => (hend hc).2
    obtain ⟨c, more, rfl, hc⟩ := h.numeral.exists_cons
    unfold readAtom
    split
    · rename_i heq
      cases heq
      cases hc
    · rename_i heq
      cases heq
      cases hc
    · rw [hread]
      rfl
  | named hname =>
    simp only [readAtom, List.cons_append, readVariable_append hname fun c hc => (hend hc).1]
    rfl
  | @enclosed before after text e hbefore hafter htext =>
    have htrim : trimStart (after ++ (')' :: rest)) = ')' :: rest := by
      rw [trimStart_append hafter]
      rfl
    have hread : inner (before ++ (text ++ (after ++ ')' :: rest))) = some (e, ')' :: rest) := by
      rw [hskips _ hbefore, hinner htext ?_ ?_, htrim]
      · simp only [List.length_cons, List.length_append] at hlength
        omega
      · rw [htrim]
        exact follows_paren 0 rest
    simp only [readAtom, List.cons_append, List.append_assoc, List.nil_append, hread]
    rfl

/-! ### Minus signs -/

theorem sound_readUnary {atom : Reader} {phrases : Phrases} (hatom : Sound atom phrases) :
    Sound (readUnary atom) (Signed phrases) := by
  have hoperand : Sound atom (Signed phrases) := hatom.imp .operand
  intro text rest e h
  induction text generalizing e with
  | nil => exact hoperand h
  | cons c text ih =>
    rw [readUnary] at h
    split_ifs at h with hblank hminus
    · obtain ⟨before, taken, after, hbefore, hafter, htaken, rfl⟩ := ih h
      have hmore : (c :: before).all isBlank = true := by rw [List.all_cons, hblank, hbefore]; rfl
      exact ⟨c :: before, taken, after, hmore, hafter, htaken, rfl⟩
    · obtain ⟨⟨e', rest'⟩, hread, hresult⟩ := Option.map_eq_some_iff.1 h
      cases hresult
      obtain ⟨before, taken, after, hbefore, hafter, htaken, rfl⟩ := ih hread
      refine ⟨[], _, after, rfl, hafter, .minus hbefore htaken, ?_⟩
      simp [hminus]
    · exact hoperand h

theorem skipsBlanks_readUnary (atom : Reader) : SkipsBlanks (readUnary atom) := by
  intro blanks text hblanks
  induction blanks with
  | nil => rfl
  | cons c blanks ih =>
    rw [List.all_cons, Bool.and_eq_true] at hblanks
    rw [List.cons_append, readUnary, if_pos hblanks.1, ih hblanks.2]

theorem complete_readUnary {atom : Reader} {n : ℕ} (hatom : Complete n 2 atom Atom) :
    Complete n 2 (readUnary atom) IsUnary := by
  intro text rest e htext hlength hrest
  induction htext with
  | operand htext =>
    obtain ⟨c, more, rfl, hc, hminus⟩ := htext.exists_cons
    rw [List.cons_append, readUnary, if_neg (Bool.eq_false_iff.1 hc), if_neg hminus,
      ← List.cons_append, hatom htext hlength hrest]
  | @minus blanks text e hblanks htext ih =>
    have hshorter : text.length < n := by
      simp only [List.length_cons, List.length_append] at hlength
      omega
    rw [List.cons_append, readUnary, if_neg (by decide), if_pos rfl, List.append_assoc,
      skipsBlanks_readUnary atom _ hblanks, ih hshorter]
    rfl

/-! ### Chains -/

section Chain

variable {level : ℕ} {op? : Char → Option Op} {operand : Reader} {phrases : Phrases}
  (hop : ∀ {c op}, op? c = some op ↔ op.level = level ∧ op.symbol = c)
  (hsound : Sound operand phrases)

theorem skipsBlanks_readChain (h : SkipsBlanks operand) :
    SkipsBlanks (readChain op? operand) := by
  intro blanks text hblanks
  rw [readChain, h text hblanks, readChain]

/-- The number of steps does not matter, as long as there is one for each character. -/
theorem readTail_eq_of_le (hsound : Sound operand phrases) {steps steps' : ℕ}
    {text : List Char} (left : Expr) (h : text.length ≤ steps) (h' : text.length ≤ steps') :
    readTail op? operand steps left text = readTail op? operand steps' left text := by
  induction steps generalizing steps' left text with
  | zero =>
    obtain rfl := List.length_eq_zero_iff.1 (Nat.le_zero.1 h)
    cases steps' <;> rfl
  | succ steps ih =>
    cases text with
    | nil => cases steps' <;> rfl
    | cons c text =>
      cases steps' with
      | zero => cases h'
      | succ steps' =>
        rw [readTail, readTail]
        cases op? c with
        | none => rfl
        | some op =>
          dsimp only
          cases hread : operand text with
          | none => rfl
          | some result =>
            have hle := hsound.length_le hread
            rw [List.length_cons] at h h'
            exact ih _ (by omega) (by omega)

include hop hsound

/-- What is read behind a chain makes it a longer one. -/
theorem sound_readTail {steps : ℕ} {start blanks text rest : List Char} {left e : Expr}
    (hblanks : blanks.all isBlank = true) (hleft : Chain level phrases start left)
    (h : readTail op? operand steps left text = some (e, rest)) :
    ∃ taken after, after.all isBlank = true ∧ Chain level phrases taken e ∧
      start ++ (blanks ++ text) = taken ++ (after ++ rest) := by
  induction steps generalizing start blanks text left with
  | zero =>
    cases h
    exact ⟨start, blanks, hblanks, hleft, rfl⟩
  | succ steps ih =>
    cases text with
    | nil =>
      cases h
      exact ⟨start, blanks, hblanks, hleft, rfl⟩
    | cons c text =>
      rw [readTail] at h
      split at h
      · cases h
        exact ⟨start, blanks, hblanks, hleft, rfl⟩
      · rename_i op hc
        obtain ⟨hlevel, rfl⟩ := hop.1 hc
        split at h
        · cases h
        · rename_i right after hread
          obtain ⟨before, taken, blanks', hbefore, hblanks', htaken, rfl⟩ := hsound hread
          -- The longer chain ends with this operand, and the blanks behind it come next.
          obtain ⟨whole, behind, hbehind, hwhole, heq⟩ :=
            ih hblanks' (.more hlevel hblanks hbefore hleft htaken) h
          refine ⟨whole, behind, hbehind, hwhole, ?_⟩
          rw [← heq]
          simp

theorem sound_readChain : Sound (readChain op? operand) (Chain level phrases) := by
  intro text rest e h
  rw [readChain] at h
  split at h
  · cases h
  · rename_i left behind hread
    obtain ⟨before, start, blanks, hbefore, hblanks, hstart, rfl⟩ := hsound hread
    obtain ⟨taken, after, hafter, htaken, heq⟩ :=
      sound_readTail hop hsound hblanks (.operand hstart) h
    exact ⟨before, taken, after, hbefore, hafter, htaken, by rw [heq]⟩

/-- Reading a chain comes down to reading what may follow its operands with the chain at the
    left. -/
theorem readChain_append {n : ℕ} (hskips : SkipsBlanks operand)
    (hoperand : Complete n (level + 1) operand phrases) {text rest : List Char} {e : Expr}
    (htext : Chain level phrases text e) (hlength : text.length < n)
    (hrest : Follows (level + 1) (trimStart rest)) :
    readChain op? operand (text ++ rest) =
      readTail op? operand (trimStart rest).length e (trimStart rest) := by
  -- The chain is taken apart at its last operator and read from the first one on, so that what
  -- follows the left part is the last operator with all behind it.
  induction htext generalizing rest with
  | operand htext => rw [readChain, hoperand htext hlength hrest]
  | @more op before after text text' left right hlevel hbefore hafter hleft hright ih =>
    simp only [List.length_append, List.length_cons] at hlength
    have htrim : trimStart (before ++ op.symbol :: (after ++ text' ++ rest)) =
        op.symbol :: (after ++ (text' ++ rest)) := by
      rw [trimStart_append hbefore, trimStart,
        List.dropWhile_cons_of_neg (Bool.eq_false_iff.1 op.isBlank_symbol), List.append_assoc]
    have hfollows : Follows (level + 1) (op.symbol :: (after ++ (text' ++ rest))) :=
      hlevel ▸ follows_symbol op _
    have hread : operand (after ++ (text' ++ rest)) = some (right, trimStart rest) := by
      rw [hskips _ hafter, hoperand hright (by omega) hrest]
    have hle := hsound.length_le hread
    rw [List.append_assoc, List.append_assoc, List.cons_append, ih (by omega) (htrim ▸ hfollows),
      htrim, List.length_cons, readTail, hop.2 ⟨hlevel, rfl⟩]
    dsimp only
    rw [hread]
    exact readTail_eq_of_le hsound _ hle le_rfl

theorem complete_readChain {n : ℕ} (hskips : SkipsBlanks operand)
    (hoperand : Complete n (level + 1) operand phrases) :
    Complete n level (readChain op? operand) (Chain level phrases) := by
  intro text rest e htext hlength hrest
  rw [readChain_append hop hsound hskips hoperand htext hlength (hrest.mono (Nat.le_succ _))]
  cases hbehind : trimStart rest with
  | nil => rfl
  | cons c behind =>
    rw [List.length_cons, readTail]
    cases hc : op? c with
    | none => rfl
    | some op =>
      -- An operator of the chain does not follow the chain.
      exfalso
      obtain ⟨hlevel, rfl⟩ := hop.1 hc
      rw [hbehind] at hrest
      rcases hrest _ rfl with hparen | ⟨op', hlt, hsymbol⟩
      · cases op <;> cases hparen
      · cases Op.symbol_inj hsymbol
        omega

end Chain

/-! ### Expressions -/

theorem sound_readSum (depth : ℕ) : Sound (readSum depth) IsSum := by
  induction depth with
  | zero =>
    intro text rest e h
    cases h
  | succ depth ih =>
    exact sound_readChain additive?_eq_some_iff
      (sound_readChain multiplicative?_eq_some_iff (sound_readUnary (sound_readAtom ih)))

theorem skipsBlanks_readSum (depth : ℕ) : SkipsBlanks (readSum depth) := by
  cases depth with
  | zero =>
    intro blanks text hblanks
    rfl
  | succ depth => exact skipsBlanks_readChain (skipsBlanks_readChain (skipsBlanks_readUnary _))

/-- Parentheses are characters, so that the depth can be told by the length. -/
theorem complete_readSum (depth : ℕ) : Complete depth 0 (readSum depth) IsSum := by
  induction depth with
  | zero =>
    intro text rest e htext hlength
    cases hlength
  | succ depth ih =>
    have hunary := sound_readUnary (sound_readAtom (sound_readSum depth))
    have hskips := skipsBlanks_readUnary (readAtom (readSum depth))
    exact complete_readChain additive?_eq_some_iff
      (sound_readChain multiplicative?_eq_some_iff hunary) (skipsBlanks_readChain hskips)
      (complete_readChain multiplicative?_eq_some_iff hunary hskips
        (complete_readUnary (complete_readAtom (skipsBlanks_readSum depth) ih)))

/-- A text denotes an expression exactly if it is a sum, up to the blanks on its ends. -/
theorem parse?_eq_some_iff {text : List Char} {e : Expr} :
    parse? text = some e ↔ IsSum (trim text) e := by
  have hparse : parse? text = some e ↔ readSum (text.length + 1) text = some (e, []) := by
    rw [parse?]
    split <;> simp_all
  rw [hparse]
  constructor
  · intro h
    obtain ⟨before, taken, after, hbefore, hafter, htaken, htext⟩ := sound_readSum _ h
    rw [htext, List.append_nil, trim_append_left hbefore, trim_append_right hafter,
      trim_of_isTight htaken.isTight]
    exact htaken
  · intro h
    obtain ⟨before, after, hbefore, hafter, htext⟩ := exists_trim text
    -- The end of the text follows every sum.
    have hnothing : trimStart after = [] := by
      rw [← List.append_nil after, trimStart_append hafter]
      rfl
    have hlength : (trim text).length < text.length + 1 :=
      Nat.lt_succ_of_le (length_trim_le text)
    calc readSum (text.length + 1) text
        = readSum (text.length + 1) (before ++ (trim text ++ after)) := by
          rw [← List.append_assoc, ← htext]
      _ = readSum (text.length + 1) (trim text ++ after) := skipsBlanks_readSum _ _ hbefore
      _ = some (e, trimStart after) := by
          refine complete_readSum _ h hlength ?_
          rw [hnothing]
          exact fun c hc => absurd hc (by simp)
      _ = some (e, []) := by rw [hnothing]

end GraphScript.Expr
