import GraphScript.Environment
import GraphScript.Proofs.Text
import Mathlib.Data.List.TakeDrop
import Mathlib.Data.List.TakeWhile

/-!
# Words and names

What a statement says about a node it says with a word, and what it says about a variable with
a name. Here is what a text must be like for that to work:

* a *word* is not empty and has no blanks (`IsWord`), and those are what a text is split into
  (`isWord_of_mem_words`, `words_append`);
* an *id* is a word that does not begin with the mark of a variable (`IsId`), so that it stands
  for itself (`resolve_of_isId`). The text of a number is an id (`isId_display`), and so is
  whatever a word stands for (`isId_of_resolve`);
* a *name* is made of the characters of names (`IsName`), so that the expression `$name` reads
  as that variable and nothing else (`evaluate_variable`).
-/

namespace GraphScript

namespace Text

/-! ### Words -/

/-- Not empty, and without blanks. -/
structure IsWord (word : List Char) : Prop where
  ne_nil : word ≠ []
  notBlank : ∀ c ∈ word, isBlank c = false

instance (word : List Char) : Decidable (IsWord word) :=
  -- Not as a bounded quantifier, which may be decided by going through all characters there are.
  decidable_of_iff (word ≠ [] ∧ word.all (!isBlank ·) = true)
    ⟨fun h => ⟨h.1, by simpa using h.2⟩, fun h => ⟨h.ne_nil, by simpa using h.notBlank⟩⟩

/-- A text is split into words. -/
theorem isWord_of_mem_words {text word : List Char} (h : word ∈ words text) : IsWord word := by
  induction text generalizing word with
  | nil => exact absurd h List.not_mem_nil
  | cons c rest ih =>
    have hsingle (hc : isBlank c = false) : IsWord [c] :=
      ⟨List.cons_ne_nil _ _, List.forall_mem_singleton.2 hc⟩
    rw [words] at h
    split_ifs at h with hc hend
    · exact ih h
    · rcases List.mem_cons.1 h with rfl | h
      · exact hsingle (Bool.eq_false_iff.2 hc)
      · exact ih h
    · have hc : isBlank c = false := Bool.eq_false_iff.2 hc
      split at h
      · rename_i first more hwords
        rw [hwords] at ih
        rcases List.mem_cons.1 h with rfl | h
        · have hfirst := ih List.mem_cons_self
          exact ⟨List.cons_ne_nil _ _, List.forall_mem_cons.2 ⟨hc, hfirst.notBlank⟩⟩
        · exact ih (List.mem_cons_of_mem _ h)
      · rw [List.mem_singleton.1 h]
        exact hsingle hc

/-- A word comes off the front of a text, if nothing follows or a blank does. -/
theorem words_append {word rest : List Char} (hword : IsWord word)
    (hrest : rest.head?.all isBlank = true) : words (word ++ rest) = word :: words rest := by
  obtain ⟨hne, hblank⟩ := hword
  induction word with
  | nil => exact absurd rfl hne
  | cons c word ih =>
    rw [List.forall_mem_cons] at hblank
    obtain ⟨hc, hblank⟩ := hblank
    rw [List.cons_append, words, if_neg (Bool.eq_false_iff.1 hc)]
    cases word with
    | nil => rw [List.nil_append, if_pos hrest]
    | cons d word =>
      have hd : isBlank d = false := hblank d List.mem_cons_self
      have hgoes : ¬(d :: word ++ rest).head?.all isBlank = true := by simp [hd]
      rw [if_neg hgoes, ih (List.cons_ne_nil _ _) hblank]

theorem words_of_isWord {word : List Char} (h : IsWord word) : words word = [word] := by
  have happend : words (word ++ []) = word :: words [] := words_append h rfl
  rwa [List.append_nil] at happend

theorem words_blank {c : Char} (hc : isBlank c = true) (rest : List Char) :
    words (c :: rest) = words rest := by
  rw [words, if_pos hc]

theorem IsWord.isTight {word : List Char} (h : IsWord word) : IsTight word := by
  obtain ⟨c, rest, heq⟩ := List.exists_cons_of_ne_nil h.ne_nil
  have heq' := List.dropLast_concat_getLast h.ne_nil
  exact ⟨⟨c, rest, heq, h.notBlank c (heq ▸ List.mem_cons_self)⟩,
    ⟨_, _, heq'.symm, h.notBlank _ (List.getLast_mem h.ne_nil)⟩⟩

theorem trim_of_isWord {word : List Char} (h : IsWord word) : trim word = word :=
  trim_of_isTight h.isTight

/-! ### Ids -/

/-- A word that is not taken for a variable. -/
structure IsId (word : List Char) : Prop extends IsWord word where
  notVariable : word.head? ≠ some '$'

instance (word : List Char) : Decidable (IsId word) :=
  decidable_of_iff (IsWord word ∧ word.head? ≠ some '$')
    ⟨fun h => ⟨h.1, h.2⟩, fun h => ⟨h.toIsWord, h.notVariable⟩⟩

/-- Two ids in a row are an id. -/
theorem IsId.append {a b : List Char} (ha : IsId a) (hb : IsId b) : IsId (a ++ b) := by
  obtain ⟨c, rest, rfl⟩ := List.exists_cons_of_ne_nil ha.ne_nil
  exact ⟨⟨List.cons_ne_nil _ _, List.forall_mem_append.2 ⟨ha.notBlank, hb.notBlank⟩⟩,
    ha.notVariable⟩

/-- The characters of numbers without an exponent. -/
def IsNumeral (c : Char) : Prop :=
  c.isDigit = true ∨ c = '.' ∨ c = '-'

theorem isBlank_of_isDigit {c : Char} (h : c.isDigit = true) : isBlank c = false := by
  have hrange : 48 ≤ c.toNat ∧ c.toNat ≤ 57 := by
    simpa [Char.isDigit, UInt32.le_iff_toNat_le] using h
  simp only [isBlank, Bool.or_eq_false_iff, Bool.and_eq_false_iff, decide_eq_false_iff_not,
    beq_eq_false_iff_ne]
  omega

theorem isId_of_numerals {word : List Char} (hne : word ≠ []) (h : ∀ c ∈ word, IsNumeral c) :
    IsId word := by
  refine ⟨⟨hne, fun c hc => ?_⟩, fun hhead => ?_⟩
  · rcases h c hc with hdigit | rfl | rfl
    · exact isBlank_of_isDigit hdigit
    · rfl
    · rfl
  · rcases h '$' (List.mem_of_mem_head? hhead) with hdigit | hpoint | hminus
    · exact absurd hdigit (by decide)
    · exact absurd hpoint (by decide)
    · exact absurd hminus (by decide)

end Text

/-! ### Numbers -/

namespace Decimal

open Text

theorem isDigit_ofCoefficient (coefficient : Nat) (exponent : Int) {c : Char}
    (h : c ∈ (Digits.ofCoefficient coefficient exponent).digits) : c.isDigit = true := by
  have hall : c ∈ (Nat.toDigits 10 coefficient).reverse :=
    (List.dropWhile_sublist _).mem (List.mem_reverse.1 h)
  exact Nat.isDigit_of_mem_toDigits (by decide) (by decide) (List.mem_reverse.1 hall)

theorem exists_onGrid? {tie : Tie} {x : Float} {exponent : Int} {d : Digits}
    (h : onGrid? tie x exponent = some d) : ∃ coefficient, d = .ofCoefficient coefficient exponent := by
  simp only [onGrid?] at h
  split_ifs at h <;> exact ⟨_, (Option.some_inj.1 h).symm⟩

/-- The shortest digits are those of some number. -/
theorem exists_shortest (tie : Tie) (x : Float) :
    ∃ coefficient exponent, shortest tie x = .ofCoefficient coefficient exponent := by
  unfold shortest
  extract_lets point
  cases hgrid : (List.range 17).findSome? fun n => onGrid? tie x (point - (n + 1 : Nat)) with
  | none =>
    rw [Option.getD_none]
    unfold exact
    dsimp only
    split_ifs <;> exact ⟨_, _, rfl⟩
  | some d =>
    obtain ⟨n, -, hn⟩ := List.exists_of_findSome?_eq_some hgrid
    obtain ⟨coefficient, rfl⟩ := exists_onGrid? hn
    exact ⟨coefficient, _, rfl⟩

theorem positionalText_ne_nil (style : Style) (d : Digits) : style.positionalText d ≠ [] := by
  rw [Style.positionalText]
  split_ifs with hpoint hlength
  · exact List.cons_ne_nil _ _
  · -- The point stands behind the digits, so there are digits or zeros before it.
    intro hnil
    have := congrArg List.length hnil
    simp only [List.length_append, List.length_replicate, List.length_nil] at this
    omega
  · simp

theorem isNumeral_of_mem_positionalText {d : Digits} (hd : ∀ c ∈ d.digits, c.isDigit = true)
    {c : Char} (h : c ∈ plain.positionalText d) : IsNumeral c := by
  have hzeros {n : Nat} (hc : c ∈ List.replicate n '0') : IsNumeral c := by
    rw [List.eq_of_mem_replicate hc]
    exact .inl rfl
  rw [Style.positionalText] at h
  split_ifs at h
  · rw [List.mem_cons, List.mem_cons, List.mem_append] at h
    rcases h with rfl | rfl | h | h
    exacts [.inl rfl, .inr (.inl rfl), hzeros h, .inl (hd c h)]
  · rw [List.mem_append, List.mem_append] at h
    rcases h with (h | h) | h
    exacts [.inl (hd c h), hzeros h, absurd h List.not_mem_nil]
  · rw [List.mem_append, List.mem_cons] at h
    rcases h with h | rfl | h
    exacts [.inl (hd c (List.mem_of_mem_take h)), .inr (.inl rfl),
      .inl (hd c (List.mem_of_mem_drop h))]

/-- A double is written as a sign, if it has one, and numerals. -/
theorem isId_write (x : Float) : IsId (plain.write x) := by
  obtain ⟨coefficient, exponent, hdigits⟩ := exists_shortest plain.tie x.abs
  rw [Style.write]
  set minus : List Char := if x.toBits >>> 63 = 0 then [] else ['-'] with hminus
  have hsign : ∀ c ∈ minus, IsNumeral c := by
    intro c hc
    rw [hminus] at hc
    split_ifs at hc
    · exact absurd hc List.not_mem_nil
    · exact .inr (.inr (List.mem_singleton.1 hc))
  have hbehind {text : List Char} (hne : text ≠ []) (htext : ∀ c ∈ text, IsNumeral c) :
      IsId (minus ++ text) :=
    isId_of_numerals (List.append_ne_nil_of_right_ne_nil _ hne)
      (List.forall_mem_append.2 ⟨hsign, htext⟩)
  dsimp only
  split_ifs
  · exact hbehind (List.cons_ne_nil _ _) (List.forall_mem_singleton.2 (.inl rfl))
  · rw [hdigits]
    exact hbehind (positionalText_ne_nil _ _) fun c hc =>
      isNumeral_of_mem_positionalText (fun c => isDigit_ofCoefficient coefficient exponent) hc
  · exact absurd rfl ‹¬_›

/-- The text of a double is an id. -/
theorem isId_display (x : Float) : IsId (display x).toList := by
  rw [display]
  split_ifs
  · decide
  · decide
  · decide
  · rw [String.toList_ofList]
    exact isId_write x

end Decimal

/-! ### Variables -/

namespace Text

theorem span_append {p : Char → Bool} {run rest : List Char} (hrun : run.all p = true)
    (hrest : ∀ c ∈ rest.head?, p c = false) : (run ++ rest).span p = (run, rest) := by
  have hrun : ∀ c ∈ run, p c = true := List.all_eq_true.1 hrun
  rw [List.span_eq_takeWhile_dropWhile, List.takeWhile_append_of_pos hrun,
    List.dropWhile_append_of_pos hrun]
  cases rest with
  | nil => simp
  | cons c rest =>
    have hc : ¬p c = true := Bool.eq_false_iff.1 (hrest c rfl)
    rw [List.takeWhile_cons_of_neg hc, List.dropWhile_cons_of_neg hc, List.append_nil]

theorem span_self {p : Char → Bool} {run : List Char} (hrun : run.all p = true) :
    run.span p = (run, []) := by
  have hend : ∀ c ∈ ([] : List Char).head?, p c = false := fun c hc => absurd hc (by simp)
  simpa only [List.append_nil] using span_append hrun hend

theorem of_span_eq {p : Char → Bool} {text run rest : List Char} (h : text.span p = (run, rest)) :
    run.all p = true ∧ text = run ++ rest := by
  rw [List.span_eq_takeWhile_dropWhile, Prod.mk.injEq] at h
  obtain ⟨rfl, rfl⟩ := h
  exact ⟨List.all_takeWhile, List.takeWhile_append_dropWhile.symm⟩

/-- A name of a variable. -/
structure IsName (name : List Char) : Prop where
  ne_nil : name ≠ []
  isNameChar : ∀ c ∈ name, isNameChar c = true

instance (name : List Char) : Decidable (IsName name) :=
  decidable_of_iff (name ≠ [] ∧ name.all Text.isNameChar = true)
    ⟨fun h => ⟨h.1, by simpa using h.2⟩, fun h => ⟨h.ne_nil, by simpa using h.isNameChar⟩⟩

/-- No blank is a letter or a number. -/
theorem isBlank_of_isNameChar {c : Char} (h : isNameChar c = true) : isBlank c = false := by
  have htable : ∀ n ∈ [0x9, 0xA, 0xB, 0xC, 0xD, 0x20, 0x85, 0xA0, 0x1680, 0x2000, 0x2001, 0x2002,
      0x2003, 0x2004, 0x2005, 0x2006, 0x2007, 0x2008, 0x2009, 0x200A, 0x2028, 0x2029, 0x202F,
      0x205F, 0x3000], isNameChar (Char.ofNat n) = false := by
    decide +kernel
  by_contra hblank
  rw [Bool.not_eq_false] at hblank
  have hmem : isNameChar (Char.ofNat c.toNat) = false := by
    refine htable c.toNat ?_
    simp only [isBlank, Bool.or_eq_true, Bool.and_eq_true, decide_eq_true_eq, beq_iff_eq] at hblank
    simp only [List.mem_cons, List.not_mem_nil, or_false]
    omega
  rw [Char.ofNat_toNat, h] at hmem
  cases hmem

theorem IsName.isWord {name : List Char} (h : IsName name) : IsWord name :=
  ⟨h.ne_nil, fun c hc => isBlank_of_isNameChar (h.isNameChar c hc)⟩

theorem IsName.isWord_variable {name : List Char} (h : IsName name) : IsWord ('$' :: name) :=
  ⟨List.cons_ne_nil _ _, List.forall_mem_cons.2 ⟨rfl, h.isWord.notBlank⟩⟩

end Text

namespace Expr

open Text

/-- A text without parentheses and operators is not too large. -/
theorem excessFrom?_of_all {p : Char → Bool} (hp : ['(', ')', '+', '-', '*', '/'].any p = false)
    {depth operators : Nat} {text : List Char} (h : ∀ c ∈ text, p c = true) :
    excessFrom? depth operators text = none := by
  have hne {c d : Char} (hc : p c = true) (hd : d ∈ ['(', ')', '+', '-', '*', '/']) : c ≠ d := by
    rintro rfl
    exact List.any_eq_false.1 hp c hd hc
  induction text with
  | nil => rfl
  | cons c rest ih =>
    rw [List.forall_mem_cons] at h
    obtain ⟨hc, hrest⟩ := h
    have hoperator : isOperator c = false := by
      simp only [isOperator, Bool.or_eq_false_iff, beq_eq_false_iff_ne]
      exact ⟨⟨⟨hne hc (by simp), hne hc (by simp)⟩, hne hc (by simp)⟩, hne hc (by simp)⟩
    rw [excessFrom?, if_neg (hne hc (by simp)), if_neg (hne hc (by simp)),
      if_neg (Bool.eq_false_iff.1 hoperator), ih hrest]

/-- A name is read up to the first character that cannot belong to it. -/
theorem readVariable_append {name rest : List Char} (h : IsName name)
    (hrest : ∀ c ∈ rest.head?, isNameChar c = false) :
    readVariable (name ++ rest) = some (.var (String.ofList name), rest) := by
  have hall : name.all isNameChar = true := List.all_eq_true.2 h.isNameChar
  rw [readVariable, span_append hall hrest]
  dsimp only
  rw [if_neg (by simpa using h.ne_nil)]

theorem readVariable_of_isName {name : List Char} (h : IsName name) :
    readVariable name = some (.var (String.ofList name), []) := by
  have hend : ∀ c ∈ ([] : List Char).head?, isNameChar c = false := fun c hc => absurd hc (by simp)
  simpa only [List.append_nil] using readVariable_append h hend

/-- A variable is all that its text denotes. -/
theorem parse?_variable {name : List Char} (h : IsName name) :
    parse? ('$' :: name) = some (.var (String.ofList name)) := by
  have hatom (inner : Reader) :
      readAtom inner ('$' :: name) = some (.var (String.ofList name), []) := by
    simp only [readAtom, readVariable_of_isName h]
    rfl
  have hunary (inner : Reader) :
      readUnary (readAtom inner) ('$' :: name) = some (.var (String.ofList name), []) := by
    rw [readUnary, if_neg (by decide), if_neg (by decide), hatom]
  have hchain {op? : Char → Option Op} {operand : Reader}
      (hoperand : operand ('$' :: name) = some (.var (String.ofList name), [])) :
      readChain op? operand ('$' :: name) = some (.var (String.ofList name), []) := by
    rw [readChain, hoperand]
    rfl
  rw [parse?, readSum, hchain (hchain (hunary _))]

end Expr

namespace Environment

open Text

variable {env : Environment}

/-- Whatever a word stands for is an id. -/
theorem isId_of_resolve {word id : String} (hword : IsWord word.toList)
    (h : env.resolve word = .ok id) : IsId id.toList := by
  rw [resolve] at h
  split at h
  · split at h
    · cases h
      rw [formatNumber]
      split_ifs
      · decide
      · exact Decimal.isId_display _
    · cases h
  · rename_i hplain
    cases h
    refine ⟨hword, fun hhead => ?_⟩
    obtain ⟨rest, hrest⟩ := List.head?_eq_some_iff.1 hhead
    exact hplain rest hrest

/-- An id stands for itself. -/
theorem resolve_of_isId {id : String} (h : IsId id.toList) : env.resolve id = .ok id := by
  rw [resolve]
  split
  · rename_i name hname
    exact absurd (by rw [hname]; rfl) h.notVariable
  · rfl

theorem toList_variable (name : String) : ("$" ++ name).toList = '$' :: name.toList := by
  rw [String.toList_append]
  rfl

/-- A variable stands for the text of its value. -/
theorem resolve_variable {name : String} {value : Float} (h : env.get? name = some value) :
    env.resolve ("$" ++ name) = .ok (formatNumber value) := by
  simp only [resolve, toList_variable, String.ofList_toList, h]

/-- A variable can be read by its name. -/
theorem evaluate_variable {name : String} {value : Float} (hname : IsName name.toList)
    (hvalue : value.isFinite = true) (h : env.get? name = some value)
    (syntaxReason : String → String) : env.evaluate syntaxReason ("$" ++ name) = .ok value := by
  have hexcess : Expr.excess? ('$' :: name.toList) = none := by
    rw [Expr.excess?, Expr.excessFrom?, if_neg (by decide), if_neg (by decide),
      if_neg (by decide), Expr.excessFrom?_of_all (by decide) hname.isNameChar]
  have heval : (Expr.var (String.ofList name.toList)).eval env.get? = .ok value := by
    rw [Expr.eval, String.ofList_toList, h]
  simp only [evaluate, toList_variable, trim_of_isWord hname.isWord_variable, hexcess,
    Expr.parse?_variable hname, heval, hvalue, if_true]

end Environment

end GraphScript
