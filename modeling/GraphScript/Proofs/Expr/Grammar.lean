import GraphScript.Proofs.Names

/-!
# The grammar of expressions

What texts denote expressions, told without a reader. The phrases of the grammar neither begin
nor end with a blank, and blanks may stand wherever two of their parts meet:

* an *atom* is a numeral, a variable or a sum in parentheses (`Atom`);
* a *unary* is an atom behind any number of minus signs (`Signed`, `IsUnary`);
* a *product* is a chain of unaries with `*` or `/` between them, and a *sum* a chain of products
  with `+` or `-` between them (`Chain`, `IsProduct`, `IsSum`). The last operator of a chain is
  the outermost, so chains group to the left.

What the rules keep, whatever the level, is so of every sum (`Closed`, `IsSum.of_closed`).

Nothing need be said of longest runs of digits or of name characters. What may follow a phrase is
a closing parenthesis, an operator or the end of the text (`Follows`), possibly behind blanks, and
none of these can belong to a numeral or a name (`Follows.head_not_taken`).
-/

namespace GraphScript

open Text

/-! ### Operators -/

namespace Op

/-- How an operator is written. -/
def symbol : Op → Char
  | .add => '+'
  | .subtract => '-'
  | .multiply => '*'
  | .divide => '/'

/-- How tightly an operator binds. -/
def level : Op → ℕ
  | .add | .subtract => 0
  | .multiply | .divide => 1

theorem symbol_inj {op op' : Op} (h : op.symbol = op'.symbol) : op = op' := by
  cases op <;> cases op' <;> first | rfl | exact absurd h (by decide)

theorem isBlank_symbol (op : Op) : isBlank op.symbol = false := by
  cases op <;> rfl

theorem symbol_ne_paren (op : Op) : op.symbol ≠ '(' ∧ op.symbol ≠ ')' := by
  cases op <;> decide

theorem level_eq_zero_or_one (op : Op) : op.level = 0 ∨ op.level = 1 := by
  cases op <;> decide

end Op

namespace Expr

/-- The operators between the operands of a sum. -/
theorem additive?_eq_some_iff {c : Char} {op : Op} :
    additive? c = some op ↔ op.level = 0 ∧ op.symbol = c := by
  rw [additive?.eq_def]
  constructor
  · intro h
    split at h <;> cases h <;> exact ⟨rfl, rfl⟩
  · rintro ⟨hlevel, rfl⟩
    cases op <;> first | rfl | cases hlevel

/-- The operators between the operands of a product. -/
theorem multiplicative?_eq_some_iff {c : Char} {op : Op} :
    multiplicative? c = some op ↔ op.level = 1 ∧ op.symbol = c := by
  rw [multiplicative?.eq_def]
  constructor
  · intro h
    split at h <;> cases h <;> exact ⟨rfl, rfl⟩
  · rintro ⟨hlevel, rfl⟩
    cases op <;> first | rfl | cases hlevel

/-! ### Phrases -/

/-- The texts of one kind, each with the expression that it denotes. -/
abbrev Phrases := List Char → Expr → Prop

/-- Digits, or digits, a point and digits. -/
inductive Numeral : List Char → Prop
  | whole {digits : List Char} (hne : digits ≠ []) (h : digits.all Char.isDigit = true) :
      Numeral digits
  | decimal {whole part : List Char} (hwhole : whole ≠ [])
      (hdigits : whole.all Char.isDigit = true) (hpart : part ≠ [])
      (hbehind : part.all Char.isDigit = true) : Numeral (whole ++ '.' :: part)

/-- A numeral begins with a digit. -/
theorem Numeral.exists_cons {digits : List Char} (h : Numeral digits) :
    ∃ c more, digits = c :: more ∧ c.isDigit = true := by
  cases h with
  | whole hne h =>
    obtain ⟨c, more, rfl⟩ := List.exists_cons_of_ne_nil hne
    exact ⟨c, more, rfl, List.all_eq_true.1 h c List.mem_cons_self⟩
  | decimal hne h =>
    obtain ⟨c, more, rfl⟩ := List.exists_cons_of_ne_nil hne
    exact ⟨c, _, rfl, List.all_eq_true.1 h c List.mem_cons_self⟩

theorem Numeral.isWord {digits : List Char} (h : Numeral digits) : IsWord digits := by
  have hdigit {run : List Char} (hrun : run.all Char.isDigit = true) :
      ∀ c ∈ run, isBlank c = false :=
    fun c hc => isBlank_of_isDigit (List.all_eq_true.1 hrun c hc)
  cases h with
  | whole hne h => exact ⟨hne, hdigit h⟩
  | decimal hne h hpart h' =>
    exact ⟨by simp, List.forall_mem_append.2 ⟨hdigit h, List.forall_mem_cons.2 ⟨rfl, hdigit h'⟩⟩⟩

/-- A numeral denotes a number. -/
structure Denotes (digits : List Char) (x : Float) : Prop where
  numeral : Numeral digits
  value : Decimal.read? digits = some x

/-- Any number of minus signs and an operand. -/
inductive Signed (operand : Phrases) : Phrases
  | operand {text : List Char} {e : Expr} (h : operand text e) : Signed operand text e
  | minus {blanks text : List Char} {e : Expr} (hblanks : blanks.all isBlank = true)
      (h : Signed operand text e) : Signed operand ('-' :: (blanks ++ text)) (.negate e)

/-- An operand, and any number of operators of a level with an operand each. -/
inductive Chain (level : ℕ) (operand : Phrases) : Phrases
  | operand {text : List Char} {e : Expr} (h : operand text e) : Chain level operand text e
  | more {op : Op} {before after text text' : List Char} {left right : Expr}
      (hop : op.level = level) (hbefore : before.all isBlank = true)
      (hafter : after.all isBlank = true) (hleft : Chain level operand text left)
      (hright : operand text' right) :
      Chain level operand (text ++ (before ++ op.symbol :: (after ++ text')))
        (.binary op left right)

/-- A numeral, a variable or a sum in parentheses. -/
inductive Atom : Phrases
  | numeral {digits : List Char} {x : Float} (h : Denotes digits x) : Atom digits (.number x)
  | named {name : List Char} (h : IsName name) : Atom ('$' :: name) (.var (String.ofList name))
  | enclosed {before after text : List Char} {e : Expr} (hbefore : before.all isBlank = true)
      (hafter : after.all isBlank = true) (h : Chain 0 (Chain 1 (Signed Atom)) text e) :
      Atom ('(' :: (before ++ (text ++ (after ++ [')'])))) e

/-- An atom begins with neither a blank nor a minus sign. -/
theorem Atom.exists_cons {text : List Char} {e : Expr} (h : Atom text e) :
    ∃ c more, text = c :: more ∧ isBlank c = false ∧ c ≠ '-' := by
  cases h with
  | numeral h =>
    obtain ⟨c, more, rfl, hc⟩ := h.numeral.exists_cons
    refine ⟨c, more, rfl, isBlank_of_isDigit hc, ?_⟩
    rintro rfl
    cases hc
  | named hname => exact ⟨'$', _, rfl, rfl, by decide⟩
  | enclosed hbefore hafter htext => exact ⟨'(', _, rfl, rfl, by decide⟩

/-- An atom behind any number of minus signs. -/
def IsUnary : Phrases := Signed Atom

/-- Unaries with `*` or `/` between them. -/
def IsProduct : Phrases := Chain 1 IsUnary

/-- Products with `+` or `-` between them. -/
def IsSum : Phrases := Chain 0 IsProduct

theorem Atom.isTight {text : List Char} {e : Expr} (h : Atom text e) : IsTight text := by
  cases h with
  | numeral h => exact h.numeral.isWord.isTight
  | named hname => exact hname.isWord_variable.isTight
  | @enclosed before after text e hbefore hafter htext =>
    have hparens := (isTight_singleton (c := '(') rfl).append (isTight_singleton (c := ')') rfl)
      (before ++ (text ++ after))
    simpa only [List.singleton_append, List.append_assoc] using hparens

theorem Signed.isTight {operand : Phrases} (hoperand : ∀ {text e}, operand text e → IsTight text)
    {text : List Char} {e : Expr} (h : Signed operand text e) : IsTight text := by
  induction h with
  | operand h => exact hoperand h
  | @minus blanks text e hblanks h ih => exact (isTight_singleton (c := '-') rfl).append ih blanks

theorem Chain.isTight {level : ℕ} {operand : Phrases}
    (hoperand : ∀ {text e}, operand text e → IsTight text) {text : List Char} {e : Expr}
    (h : Chain level operand text e) : IsTight text := by
  induction h with
  | operand h => exact hoperand h
  | @more op before after text text' left right hop hbefore hafter hleft hright ih =>
    have happend := ih.append (hoperand hright) (before ++ op.symbol :: after)
    simpa only [List.append_assoc, List.cons_append] using happend

/-- The blanks of a sum are between its parts. -/
theorem IsSum.isTight {text : List Char} {e : Expr} (h : IsSum text e) : IsTight text :=
  Chain.isTight (Chain.isTight (Signed.isTight Atom.isTight)) h

/-! ### Induction over the grammar -/

/-- What the rules of the grammar keep: it is so of numerals and variables, and of what is made of
    phrases of which it is so. -/
structure Closed (P : Phrases) : Prop where
  numeral : ∀ {digits x}, Denotes digits x → P digits (.number x)
  named : ∀ {name}, IsName name → P ('$' :: name) (.var (String.ofList name))
  enclosed : ∀ {before after text e}, before.all isBlank = true → after.all isBlank = true →
    P text e → P ('(' :: (before ++ (text ++ (after ++ [')'])))) e
  minus : ∀ {blanks text e}, blanks.all isBlank = true → P text e →
    P ('-' :: (blanks ++ text)) (.negate e)
  binary : ∀ {op : Op} {before after text text' left right}, before.all isBlank = true →
    after.all isBlank = true → P text left → P text' right →
    P (text ++ (before ++ op.symbol :: (after ++ text'))) (.binary op left right)

/-- What the rules of the grammar keep is so of every sum. -/
theorem IsSum.of_closed {P : Phrases} (hP : Closed P) {text : List Char} {e : Expr}
    (h : IsSum text e) : P text e := by
  -- Atoms, sums, products and unaries are made of each other; of all four the same is shown.
  refine @Atom.rec_1 (fun text e _ => P text e) (fun text e _ => P text e)
    (fun text e _ => P text e) (fun text e _ => P text e) hP.numeral hP.named
    ?enclosed ?sum ?sumMore ?product ?productMore ?unary ?minus _ _ h
  case enclosed => exact fun hbefore hafter _ ih => hP.enclosed hbefore hafter ih
  case sum => exact fun _ ih => ih
  case sumMore =>
    exact fun _ hbefore hafter _ _ ihleft ihright => hP.binary hbefore hafter ihleft ihright
  case product => exact fun _ ih => ih
  case productMore =>
    exact fun _ hbefore hafter _ _ ihleft ihright => hP.binary hbefore hafter ihleft ihright
  case unary => exact fun _ ih => ih
  case minus => exact fun hblanks _ ih => hP.minus hblanks ih

/-! ### What follows a phrase -/

/-- What may follow a phrase of a level, up to blanks: nothing, a closing parenthesis or an
    operator that binds less tightly. -/
def Follows (level : ℕ) (rest : List Char) : Prop :=
  ∀ c ∈ rest.head?, c = ')' ∨ ∃ op : Op, op.level < level ∧ op.symbol = c

section Follows

variable {level : ℕ} {rest : List Char}

/-- What may follow a phrase may follow one that binds more tightly. -/
theorem Follows.mono {level' : ℕ} (h : level ≤ level') (hrest : Follows level rest) :
    Follows level' rest := by
  intro c hc
  refine (hrest c hc).imp_right ?_
  rintro ⟨op, hop, rfl⟩
  exact ⟨op, hop.trans_le h, rfl⟩

theorem follows_paren (level : ℕ) (rest : List Char) : Follows level (')' :: rest) := by
  intro c hc
  exact .inl (Option.mem_some.1 hc).symm

theorem follows_symbol (op : Op) (rest : List Char) :
    Follows (op.level + 1) (op.symbol :: rest) := by
  intro c hc
  exact .inr ⟨op, Nat.lt_succ_self _, Option.mem_some.1 hc⟩

/-- Neither a blank nor what may follow a phrase is a name character, a digit or a point. -/
theorem Follows.head_not_taken (h : Follows level (trimStart rest)) {c : Char}
    (hc : c ∈ rest.head?) : isNameChar c = false ∧ c.isDigit = false ∧ c ≠ '.' := by
  obtain ⟨rest, rfl⟩ := List.head?_eq_some_iff.1 hc
  by_cases hblank : isBlank c = true
  · refine ⟨Bool.eq_false_iff.2 fun hname => ?_, Bool.eq_false_iff.2 fun hdigit => ?_, ?_⟩
    · exact absurd hblank (Bool.eq_false_iff.1 (isBlank_of_isNameChar hname))
    · exact absurd hblank (Bool.eq_false_iff.1 (isBlank_of_isDigit hdigit))
    · rintro rfl
      cases hblank
  · rw [trimStart, List.dropWhile_cons_of_neg hblank] at h
    rcases h c rfl with rfl | ⟨op, -, rfl⟩
    · decide
    · cases op <;> decide

end Follows

end Expr

end GraphScript
