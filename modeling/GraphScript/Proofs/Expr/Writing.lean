import GraphScript.Decimal.Layout
import GraphScript.Proofs.Expr.Reading

/-!
# Writing expressions

An expression is written with parentheses around an operand exactly where the operand binds less
tightly than its place asks for (`write`): the left operand of an operator has to bind as tightly
as the operator, the right operand more tightly, and what is negated as tightly as a negation.

How a number is written is left open, as long as it is a numeral that denotes the number, and the
names have to be names (`Writable`). So there are expressions without any text, as numerals have no
sign. But what some text denotes can be written (`exists_writable`), and the text that is written
denotes it again (`isSum_write`).
-/

namespace GraphScript.Expr

open Text

/-! ### Levels -/

/-- How tightly an expression binds. -/
def level : Expr → ℕ
  | .binary op _ _ => op.level
  | .negate _ => 2
  | .number _ | .var _ => 3

/-- The phrases that bind as tightly as a level. -/
def Phrase : ℕ → Phrases
  | 0 => IsSum
  | 1 => IsProduct
  | 2 => IsUnary
  | _ => Atom

theorem Phrase.succ {level : ℕ} {text : List Char} {e : Expr} (h : Phrase (level + 1) text e) :
    Phrase level text e := by
  rcases level with _ | _ | _ | level
  · exact .operand h
  · exact .operand h
  · exact .operand h
  · exact h

/-- What binds tightly may stand where less is asked for. -/
theorem Phrase.mono {level level' : ℕ} (hle : level ≤ level') {text : List Char} {e : Expr}
    (h : Phrase level' text e) : Phrase level text e := by
  induction level', hle using Nat.le_induction with
  | base => exact h
  | succ level' _ ih => exact ih h.succ

/-- In parentheses, everything binds as tightly as can be. -/
theorem Phrase.enclosed {text : List Char} {e : Expr} (h : IsSum text e) (level : ℕ) :
    Phrase level ('(' :: (text ++ [')'])) e := by
  have hatom : Atom ('(' :: ([] ++ (text ++ ([] ++ [')'])))) e := .enclosed rfl rfl h
  exact Phrase.mono (Nat.le_add_right level 3) hatom

theorem Phrase.negate {text : List Char} {e : Expr} (h : Phrase 2 text e) :
    Phrase 2 ('-' :: text) (.negate e) := by
  have hempty : ([] : List Char).all isBlank = true := rfl
  exact Signed.minus hempty h

theorem Phrase.binary {op : Op} {text text' : List Char} {left right : Expr}
    (hleft : Phrase op.level text left) (hright : Phrase (op.level + 1) text' right) :
    Phrase op.level (text ++ op.symbol :: text') (.binary op left right) := by
  have hempty : ([] : List Char).all isBlank = true := rfl
  rcases op.level_eq_zero_or_one with hlevel | hlevel
  · rw [hlevel] at hleft hright ⊢
    exact Chain.more hlevel hempty hempty hleft hright
  · rw [hlevel] at hleft hright ⊢
    exact Chain.more hlevel hempty hempty hleft hright

/-! ### Written expressions -/

/-- The text of an operand in a place that asks for a level. -/
def place (operand : Expr) (level : ℕ) (text : List Char) : List Char :=
  if operand.level < level then '(' :: (text ++ [')']) else text

/-- The text of an expression, with the parentheses that it needs. -/
def write (numeral : Float → List Char) : Expr → List Char
  | .number x => numeral x
  | .var name => '$' :: name.toList
  | .negate e => '-' :: place e 2 (e.write numeral)
  | .binary op left right =>
    place left op.level (left.write numeral) ++
      op.symbol :: place right (op.level + 1) (right.write numeral)

/-- The numbers are written as numerals that denote them, and the names are names. -/
def Writable (numeral : Float → List Char) : Expr → Prop
  | .number x => Denotes (numeral x) x
  | .var name => IsName name.toList
  | .negate e => e.Writable numeral
  | .binary _ left right => left.Writable numeral ∧ right.Writable numeral

variable {numeral : Float → List Char}

theorem phrase_place {operand : Expr} {text : List Char} (h : Phrase operand.level text operand)
    (level : ℕ) : Phrase level (place operand level text) operand := by
  rw [place]
  split_ifs with hlevel
  · exact Phrase.enclosed (h.mono (Nat.zero_le _)) level
  · exact h.mono (not_lt.1 hlevel)

/-- What is written binds as tightly as the expression. -/
theorem phrase_write {e : Expr} (h : e.Writable numeral) :
    Phrase e.level (e.write numeral) e := by
  induction e with
  | number x => exact Atom.numeral h
  | var name =>
    have hatom : Atom ('$' :: name.toList) (.var (String.ofList name.toList)) := .named h
    rwa [String.ofList_toList] at hatom
  | negate e ih => exact Phrase.negate (phrase_place (ih h) 2)
  | binary op left right ihleft ihright =>
    exact Phrase.binary (phrase_place (ihleft h.1) _) (phrase_place (ihright h.2) _)

theorem isSum_write {e : Expr} (h : e.Writable numeral) : IsSum (e.write numeral) e :=
  (phrase_write h).mono (Nat.zero_le _)

/-! ### What can be written -/

/-- What a text denotes can be written with numerals for all numbers that have one. -/
theorem IsSum.writable (hnumeral : ∀ {digits x}, Denotes digits x → Denotes (numeral x) x)
    {text : List Char} {e : Expr} (h : IsSum text e) : e.Writable numeral := by
  have hclosed : Closed fun _ e => e.Writable numeral :=
    { numeral := hnumeral
      named := fun {name} hname => by rwa [Writable, String.toList_ofList]
      enclosed := fun _ _ htext => htext
      minus := fun _ htext => htext
      binary := fun _ _ hleft hright => ⟨hleft, hright⟩ }
  exact h.of_closed hclosed

theorem exists_writable {text : List Char} {e : Expr} (h : IsSum text e) :
    ∃ numeral, e.Writable numeral :=
  ⟨fun x => Classical.epsilon (Denotes · x), h.writable fun hdigits =>
    Classical.epsilon_spec (p := (Denotes · _)) ⟨_, hdigits⟩⟩

/-! ### Reading what is written -/

/-- A text denotes an expression exactly if it is a sum of the grammar, up to the blanks on its
    ends. Every expression that a text denotes can be written with the parentheses that it needs,
    and then it is what its text denotes. -/
theorem parse_follows_grammar (text : List Char) (e : Expr) :
    (parse? text = some e ↔ IsSum (trim text) e) ∧ parse? (trim text) = parse? text ∧
      (parse? text = some e → ∃ numeral, e.Writable numeral) ∧
      ∀ numeral, e.Writable numeral → parse? (e.write numeral) = some e := by
  refine ⟨parse?_eq_some_iff, ?_, fun h => ?_, fun numeral h => ?_⟩
  · refine Option.ext fun e' => ?_
    rw [parse?_eq_some_iff, parse?_eq_some_iff, trim_trim]
  · exact exists_writable (parse?_eq_some_iff.1 h)
  · have hsum := isSum_write h
    rwa [parse?_eq_some_iff, trim_of_isTight hsum.isTight]

/-- A difference whose right operand is a difference, times a negated sum. -/
def mixed : Expr :=
  .binary .multiply
    (.binary .subtract (.number 7) (.binary .subtract (.number 2.5) (.var "x")))
    (.negate (.binary .add (.number 7) (.var "y_2")))

theorem parse_follows_grammar_mixed :
    IsSum "(7 - (2.50-$x)) * - ( 7+$y_2 )".toList mixed ∧
      mixed.write Decimal.plain.write = "(7-(2.5-$x))*-(7+$y_2)".toList ∧
      mixed.Writable Decimal.plain.write ∧
      parse? (mixed.write Decimal.plain.write) = some mixed := by
  have hread : parse? "  (7 - (2.50-$x)) * - ( 7+$y_2 )".toList = some mixed := by decide +kernel
  have hseven : Decimal.plain.write 7 = ['7'] := by decide +kernel
  have hhalf : Decimal.plain.write 2.5 = ['2'] ++ '.' :: ['5'] := by decide +kernel
  have hwritable : mixed.Writable Decimal.plain.write := by
    simp only [mixed, Writable, hseven, hhalf]
    have hwhole : Denotes ['7'] 7 := ⟨.whole (by decide) (by decide), by decide +kernel⟩
    have hdecimal : Denotes (['2'] ++ '.' :: ['5']) 2.5 :=
      ⟨.decimal (by decide) (by decide) (by decide) (by decide), by decide +kernel⟩
    exact ⟨⟨hwhole, hdecimal, by decide +kernel⟩, hwhole, by decide +kernel⟩
  obtain ⟨hiff, -, -, hwrite⟩ :=
    parse_follows_grammar "  (7 - (2.50-$x)) * - ( 7+$y_2 )".toList mixed
  exact ⟨hiff.1 hread, by decide +kernel, hwritable, hwrite _ hwritable⟩

end GraphScript.Expr
