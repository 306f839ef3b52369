import GraphScript.Expr.Size
import GraphScript.Proofs.Expr.Reading

/-!
# What the limits of size bound

An expression is evaluated by a recursion as deep as the expression is high (`height`). Every
level of it but the lowest comes from an operator character of the text, so a text with few of
them denotes an expression of little height (`IsSum.height_le`).

The limits are checked before the text is read, by a count of open parentheses that knows nothing
of the grammar. What it is meant to bound is how deep matching parentheses nest (`NestsWithin`).
On a text whose parentheses match the count is right: it comes back to where it was, and on the
way it passes the limit exactly if they nest too deep (`NestsWithin.excessFrom?_append`,
`NestsWithin.of_excessFrom?`). The parentheses of every sum match (`IsSum.exists_nestsWithin`).
-/

namespace GraphScript.Expr

open Text

/-! ### Height -/

/-- The number of levels of an expression, which is how deep its evaluation goes. -/
def height : Expr → ℕ
  | .number _ | .var _ => 1
  | .negate e => e.height + 1
  | .binary _ left right => max left.height right.height + 1

theorem isOperator_symbol (op : Op) : isOperator op.symbol = true := by
  cases op <;> rfl

theorem closed_height : Closed fun text e => e.height ≤ text.countP isOperator + 1 where
  numeral _ := Nat.le_add_left 1 _
  named _ := Nat.le_add_left 1 _
  enclosed _ _ htext := by
    simp only [List.countP_cons, List.countP_append]
    omega
  minus _ htext := by
    rw [height, List.countP_cons_of_pos rfl, List.countP_append]
    omega
  binary {op} _ _ _ _ _ _ _ _ hleft hright := by
    rw [height, List.countP_append, List.countP_append,
      List.countP_cons_of_pos (isOperator_symbol op), List.countP_append]
    omega

/-- There is an operator character for each level of an expression but the lowest. -/
theorem IsSum.height_le {text : List Char} {e : Expr} (h : IsSum text e) :
    e.height ≤ text.countP isOperator + 1 :=
  h.of_closed closed_height

/-! ### Matching parentheses -/

/-- The texts whose parentheses match and nest at most `n` deep. -/
inductive NestsWithin : ℕ → List Char → Prop
  | nil {n : ℕ} : NestsWithin n []
  | char {n : ℕ} {c : Char} {rest : List Char} (hopening : c ≠ '(') (hclosing : c ≠ ')')
      (h : NestsWithin n rest) : NestsWithin n (c :: rest)
  | enclosed {n : ℕ} {text rest : List Char} (htext : NestsWithin n text)
      (hrest : NestsWithin (n + 1) rest) : NestsWithin (n + 1) ('(' :: (text ++ ')' :: rest))

section NestsWithin

variable {n n' : ℕ} {text text' : List Char}

theorem NestsWithin.mono (h : NestsWithin n text) (hle : n ≤ n') : NestsWithin n' text := by
  induction h generalizing n' with
  | nil => exact .nil
  | char hopening hclosing h ih => exact .char hopening hclosing (ih hle)
  | @enclosed n text rest htext hrest ihtext ihrest =>
    obtain ⟨n', rfl⟩ := Nat.exists_eq_add_of_lt hle
    exact .enclosed (ihtext (by omega)) (ihrest (by omega))

theorem NestsWithin.append (h : NestsWithin n text) (h' : NestsWithin n text') :
    NestsWithin n (text ++ text') := by
  induction h with
  | nil => exact h'
  | char hopening hclosing h ih => exact .char hopening hclosing (ih h')
  | @enclosed n text rest htext hrest ihtext ihrest =>
    rw [List.cons_append, List.append_assoc, List.cons_append]
    exact .enclosed htext (ihrest h')

/-- Nothing nests in a text without parentheses. -/
theorem nestsWithin_of_all {p : Char → Bool} (hopening : p '(' = false) (hclosing : p ')' = false)
    (h : text.all p = true) : NestsWithin n text := by
  induction text with
  | nil => exact .nil
  | cons c text ih =>
    rw [List.all_cons, Bool.and_eq_true] at h
    refine .char ?_ ?_ (ih h.2)
    · rintro rfl
      exact absurd h.1 (Bool.eq_false_iff.1 hopening)
    · rintro rfl
      exact absurd h.1 (Bool.eq_false_iff.1 hclosing)

theorem nestsWithin_of_blank (h : text.all isBlank = true) : NestsWithin n text :=
  nestsWithin_of_all rfl rfl h

theorem Numeral.nestsWithin (h : Numeral text) : NestsWithin n text := by
  cases h with
  | whole hne h => exact nestsWithin_of_all rfl rfl h
  | decimal hne h hpart hbehind =>
    have hpoint := NestsWithin.char (n := n) (c := '.') (by decide) (by decide)
      (nestsWithin_of_all rfl rfl hbehind)
    exact (nestsWithin_of_all rfl rfl h).append hpoint

theorem closed_nestsWithin : Closed fun text _ => ∃ n, NestsWithin n text where
  numeral h := ⟨0, h.numeral.nestsWithin⟩
  named {name} hname := by
    have hall : name.all isNameChar = true := List.all_eq_true.2 hname.isNameChar
    exact ⟨0, .char (by decide) (by decide) (nestsWithin_of_all (by decide) (by decide) hall)⟩
  enclosed hbefore hafter htext := by
    obtain ⟨n, htext⟩ := htext
    have hinner := (nestsWithin_of_blank hbefore).append
      (htext.append (nestsWithin_of_blank hafter))
    refine ⟨n + 1, ?_⟩
    simpa only [List.append_assoc] using NestsWithin.enclosed hinner .nil
  minus hblanks htext := by
    obtain ⟨n, htext⟩ := htext
    exact ⟨n, .char (by decide) (by decide) ((nestsWithin_of_blank hblanks).append htext)⟩
  binary {op} _ _ _ _ _ _ hbefore hafter hleft hright := by
    obtain ⟨n, hleft⟩ := hleft
    obtain ⟨n', hright⟩ := hright
    have hoperand := (nestsWithin_of_blank hafter).append (hright.mono (le_max_right n n'))
    have hsymbol := NestsWithin.char op.symbol_ne_paren.1 op.symbol_ne_paren.2 hoperand
    exact ⟨_, (hleft.mono (le_max_left n n')).append
      ((nestsWithin_of_blank hbefore).append hsymbol)⟩

/-- The parentheses of a sum match. -/
theorem IsSum.exists_nestsWithin {e : Expr} (h : IsSum text e) : ∃ n, NestsWithin n text :=
  h.of_closed closed_nestsWithin

end NestsWithin

/-! ### The check -/

section Check

variable {depth operators n : ℕ} {text rest : List Char}

theorem excessFrom?_opening : excessFrom? depth operators ('(' :: rest) = none ↔
    depth < maxNesting ∧ excessFrom? (depth + 1) operators rest = none := by
  rw [excessFrom?, if_pos rfl]
  split_ifs with h <;> simp [h]

theorem excessFrom?_closing :
    excessFrom? (depth + 1) operators (')' :: rest) = excessFrom? depth operators rest := by
  rw [excessFrom?, if_neg (by decide), if_pos rfl, Nat.add_sub_cancel]

theorem excessFrom?_char {c : Char} (hopening : c ≠ '(') (hclosing : c ≠ ')')
    (h : operators ≤ maxOperators) : excessFrom? depth operators (c :: rest) = none ↔
      operators + [c].countP isOperator ≤ maxOperators ∧
        excessFrom? depth (operators + [c].countP isOperator) rest = none := by
  rw [excessFrom?, if_neg hopening, if_neg hclosing]
  cases hc : isOperator c with
  | false => simp [hc, h]
  | true =>
    have hone : [c].countP isOperator = 1 := List.countP_cons_of_pos hc
    rw [if_pos rfl, hone, Nat.add_one_le_iff]
    split_ifs with hlt <;> simp [hlt]

theorem add_countP_cons (c : Char) : operators + (c :: text).countP isOperator =
    operators + [c].countP isOperator + text.countP isOperator := by
  rw [Nat.add_assoc, ← List.countP_append, List.singleton_append]

theorem add_countP_enclosed :
    operators + ('(' :: (text ++ ')' :: rest)).countP isOperator =
      operators + text.countP isOperator + rest.countP isOperator := by
  rw [List.countP_cons_of_neg (by decide), List.countP_append, List.countP_cons_of_neg (by decide),
    Nat.add_assoc]

/-- A text passes if its parentheses nest no deeper than there is room for. Behind it, as many
    parentheses are open as before it. -/
theorem NestsWithin.excessFrom?_append (h : NestsWithin n text) (hdepth : depth + n ≤ maxNesting)
    (hoperators : operators + text.countP isOperator ≤ maxOperators)
    (hrest : excessFrom? depth (operators + text.countP isOperator) rest = none) :
    excessFrom? depth operators (text ++ rest) = none := by
  induction h generalizing depth operators rest with
  | nil => exact hrest
  | @char n c text hopening hclosing h ih =>
    rw [add_countP_cons] at hoperators hrest
    rw [List.cons_append, excessFrom?_char hopening hclosing (by omega)]
    exact ⟨by omega, ih hdepth hoperators hrest⟩
  | @enclosed n text more htext hmore ihtext ihmore =>
    rw [add_countP_enclosed] at hoperators hrest
    rw [List.cons_append, List.append_assoc, List.cons_append, excessFrom?_opening]
    refine ⟨by omega, ihtext (by omega) (by omega) ?_⟩
    rw [excessFrom?_closing]
    exact ihmore hdepth hoperators hrest

/-- If a text with matching parentheses passes, they nest no deeper than there was room for, and
    what is behind it passes with as many parentheses open as before it. -/
theorem NestsWithin.of_excessFrom? (h : NestsWithin n text) (hdepth : depth ≤ maxNesting)
    (hoperators : operators ≤ maxOperators)
    (hnone : excessFrom? depth operators (text ++ rest) = none) :
    NestsWithin (maxNesting - depth) text ∧
      operators + text.countP isOperator ≤ maxOperators ∧
      excessFrom? depth (operators + text.countP isOperator) rest = none := by
  induction h generalizing depth operators rest with
  | nil => exact ⟨.nil, hoperators, hnone⟩
  | @char n c text hopening hclosing h ih =>
    rw [List.cons_append, excessFrom?_char hopening hclosing hoperators] at hnone
    obtain ⟨hnests, hcount, hrest⟩ := ih hdepth hnone.1 hnone.2
    rw [add_countP_cons]
    exact ⟨.char hopening hclosing hnests, hcount, hrest⟩
  | @enclosed n text more htext hmore ihtext ihmore =>
    rw [List.cons_append, List.append_assoc, List.cons_append, excessFrom?_opening] at hnone
    obtain ⟨hlt, hnone⟩ := hnone
    obtain ⟨hinner, hcount, hnone⟩ := ihtext hlt hoperators hnone
    rw [excessFrom?_closing] at hnone
    obtain ⟨hbehind, hcount', hrest⟩ := ihmore hdepth hcount hnone
    have hroom : maxNesting - depth = maxNesting - (depth + 1) + 1 := by omega
    rw [hroom] at hbehind ⊢
    rw [add_countP_enclosed]
    exact ⟨.enclosed hinner hbehind, hcount', hrest⟩

/-- Where parentheses match, the check is for how deep they nest and for how many operator
    characters there are. -/
theorem NestsWithin.excess?_eq_none_iff (h : NestsWithin n text) : excess? text = none ↔
    NestsWithin maxNesting text ∧ text.countP isOperator ≤ maxOperators := by
  rw [excess?]
  constructor
  · intro hnone
    rw [← List.append_nil text] at hnone
    obtain ⟨hnests, hcount, -⟩ := h.of_excessFrom? (Nat.zero_le _) (Nat.zero_le _) hnone
    rw [Nat.zero_add] at hcount
    exact ⟨hnests, hcount⟩
  · rintro ⟨hnests, hcount⟩
    rw [← Nat.zero_add (text.countP isOperator)] at hcount
    rw [← List.append_nil text]
    exact hnests.excessFrom?_append (Nat.zero_add _).le hcount rfl

/-- Blanks around a sum do not change that its parentheses match. -/
theorem exists_nestsWithin_of_trim {e : Expr} (h : IsSum (trim text) e) :
    ∃ n, NestsWithin n text := by
  obtain ⟨before, after, hbefore, hafter, htext⟩ := exists_trim text
  obtain ⟨n, hsum⟩ := h.exists_nestsWithin
  rw [htext]
  exact ⟨n, ((nestsWithin_of_blank hbefore).append hsum).append (nestsWithin_of_blank hafter)⟩

theorem countP_trim_le (p : Char → Bool) (text : List Char) :
    (trim text).countP p ≤ text.countP p := by
  obtain ⟨before, after, -, -, htext⟩ := exists_trim text
  have hcount := congrArg (List.countP p) htext
  rw [List.countP_append, List.countP_append] at hcount
  omega

end Check

/-- The limits of size bound how deep an expression is evaluated. If a text within them denotes an
    expression, its height is at most one more than the number of operator characters, and at most
    257. And a text that is a sum is within them exactly if its parentheses nest at most 32 deep
    and it has at most 256 operator characters. -/
theorem size_limits_height (text : List Char) (e : Expr) :
    (excess? text = none → parse? text = some e →
      e.height ≤ text.countP isOperator + 1 ∧ e.height ≤ 257) ∧
    (IsSum (trim text) e →
      (excess? text = none ↔ NestsWithin 32 text ∧ text.countP isOperator ≤ 256)) := by
  have hlimits (h : IsSum (trim text) e) :
      excess? text = none ↔ NestsWithin 32 text ∧ text.countP isOperator ≤ 256 := by
    obtain ⟨n, hnests⟩ := exists_nestsWithin_of_trim h
    exact hnests.excess?_eq_none_iff
  refine ⟨fun hexcess hparse => ?_, hlimits⟩
  have hsum := parse?_eq_some_iff.1 hparse
  have hheight : e.height ≤ text.countP isOperator + 1 :=
    hsum.height_le.trans (Nat.succ_le_succ (countP_trim_le isOperator text))
  have hcount := ((hlimits hsum).1 hexcess).2
  exact ⟨hheight, by omega⟩

/-- As many minus signs as there may be, in as many parentheses as may nest. -/
def largest : List Char :=
  List.replicate 32 '(' ++ (List.replicate 256 '-' ++ '1' :: List.replicate 32 ')')

theorem size_limits_height_largest :
    excess? largest = none ∧ parse? largest = some (negate^[256] (.number 1)) ∧
      (negate^[256] (.number 1)).height = 257 ∧
      (negate^[256] (.number 1)).height ≤ largest.countP isOperator + 1 ∧
      NestsWithin 32 largest := by
  have hexcess : excess? largest = none := by decide +kernel
  have hparse : parse? largest = some (negate^[256] (.number 1)) := by decide +kernel
  obtain ⟨hheight, hlimits⟩ := size_limits_height largest (negate^[256] (.number 1))
  exact ⟨hexcess, hparse, by decide +kernel, (hheight hexcess hparse).1,
    ((hlimits (parse?_eq_some_iff.1 hparse)).1 hexcess).1⟩

end GraphScript.Expr
