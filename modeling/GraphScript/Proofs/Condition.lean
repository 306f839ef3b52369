import GraphScript.Condition
import GraphScript.Proofs.Text

/-!
# Negated conditions

`NOT` in front of a text turns its condition around (`parse_not`), whatever the text is, as long as
there is one: what is read is the negation of what the text alone is read as, and a text that
cannot be read fails in the same way. Blanks do not matter, neither those between the two nor those
around them, and a word that only begins like `NOT` is part of the text.

A negation is taken back by the next one, so that a condition that was read has one negation at
most, in front of all else (`IsNormal`). Any number of them is one or none, by its parity
(`parse_nots`).
-/

namespace GraphScript.Condition

open Text

/-- The condition is not a negation. -/
def IsPositive : Condition → Prop
  | .check _ => True
  | .connected _ _ => True
  | .not _ => False
  | .unknown _ => True

/-- There is no negation below the first. -/
def IsNormal : Condition → Prop
  | .check _ => True
  | .connected _ _ => True
  | .not condition => condition.IsPositive
  | .unknown _ => True

/-- Takes a negation off, or puts one on. -/
def negate : Condition → Condition
  | .check asked => .not (.check asked)
  | .connected a b => .not (.connected a b)
  | .not condition => condition
  | .unknown text => .not (.unknown text)

theorem IsPositive.isNormal {c : Condition} (h : c.IsPositive) : c.IsNormal := by
  cases c with
  | not condition => exact h.elim
  | check | connected | unknown => trivial

theorem IsPositive.negate_eq {c : Condition} (h : c.IsPositive) : c.negate = .not c := by
  cases c with
  | not condition => exact h.elim
  | check | connected | unknown => rfl

theorem IsPositive.isNormal_negate {c : Condition} (h : c.IsPositive) : c.negate.IsNormal := by
  rw [h.negate_eq]
  exact h

theorem IsNormal.negate_negate {c : Condition} (h : c.IsNormal) : c.negate.negate = c := by
  cases c with
  | not condition => exact IsPositive.negate_eq h
  | check | connected | unknown => rfl

theorem evaluate_not (c : Condition) (g : Graph) (env : Environment) :
    (Condition.not c).evaluate g env = (c.evaluate g env).map (!·) := by
  rw [evaluate]
  cases c.evaluate g env <;> rfl

theorem evaluate_negate (c : Condition) (g : Graph) (env : Environment) :
    c.negate.evaluate g env = (c.evaluate g env).map (!·) := by
  cases c with
  | not condition =>
    rw [negate, evaluate_not]
    cases condition.evaluate g env with
    | error e => rfl
    | ok b => exact congrArg Except.ok (Bool.not_not b).symm
  | check asked => exact evaluate_not _ g env
  | connected a b => exact evaluate_not _ g env
  | unknown text => exact evaluate_not _ g env

/-! ### Reading -/

theorem stripNots_not (negated : Bool) (text : List Char) :
    stripNots negated ("NOT ".toList ++ text) = stripNots (!negated) text := rfl

theorem stripNots_of_ne {c : Char} {rest : List Char}
    (h : ∀ after, c = 'N' → rest ≠ 'O' :: 'T' :: ' ' :: after) (negated : Bool) :
    stripNots negated (c :: rest) =
      if isBlank c then stripNots negated rest else (negated, c :: rest) := by
  rw [stripNots.eq_def]
  split
  · rename_i after heq
    cases heq
    exact absurd rfl (h after rfl)
  · rename_i heq
    cases heq
    rfl
  · rename_i heq
    cases heq

theorem stripNots_append {blanks : List Char} (h : blanks.all isBlank = true) (negated : Bool)
    (text : List Char) : stripNots negated (blanks ++ text) = stripNots negated text := by
  induction blanks with
  | nil => rfl
  | cons c blanks ih =>
    rw [List.all_cons, Bool.and_eq_true] at h
    obtain ⟨hc, hblanks⟩ := h
    have hne : c ≠ 'N' := by
      rintro rfl
      cases hc
    rw [List.cons_append, stripNots_of_ne (fun _ h => absurd h hne), if_pos hc, ih hblanks]

/-- The parity of the negations is counted on from where it begins. -/
theorem stripNots_flip (negated : Bool) (text : List Char) :
    stripNots (!negated) text = (!(stripNots negated text).1, (stripNots negated text).2) := by
  fun_induction stripNots negated text with
  | case1 negated rest ih => exact ih
  | case2 negated c rest hnot hc ih => rw [stripNots_of_ne hnot, if_pos hc, ih]
  | case3 negated c rest hnot hc => rw [stripNots_of_ne hnot, if_neg hc]
  | case4 negated => rfl

theorem isPositive_of_parsePositive {text : List Char} {c : Condition}
    (h : parsePositive text = .ok c) : c.IsPositive := by
  rw [parsePositive] at h
  split at h
  · cases h
    trivial
  · split at h
    · cases h
      trivial
    · split at h
      · cases h
        trivial
      · cases h

/-- A condition is read from what is left without the negations in front. -/
theorem parse_eq {text positive : List Char} {negated : Bool}
    (h : stripNots false (trim text) = (negated, positive)) :
    parse text = (parsePositive positive).map fun c => if negated then c.negate else c := by
  rw [parse, h]
  dsimp only
  cases hpositive : parsePositive positive with
  | error e => rfl
  | ok c =>
    have hnegate := (isPositive_of_parsePositive hpositive).negate_eq
    cases negated with
    | false => rfl
    | true => exact congrArg Except.ok hnegate.symm

theorem isNormal_of_parse {text : List Char} {c : Condition} (h : parse text = .ok c) :
    c.IsNormal := by
  rw [parse_eq rfl] at h
  cases hpositive : parsePositive (stripNots false (trim text)).2 with
  | error e =>
    rw [hpositive] at h
    cases h
  | ok positive =>
    have hpos := isPositive_of_parsePositive hpositive
    rw [hpositive] at h
    cases h
    cases (stripNots false (trim text)).1 with
    | false => exact hpos.isNormal
    | true => exact hpos.isNormal_negate

theorem parse_append_left {blanks : List Char} (h : blanks.all isBlank = true) (text : List Char) :
    parse (blanks ++ text) = parse text := by
  rw [parse, parse, trim_append_left h]

/-- In front of a text that is not blank, `NOT` takes part in no trimming. -/
theorem stripNots_trim_not {text : List Char} (h : trim text ≠ []) (negated : Bool) :
    stripNots negated (trim ("NOT ".toList ++ text)) = stripNots (!negated) (trim text) := by
  obtain ⟨before, after, hbefore, hafter, htext⟩ := exists_trim text
  have htight : IsTight ("NOT".toList ++ (' ' :: before ++ trim text)) :=
    IsTight.append ⟨⟨'N', ['O', 'T'], rfl, rfl⟩, ⟨['N', 'O'], 'T', rfl, rfl⟩⟩ (isTight_trim h) _
  have htrim : trim ("NOT ".toList ++ text) = "NOT ".toList ++ (before ++ trim text) := by
    calc trim ("NOT ".toList ++ text)
        = trim ("NOT ".toList ++ (before ++ trim text) ++ after) := by
          rw [List.append_assoc, ← htext]
      _ = trim ("NOT".toList ++ (' ' :: before ++ trim text)) := trim_append_right hafter _
      _ = "NOT ".toList ++ (before ++ trim text) := trim_of_isTight htight
  rw [htrim, stripNots_not, stripNots_append hbefore]

/-- A text with `NOT` in front is read as the negation of what it is read as without. -/
theorem parse_not {text : List Char} (h : ∃ c ∈ text, isBlank c = false) :
    parse ("NOT ".toList ++ text) = (parse text).map negate := by
  obtain ⟨character, hmem, hblank⟩ := h
  have hstrip := stripNots_trim_not (trim_ne_nil hmem hblank) false
  rw [stripNots_flip] at hstrip
  have hparse : parse text = _ := parse_eq rfl
  rw [parse_eq hstrip, hparse]
  cases hpositive : parsePositive (stripNots false (trim text)).2 with
  | error e => rfl
  | ok c =>
    have hnormal := (isPositive_of_parsePositive hpositive).isNormal
    cases (stripNots false (trim text)).1 with
    | false => rfl
    | true => exact congrArg Except.ok hnormal.negate_negate.symm

/-- Of any number of negations, with any blanks behind each of them, the parity is left. -/
theorem parse_nots {gaps : List (List Char)} (hgaps : ∀ gap ∈ gaps, gap.all isBlank = true)
    {text : List Char} (h : ∃ c ∈ text, isBlank c = false) :
    parse (gaps.flatMap ("NOT ".toList ++ ·) ++ text) =
      (parse text).map fun c => if gaps.length % 2 = 1 then c.negate else c := by
  induction gaps with
  | nil => cases hparse : parse text <;> rw [List.flatMap_nil, List.nil_append, hparse] <;> rfl
  | cons gap gaps ih =>
    obtain ⟨hgap, hgaps⟩ := List.forall_mem_cons.1 hgaps
    have hrest : ∃ c ∈ gap ++ (gaps.flatMap ("NOT ".toList ++ ·) ++ text), isBlank c = false := by
      obtain ⟨c, hmem, hc⟩ := h
      exact ⟨c, List.mem_append_right _ (List.mem_append_right _ hmem), hc⟩
    rw [List.flatMap_cons, List.append_assoc, List.append_assoc, parse_not hrest,
      parse_append_left hgap, ih hgaps, List.length_cons]
    cases hparse : parse text with
    | error e => rfl
    | ok c =>
      refine congrArg Except.ok ?_
      dsimp only
      rcases Nat.mod_two_eq_zero_or_one gaps.length with heven | hodd
      · rw [if_neg (by omega), if_pos (by omega)]
      · rw [if_pos hodd, if_neg (by omega), (isNormal_of_parse hparse).negate_negate]

/-- Negation. A text that is not blank cannot be read behind `NOT` exactly if it cannot be read
    without, and for the same reason. Otherwise, the one holds where the other does not, of every
    graph and under all variables, or both fail alike. Of any number of them, with blanks in
    between, the parity is left. And whatever the text, the condition read has no negation but one
    in front. -/
theorem parse_negation {text : List Char} (htext : ∃ c ∈ text, isBlank c = false) :
    (∀ error, parse ("NOT ".toList ++ text) = .error error ↔ parse text = .error error) ∧
      (∀ c, parse text = .ok c → ∃ c', parse ("NOT ".toList ++ text) = .ok c' ∧
        ∀ g env, c'.evaluate g env = (c.evaluate g env).map (!·)) ∧
      (∀ gaps : List (List Char), (∀ gap ∈ gaps, gap.all isBlank = true) →
        parse (gaps.flatMap ("NOT ".toList ++ ·) ++ text) =
          (parse text).map fun c => if gaps.length % 2 = 1 then c.negate else c) ∧
      ∀ any c, parse any = .ok c → c.IsNormal := by
  rw [parse_not htext]
  refine ⟨fun error => ?_, fun c hc => ?_, fun gaps hgaps => parse_nots hgaps htext,
    fun any c hc => isNormal_of_parse hc⟩
  · cases parse text with
    | error e => exact Iff.rfl
    | ok c =>
      constructor
      · intro h
        cases h
      · intro h
        cases h
  · rw [hc]
    exact ⟨c.negate, rfl, evaluate_negate c⟩

/-- Three negations, with blanks of several kinds between them, of a word that only begins like
    one; and a text with one operand too few, whose failure tells the text without the negation. -/
theorem parse_negation_stacked :
    let text := "\tNOT \u3000NOT  NOTED ".toList
    let short := "  CONNECTED a ".toList
    ((∃ c ∈ text, isBlank c = false) ∧ parse text = .ok (.unknown "NOTED") ∧
        ∃ c, parse ("NOT ".toList ++ text) = .ok c ∧
          ∀ g env, c.evaluate g env = .ok true) ∧
      (∃ c ∈ short, isBlank c = false) ∧
      parse ("NOT ".toList ++ short) =
        .error (.malformed "CONNECTED expects two nodes: CONNECTED a") := by
  intro text short
  have htext : ∃ c ∈ text, isBlank c = false := ⟨'N', by decide, rfl⟩
  have hshort : ∃ c ∈ short, isBlank c = false := ⟨'C', by decide, rfl⟩
  have hparse : parse text = .ok (.unknown "NOTED") := by rfl
  obtain ⟨c, hc, hevaluate⟩ := (parse_negation htext).2.1 _ hparse
  refine ⟨⟨htext, hparse, c, hc, hevaluate⟩, hshort, ?_⟩
  exact ((parse_negation hshort).1 _).2 (by rfl)

end GraphScript.Condition
