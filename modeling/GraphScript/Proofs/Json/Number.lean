import GraphScript.Json.Printer
import GraphScript.Json.Reader
import Mathlib.Data.List.TakeDrop
import Mathlib.Data.List.TakeWhile

/-!
# Numbers in JSON texts

A number is read up to the first character that cannot belong to it, so what follows a whole
number does not matter if it begins with such a character (`readNumber?_append`).

The integers that 64 bits can hold, signed or unsigned, are read back from their digits
(`readNumber?_int`). Of a double that is a property of its own (`ReadsBack`): the reader
rounds twice, and there are doubles that it misses by one place.
-/

namespace GraphScript

namespace Decimal

theorem valueOf_toDigits (n : Nat) : valueOf (Nat.toDigits 10 n) = n := by
  have hvalue := Nat.ofDigitChars_ten_toDigits (n := n)
  rwa [Nat.ofDigitChars_eq_foldl] at hvalue

/-- Only zero is written with a zero in front. -/
theorem head?_toDigits_eq_zero_iff (n : Nat) :
    (Nat.toDigits 10 n).head? = some '0' ↔ n = 0 := by
  induction n using Nat.strongRecOn with
  | ind n ih =>
    rcases Nat.lt_or_ge n 10 with hlt | hge
    · rw [Nat.toDigits_of_lt_base hlt, List.head?_cons, Option.some_inj, Nat.digitChar_eq_zero]
    · -- The first digit is that of the number without its last digit.
      rw [Nat.toDigits_of_base_le (by decide) hge, List.head?_append,
        Option.or_of_isSome (by simp), ih (n / 10) (by omega)]
      omega

end Decimal

namespace Json

/-! ### What follows a number -/

/-- What begins like this is no part of a number in front of it. -/
def endsNumber (rest : List Char) : Bool :=
  rest.head?.all fun c => !(c.isDigit || c == '.' || c == 'e' || c == 'E')

section

variable {rest : List Char}

theorem span_isDigit_append (h : endsNumber rest = true) (text : List Char) :
    (text ++ rest).span Char.isDigit =
      ((text.span Char.isDigit).1, (text.span Char.isDigit).2 ++ rest) := by
  simp only [List.span_eq_takeWhile_dropWhile]
  induction text with
  | nil =>
    cases rest with
    | nil => rfl
    | cons c rest =>
      have hc : c.isDigit = false := by
        simp only [endsNumber, List.head?_cons, Option.all_some, Bool.not_eq_true',
          Bool.or_eq_false_iff] at h
        exact h.1.1.1
      simp [hc]
  | cons c text ih =>
    cases hc : c.isDigit with
    | true => simpa [hc] using ih
    | false => simp [hc]

theorem readFraction?_append (h : endsNumber rest = true) {text digits after : List Char}
    (hread : readFraction? text = some (digits, after)) :
    readFraction? (text ++ rest) = some (digits, after ++ rest) := by
  rw [readFraction?.eq_def] at hread
  split at hread
  · rename_i text
    rw [List.cons_append, readFraction?, span_isDigit_append h]
    generalize text.span Char.isDigit = digits' at *
    obtain ⟨digits', after'⟩ := digits'
    dsimp only at hread ⊢
    split at hread
    · cases hread
    · cases hread
      rw [if_neg ‹_›]
  · rename_i hpoint
    cases hread
    rw [readFraction?.eq_def]
    split
    · -- There is no point: neither in the text nor in front of what follows it.
      rename_i heq
      exfalso
      cases text with
      | nil =>
        rw [List.nil_append] at heq
        rw [heq] at h
        cases h
      | cons c text =>
        cases heq
        exact hpoint _ rfl
    · rfl

theorem readExponent?_append (h : endsNumber rest = true) {text after : List Char}
    {exponent : Option Int} (hread : readExponent? text = some (exponent, after)) :
    readExponent? (text ++ rest) = some (exponent, after ++ rest) := by
  cases text with
  | nil =>
    cases hread
    cases rest with
    | nil => rfl
    | cons c rest =>
      have hc : (c = 'e' || c = 'E') = false := by
        simp only [endsNumber, List.head?_cons, Option.all_some, Bool.not_eq_true',
          Bool.or_eq_false_iff, beq_eq_false_iff_ne] at h
        simp [h.1.2, h.2]
      rw [List.nil_append, readExponent?, hc]
      rfl
  | cons c text =>
    rw [List.cons_append, readExponent?]
    rw [readExponent?] at hread
    split
    · rename_i hc
      rw [if_pos hc] at hread
      -- The sign is that of a text that is not empty, as digits follow it.
      have hsign : Decimal.sign (text ++ rest) =
          ((Decimal.sign text).1, (Decimal.sign text).2 ++ rest) := by
        cases text with
        | nil => cases hread
        | cons d text =>
          rw [List.cons_append, Decimal.sign.eq_def, Decimal.sign.eq_def]
          split <;> simp_all
      rw [hsign]
      dsimp only at hread ⊢
      rw [span_isDigit_append h]
      dsimp only
      split at hread
      · cases hread
      · cases hread
        rw [if_neg ‹_›]
    · rename_i hc
      rw [if_neg hc] at hread
      cases hread
      rfl

/-- A number is read from its parts, one after the other. -/
theorem readNumber?_eq_some_iff {text after : List Char} {j : Json} :
    readNumber? text = some (j, after) ↔
      let whole := (readMinus text).2.span Char.isDigit
      (whole.1.isEmpty || (whole.1.head? == some '0' && 1 < whole.1.length)) = false ∧
      ∃ fraction behind exponent, readFraction? whole.2 = some (fraction, behind) ∧
        readExponent? behind = some (exponent, after) ∧
        numberOf? (readMinus text).1 whole.1 fraction exponent = some j := by
  rw [readNumber?]
  dsimp only
  split
  · rename_i hwhole
    simp only [hwhole, Bool.true_eq_false, false_and, reduceCtorEq]
  · rename_i hwhole
    simp only [hwhole, true_and, bind, Option.bind_eq_some_iff, Prod.exists, pure,
      Option.some.injEq, Prod.mk.injEq]
    constructor
    · rintro ⟨fraction, behind, hfraction, exponent, after', hexponent, j', hvalue, rfl, rfl⟩
      exact ⟨fraction, behind, exponent, hfraction, hexponent, hvalue⟩
    · rintro ⟨fraction, behind, exponent, hfraction, hexponent, hvalue⟩
      exact ⟨fraction, behind, hfraction, exponent, after, hexponent, j, hvalue, rfl, rfl⟩

/-- The first character of a number is a digit or a minus. -/
theorem exists_cons_of_readNumber? {text after : List Char} {j : Json}
    (h : readNumber? text = some (j, after)) :
    ∃ c more, text = c :: more ∧ (c = '-' ∨ c.isDigit = true) := by
  obtain ⟨hwhole, -⟩ := readNumber?_eq_some_iff.1 h
  cases text with
  | nil => cases hwhole
  | cons c more =>
    refine ⟨c, more, rfl, ?_⟩
    by_cases hminus : c = '-'
    · exact .inl hminus
    · have hsign : readMinus (c :: more) = (false, c :: more) := by
        rw [readMinus.eq_def]
        split
        · simp_all
        · rfl
      right
      rw [hsign] at hwhole
      cases hc : c.isDigit with
      | true => rfl
      | false => simp [List.span_eq_takeWhile_dropWhile, hc] at hwhole

theorem readMinus_append {text : List Char} (h : text ≠ []) :
    readMinus (text ++ rest) = ((readMinus text).1, (readMinus text).2 ++ rest) := by
  cases text with
  | nil => contradiction
  | cons c more =>
    rw [List.cons_append, readMinus.eq_def, readMinus.eq_def]
    split <;> simp_all

/-- What follows a number does not matter. -/
theorem readNumber?_append (hrest : endsNumber rest = true) {text after : List Char} {j : Json}
    (h : readNumber? text = some (j, after)) :
    readNumber? (text ++ rest) = some (j, after ++ rest) := by
  have hne : text ≠ [] := by
    obtain ⟨c, more, rfl, -⟩ := exists_cons_of_readNumber? h
    exact List.cons_ne_nil c more
  obtain ⟨hwhole, fraction, behind, exponent, hfraction, hexponent, hvalue⟩ :=
    readNumber?_eq_some_iff.1 h
  refine readNumber?_eq_some_iff.2 ?_
  rw [readMinus_append hne]
  dsimp only
  rw [span_isDigit_append hrest]
  exact ⟨hwhole, fraction, behind ++ rest, exponent, readFraction?_append hrest hfraction,
    readExponent?_append hrest hexponent, hvalue⟩

end

/-! ### Integers -/

/-- The integers that a number without a point or an exponent can be. -/
def IsInteger (n : Int) : Prop :=
  Int64.minValue.toInt ≤ n ∧ n < UInt64.size

/-- The digits of a number are read as that number. -/
theorem readNumber?_digits {negative : Bool} {text : List Char} {m : Nat} {n : Int}
    (hsign : readMinus text = (negative, Nat.toDigits 10 m))
    (hvalue : integer? negative (Nat.toDigits 10 m) = some n) :
    readNumber? text = some (.int n, []) := by
  have hspan : (Nat.toDigits 10 m).span Char.isDigit = (Nat.toDigits 10 m, []) := by
    have hdigits : ∀ c ∈ Nat.toDigits 10 m, c.isDigit = true := fun c hc =>
      Nat.isDigit_of_mem_toDigits (by decide) (by decide) hc
    rw [List.span_eq_takeWhile_dropWhile, List.takeWhile_eq_self_iff.2 hdigits,
      List.dropWhile_eq_nil_iff.2 hdigits]
  refine readNumber?_eq_some_iff.2 ?_
  rw [hsign]
  dsimp only
  rw [hspan]
  refine ⟨?_, [], [], none, rfl, rfl, ?_⟩
  · -- A zero in front is the only digit.
    have hne : (Nat.toDigits 10 m).isEmpty = false := by simp
    rw [hne, Bool.false_or, Bool.and_eq_false_iff]
    by_cases hzero : m = 0
    · right
      rw [hzero, Nat.toDigits_zero]
      rfl
    · left
      rw [beq_eq_false_iff_ne, Ne, Decimal.head?_toDigits_eq_zero_iff]
      exact hzero
  · simp [numberOf?, hvalue]

theorem readNumber?_int {n : Int} (h : IsInteger n) :
    readNumber? (toString n).toList = some (.int n, []) := by
  obtain ⟨hmin, hmax⟩ := h
  rw [Int.toString_eq_repr, Int.repr_eq_if]
  split
  · rename_i hn
    have hdigits : n.toNat.repr.toList = Nat.toDigits 10 n.toNat := by
      rw [Nat.repr_eq_ofList_toDigits, String.toList_ofList]
    have hsign : readMinus (Nat.toDigits 10 n.toNat) = (false, Nat.toDigits 10 n.toNat) := by
      rw [readMinus.eq_def]
      split
      · rename_i heq
        have hminus : '-' ∈ Nat.toDigits 10 n.toNat := heq ▸ List.mem_cons_self
        exact absurd (Nat.isDigit_of_mem_toDigits (by decide) (by decide) hminus) (by decide)
      · rfl
    have hvalue : integer? false (Nat.toDigits 10 n.toNat) = some n := by
      have hlt : n.toNat < UInt64.size := by omega
      simp [integer?, Decimal.valueOf_toDigits, hlt, Int.toNat_of_nonneg hn]
    rw [hdigits]
    exact readNumber?_digits hsign hvalue
  · rename_i hn
    have hdigits : ("-" ++ (-n).toNat.repr).toList = '-' :: Nat.toDigits 10 (-n).toNat := by
      simp [Nat.repr_eq_ofList_toDigits]
    have hvalue : integer? true (Nat.toDigits 10 (-n).toNat) = some n := by
      have hneg : -((-n).toNat : Int) = n := by omega
      have hrange : 0 < (-n).toNat ∧ Int64.minValue.toInt ≤ -((-n).toNat : Int) :=
        ⟨by omega, hneg.symm ▸ hmin⟩
      rw [integer?, Decimal.valueOf_toDigits, if_pos rfl, if_pos hrange, hneg]
    rw [hdigits]
    exact readNumber?_digits rfl hvalue

/-! ### Doubles -/

/-- The text of the double is read as that double. -/
def ReadsBack (x : Float) : Prop :=
  readNumber? (number.write x) = some (.float x, [])

instance (x : Float) : Decidable (ReadsBack x) :=
  match h : readNumber? (number.write x) with
  | some (.float y, []) =>
    if hy : y = x then isTrue (by rw [ReadsBack, h, hy])
    else isFalse (by rw [ReadsBack, h]; simp [hy])
  | some (.float _, _ :: _) => isFalse (by rw [ReadsBack, h]; simp)
  | some (.null, _) | some (.bool _, _) | some (.int _, _) | some (.str _, _) | some (.arr _, _)
  | some (.obj _, _) => isFalse (by rw [ReadsBack, h]; simp)
  | none => isFalse (by rw [ReadsBack, h]; simp)

example : ReadsBack (-2.5e-7) ∧ ¬ReadsBack 0.10957860598549463 := by decide +kernel

end Json

end GraphScript
