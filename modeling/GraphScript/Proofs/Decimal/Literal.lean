import GraphScript.Decimal.Literal
import GraphScript.Proofs.Names
import Mathlib.Data.Nat.Digits.Defs

/-!
# The grammar of decimal literals

The grammar goes by parts, each of them with what it denotes: an optional sign (`Signs`), an
integer (`Integer`: a sign and digits), digits with an optional point (`Mantissa`), an optional
exponent (`Exponent`: a letter and an integer) and the literal made of them (`Literal`). Digits
denote a number by their places (`number`).

The readers accept this grammar and nothing else, with the values that it gives
(`readInt64?_eq_some_iff`, `read?_eq_some_iff`). Where one part ends, the next begins with another
kind of character, so that there is one way only to take a literal apart.
-/

namespace GraphScript.Decimal

open Text

/-- The number that digits denote by their places. -/
def number (digits : List Char) : Nat :=
  Nat.ofDigits 10 (digits.reverse.map fun c => c.toNat - '0'.toNat)

/-- One digit or more. -/
structure IsDigits (text : List Char) : Prop where
  ne_nil : text ≠ []
  isDigit : text.all Char.isDigit = true

theorem isDigits_iff {text : List Char} :
    IsDigits text ↔ (!text.isEmpty && text.all Char.isDigit) = true := by
  rw [Bool.and_eq_true, Bool.not_eq_true', List.isEmpty_eq_false_iff]
  exact ⟨fun h => ⟨h.ne_nil, h.isDigit⟩, fun h => ⟨h.1, h.2⟩⟩

instance (text : List Char) : Decidable (IsDigits text) :=
  decidable_of_iff _ isDigits_iff.symm

/-- An optional sign, and whether it is a minus. -/
inductive Signs : List Char → Bool → Prop
  | none : Signs [] false
  | plus : Signs ['+'] false
  | minus : Signs ['-'] true

/-- An optional sign and digits, and the integer that they denote. -/
inductive Integer : List Char → Int → Prop
  | signed {sign digits : List Char} {negative : Bool} (hsign : Signs sign negative)
      (h : IsDigits digits) :
      Integer (sign ++ digits) (if negative then -(number digits : Int) else number digits)

/-- Digits with an optional point, the number of all of them, and how many stand behind the
    point. -/
inductive Mantissa : List Char → Nat → Nat → Prop
  | whole {digits : List Char} (h : IsDigits digits) : Mantissa digits (number digits) 0
  | point {whole part : List Char} (h : IsDigits (whole ++ part)) :
      Mantissa (whole ++ '.' :: part) (number (whole ++ part)) part.length

/-- An optional power of ten: a letter and the integer that is its exponent. -/
inductive Exponent : List Char → Int → Prop
  | none : Exponent [] 0
  | power {letter : Char} {text : List Char} {n : Int} (hletter : letter = 'e' ∨ letter = 'E')
      (h : Integer text n) : Exponent (letter :: text) n

/-- A decimal literal, and the double that it denotes. -/
inductive Literal : List Char → Float → Prop
  | signed {sign mantissa exponent : List Char} {negative : Bool} {coefficient places : Nat}
      {power : Int} (hsign : Signs sign negative) (hmantissa : Mantissa mantissa coefficient places)
      (hexponent : Exponent exponent power) :
      Literal (sign ++ (mantissa ++ exponent))
        (if negative then -nearest coefficient (power - places)
          else nearest coefficient (power - places))

theorem valueOf_eq_number (digits : List Char) : valueOf digits = number digits := by
  rw [valueOf, number, Nat.ofDigits_eq_foldr, List.foldr_map, List.foldr_reverse]
  simp only [Nat.cast_id, Nat.add_comm]

/-! ### Signs -/

/-- Every text has a sign in front, if only an empty one. -/
theorem exists_signs (text : List Char) :
    ∃ sign', Signs sign' (sign text).1 ∧ text = sign' ++ (sign text).2 := by
  rw [sign.eq_def]
  split
  · exact ⟨['-'], .minus, rfl⟩
  · exact ⟨['+'], .plus, rfl⟩
  · exact ⟨[], .none, rfl⟩

/-- A text begins like a number without a sign. -/
def Unsigned (text : List Char) : Prop :=
  ∀ c ∈ text.head?, c.isDigit = true ∨ c = '.'

theorem sign_append {sign' rest : List Char} {negative : Bool} (h : Signs sign' negative)
    (hrest : Unsigned rest) : sign (sign' ++ rest) = (negative, rest) := by
  cases h with
  | plus => rfl
  | minus => rfl
  | none =>
    rw [List.nil_append, sign.eq_def]
    split
    · exact absurd (hrest '-' rfl) (by decide)
    · exact absurd (hrest '+' rfl) (by decide)
    · rfl

theorem IsDigits.unsigned {digits : List Char} (h : IsDigits digits) (rest : List Char) :
    Unsigned (digits ++ rest) := by
  obtain ⟨c, more, rfl⟩ := List.exists_cons_of_ne_nil h.ne_nil
  intro first hfirst
  cases hfirst
  exact .inl (List.all_eq_true.1 h.isDigit c List.mem_cons_self)

/-! ### Integers -/

theorem int64?_eq_some_iff {n : Int} {m : Int64} : int64? n = some m ↔ m.toInt = n := by
  rw [int64?, Int64.toInt_minValue, Int64.toInt_maxValue]
  split_ifs with hrange
  · rw [Option.some_inj]
    constructor
    · rintro rfl
      exact Int64.toInt_ofInt_of_le hrange.1 (by omega)
    · rintro rfl
      exact Int64.ofInt_toInt m
  · constructor
    · intro h
      cases h
    · rintro rfl
      have hle := m.le_toInt
      have hlt := m.toInt_lt
      omega

/-- An integer is taken apart by its sign. -/
theorem integer_iff {text digits : List Char} {negative : Bool} {n : Int}
    (hsign : sign text = (negative, digits)) :
    Integer text n ↔
      IsDigits digits ∧ n = if negative then -(valueOf digits : Int) else valueOf digits := by
  rw [valueOf_eq_number]
  constructor
  · rintro ⟨hsigns, h⟩
    have hunsigned := h.unsigned []
    rw [List.append_nil] at hunsigned
    rw [sign_append hsigns hunsigned] at hsign
    cases hsign
    exact ⟨h, rfl⟩
  · rintro ⟨h, rfl⟩
    obtain ⟨sign', hsigns, htext⟩ := exists_signs text
    rw [hsign] at hsigns htext
    rw [htext]
    exact .signed hsigns h

theorem readInt64?_eq_some_iff {text : List Char} {n : Int64} :
    readInt64? text = some n ↔ Integer text n.toInt := by
  rcases hsign : sign text with ⟨negative, digits⟩
  rw [integer_iff hsign]
  have htest : (digits.isEmpty || !digits.all Char.isDigit) = true ↔ ¬IsDigits digits := by
    rw [isDigits_iff]
    cases digits.isEmpty <;> simp
  simp only [readInt64?, hsign, htest, Option.ite_none_left_eq_some, not_not]
  exact and_congr_right fun _ => int64?_eq_some_iff

/-! ### Literals -/

/-- The exponent may be left out, and is zero then. -/
theorem exponent?_eq_some_iff {text : List Char} {n : Int} :
    exponent? text = some n ↔ Exponent text n := by
  cases text with
  | nil =>
    constructor
    · intro h
      cases h
      exact .none
    · intro h
      cases h
      rfl
  | cons letter rest =>
    rcases hsign : sign rest with ⟨negative, digits⟩
    have htest : ((letter == 'e' || letter == 'E') && !digits.isEmpty &&
        digits.all Char.isDigit) = true ↔ (letter = 'e' ∨ letter = 'E') ∧ IsDigits digits := by
      rw [Bool.and_assoc, Bool.and_eq_true, ← isDigits_iff, Bool.or_eq_true, beq_iff_eq, beq_iff_eq]
    simp only [exponent?, hsign, htest, Option.ite_none_right_eq_some, Option.some_inj]
    constructor
    · rintro ⟨⟨hletter, hdigits⟩, rfl⟩
      exact .power hletter ((integer_iff hsign).2 ⟨hdigits, rfl⟩)
    · intro h
      cases h with
      | power hletter h =>
        obtain ⟨hdigits, hn⟩ := (integer_iff hsign).1 h
        exact ⟨⟨hletter, hdigits⟩, hn.symm⟩

theorem Exponent.not_isDigit {text : List Char} {n : Int} (h : Exponent text n) :
    ∀ c ∈ text.head?, c.isDigit = false := by
  intro c hc
  cases h with
  | none => cases hc
  | power hletter h =>
    cases hc
    rcases hletter with rfl | rfl <;> rfl

theorem Exponent.fraction_eq {text : List Char} {n : Int} (h : Exponent text n) :
    fraction text = ([], text) := by
  cases h with
  | none => rfl
  | power hletter h => rcases hletter with rfl | rfl <;> rfl

/-- A mantissa is taken apart by its point. -/
theorem mantissa_of_fraction {unsigned whole rest part after : List Char}
    (hspan : unsigned.span Char.isDigit = (whole, rest)) (hfraction : fraction rest = (part, after))
    (hne : whole ++ part ≠ []) :
    ∃ mantissa, Mantissa mantissa (valueOf (whole ++ part)) part.length ∧
      unsigned = mantissa ++ after := by
  obtain ⟨hwhole, rfl⟩ := of_span_eq hspan
  rw [valueOf_eq_number]
  rw [fraction.eq_def] at hfraction
  split at hfraction
  · rename_i rest
    obtain ⟨hpart, rfl⟩ := of_span_eq hfraction
    refine ⟨whole ++ '.' :: part, .point ⟨hne, ?_⟩, by simp⟩
    rw [List.all_append, hwhole, hpart]
    rfl
  · cases hfraction
    rw [List.append_nil] at hne ⊢
    exact ⟨whole, .whole ⟨hne, hwhole⟩, rfl⟩

theorem exists_fraction_of_mantissa {mantissa after : List Char} {coefficient places : Nat}
    (h : Mantissa mantissa coefficient places) {power : Int} (hafter : Exponent after power) :
    ∃ whole rest part, (mantissa ++ after).span Char.isDigit = (whole, rest) ∧
      fraction rest = (part, after) ∧ whole ++ part ≠ [] ∧
      coefficient = valueOf (whole ++ part) ∧ places = part.length := by
  cases h with
  | whole h =>
    refine ⟨mantissa, after, [], span_append h.isDigit hafter.not_isDigit, hafter.fraction_eq, ?_,
      ?_, rfl⟩
    · rw [List.append_nil]
      exact h.ne_nil
    · rw [List.append_nil, valueOf_eq_number]
  | @point whole part h =>
    have hall := h.isDigit
    rw [List.all_append, Bool.and_eq_true] at hall
    refine ⟨whole, '.' :: (part ++ after), part, ?_, span_append hall.2 hafter.not_isDigit, h.ne_nil,
      (valueOf_eq_number _).symm, rfl⟩
    rw [List.append_assoc, List.cons_append]
    exact span_append hall.1 fun c hc => by cases hc; rfl

theorem Mantissa.unsigned {mantissa : List Char} {coefficient places : Nat}
    (h : Mantissa mantissa coefficient places) (rest : List Char) : Unsigned (mantissa ++ rest) := by
  cases h with
  | whole h => exact h.unsigned rest
  | @point whole part h =>
    cases whole with
    | nil =>
      intro c hc
      cases hc
      exact .inr rfl
    | cons first more =>
      intro c hc
      cases hc
      exact .inl (List.all_eq_true.1 h.isDigit first List.mem_cons_self)

/-- A text is read as a number exactly if it is a literal, and as the number that this denotes. -/
theorem read?_eq_some_iff {text : List Char} {x : Float} :
    read? text = some x ↔ Literal text x := by
  constructor
  · intro h
    rcases hsign : sign text with ⟨negative, unsigned⟩
    rcases hspan : unsigned.span Char.isDigit with ⟨whole, rest⟩
    rcases hfraction : fraction rest with ⟨part, after⟩
    simp only [read?, hsign, hspan, hfraction, Option.ite_none_left_eq_some,
      Option.map_eq_some_iff] at h
    obtain ⟨hne, power, hpower, rfl⟩ := h
    have hne : whole ++ part ≠ [] := by
      intro hnil
      obtain ⟨rfl, rfl⟩ := List.append_eq_nil_iff.1 hnil
      exact hne rfl
    obtain ⟨mantissa, hmantissa, rfl⟩ := mantissa_of_fraction hspan hfraction hne
    obtain ⟨sign', hsigns, htext⟩ := exists_signs text
    rw [hsign] at hsigns htext
    rw [htext]
    exact .signed hsigns hmantissa (exponent?_eq_some_iff.1 hpower)
  · rintro ⟨hsigns, hmantissa, hexponent⟩
    obtain ⟨whole, rest, part, hspan, hfraction, hne, rfl, rfl⟩ :=
      exists_fraction_of_mantissa hmantissa hexponent
    have htest : ¬(whole.isEmpty && part.isEmpty) = true := by
      rwa [Bool.and_eq_true, List.isEmpty_iff, List.isEmpty_iff, ← List.append_eq_nil_iff]
    simp only [read?, sign_append hsigns (hmantissa.unsigned _), hspan, hfraction, if_neg htest,
      exponent?_eq_some_iff.2 hexponent, Option.map_some]

/-- An integer is a literal. -/
theorem Integer.exists_literal {text : List Char} {n : Int} (h : Integer text n) :
    ∃ x, Literal text x := by
  obtain ⟨hsigns, hdigits⟩ := h
  have hliteral := Literal.signed hsigns (.whole hdigits) .none
  rw [List.append_nil] at hliteral
  exact ⟨_, hliteral⟩

end GraphScript.Decimal
