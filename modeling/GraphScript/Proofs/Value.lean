import GraphScript.Proofs.Decimal.Literal
import GraphScript.Proofs.Text
import GraphScript.Value

/-!
# What literals denote

By its looks, a literal denotes a payload (`Value.Denotes`): a truth value, a number by the grammar
of decimal literals, the text in a pair of quotes, a character or the literal itself as a text, the
first of these that it can be. `Value.detect` finds this payload and no other
(`Value.detectPayload_eq_iff`). Its test for the look of a number decides nothing: everything that
the grammar accepts passes it, and what passes it without being a number goes on to the other cases
(`Value.number?_eq`).

Under a kind, a literal is the payload of that kind that it *fits* (`Value.Fits`), whatever it
denotes by its looks; without one, it is taken by its looks.
-/

namespace GraphScript

open Text Decimal

/-- A text between double quotes, as it stands. -/
def Text.inQuotes (s : String) : String :=
  "\"" ++ s ++ "\""

theorem Text.toList_inQuotes (s : String) : (inQuotes s).toList = '"' :: (s.toList ++ ['"']) := by
  rw [inQuotes, String.toList_append, String.toList_append]
  rfl

theorem Text.isTight_inQuotes (s : String) : IsTight (inQuotes s).toList := by
  rw [toList_inQuotes]
  exact ⟨⟨'"', _, rfl, rfl⟩, ⟨'"' :: s.toList, '"', rfl, rfl⟩⟩

namespace Value

/-! ### Numbers -/

/-- The characters of decimal literals. -/
def isNumeric (c : Char) : Bool :=
  c.isDigit || c == '.' || c == 'e' || c == 'E' || c == '-' || c == '+'

section Characters

variable {text : List Char}

theorem isNumeric_of_isDigits (h : IsDigits text) : text.all isNumeric = true := by
  refine List.all_eq_true.2 fun c hc => ?_
  simp [isNumeric, List.all_eq_true.1 h.isDigit c hc]

theorem isNumeric_of_signs {negative : Bool} (h : Signs text negative) :
    text.all isNumeric = true := by
  cases h <;> rfl

theorem isNumeric_of_integer {n : Int} (h : Integer text n) : text.all isNumeric = true := by
  obtain ⟨hsign, hdigits⟩ := h
  rw [List.all_append, isNumeric_of_signs hsign, isNumeric_of_isDigits hdigits, Bool.and_self]

theorem isNumeric_of_mantissa {coefficient places : Nat} (h : Mantissa text coefficient places) :
    text.all isNumeric = true := by
  cases h with
  | whole h => exact isNumeric_of_isDigits h
  | point h =>
    have hall := isNumeric_of_isDigits h
    rw [List.all_append, Bool.and_eq_true] at hall
    rw [List.all_append, List.all_cons, hall.1, hall.2]
    rfl

theorem isNumeric_of_exponent {n : Int} (h : Exponent text n) : text.all isNumeric = true := by
  cases h with
  | none => rfl
  | power hletter h =>
    rw [List.all_cons, isNumeric_of_integer h, Bool.and_true]
    rcases hletter with rfl | rfl <;> rfl

theorem isNumeric_of_literal {x : Float} (h : Literal text x) : text.all isNumeric = true := by
  obtain ⟨hsign, hmantissa, hexponent⟩ := h
  rw [List.all_append, List.all_append, isNumeric_of_signs hsign, isNumeric_of_mantissa hmantissa,
    isNumeric_of_exponent hexponent, Bool.and_self, Bool.and_self]

theorem exists_isDigit_of_isDigits (h : IsDigits text) : ∃ c ∈ text, c.isDigit = true := by
  obtain ⟨c, hc⟩ := List.exists_mem_of_ne_nil text h.ne_nil
  exact ⟨c, hc, List.all_eq_true.1 h.isDigit c hc⟩

theorem exists_isDigit_of_mantissa {coefficient places : Nat}
    (h : Mantissa text coefficient places) : ∃ c ∈ text, c.isDigit = true := by
  cases h with
  | whole h => exact exists_isDigit_of_isDigits h
  | point h =>
    obtain ⟨c, hc, hdigit⟩ := exists_isDigit_of_isDigits h
    refine ⟨c, ?_, hdigit⟩
    rw [List.mem_append] at hc ⊢
    exact hc.imp_right (List.mem_cons_of_mem _)

theorem point_not_mem_of_integer {n : Int} (h : Integer text n) : '.' ∉ text := by
  obtain ⟨hsign, hdigits⟩ := h
  intro hmem
  rcases List.mem_append.1 hmem with hmem | hmem
  · cases hsign <;> simp at hmem
  · exact absurd (List.all_eq_true.1 hdigits.isDigit '.' hmem) (by decide)

/-- Every decimal literal has the look of a number. -/
theorem looksNumeric_of_literal {x : Float} (h : Literal (trim text) x) :
    looksNumeric text = true := by
  have hall := isNumeric_of_literal h
  generalize htrim : trim text = trimmed at h hall
  obtain @⟨sign', mantissa, exponent, _, _, _, _, hsign, hmantissa, hexponent⟩ := h
  obtain ⟨c, hc, hdigit⟩ := exists_isDigit_of_mantissa hmantissa
  have hany : (mantissa ++ exponent).any Char.isDigit = true :=
    List.any_eq_true.2 ⟨c, List.mem_append_left _ hc, hdigit⟩
  have hhead : (mantissa ++ exponent).head?.any (fun c => c.isDigit || c == '.') = true := by
    cases hfirst : (mantissa ++ exponent).head? with
    | none =>
      rw [List.head?_eq_none_iff] at hfirst
      rw [hfirst] at hany
      cases hany
    | some first => simpa using hmantissa.unsigned exponent first hfirst
  simp only [looksNumeric, htrim, sign_append hsign (hmantissa.unsigned exponent), hany, hhead,
    Bool.true_and, Bool.and_true]
  rw [List.all_append, Bool.and_eq_true] at hall
  exact hall.2

/-- The number of a literal is the integer that it reads as, or else the double. -/
theorem number?_eq (text : List Char) :
    number? text = ((readInt64? (trim text)).map .int).or ((read? (trim text)).map .double) := by
  cases hint : readInt64? (trim text) with
  | some n =>
    have hinteger := readInt64?_eq_some_iff.1 hint
    have hpoint : (trim text).contains '.' = false := by
      simpa using point_not_mem_of_integer hinteger
    obtain ⟨x, hliteral⟩ := hinteger.exists_literal
    simp only [number?, looksNumeric_of_literal hliteral, hpoint, hint]
    rfl
  | none =>
    cases hdouble : read? (trim text) with
    | some x =>
      have hlooks := looksNumeric_of_literal (read?_eq_some_iff.1 hdouble)
      simp [number?, hlooks, hint, hdouble]
    | none => simp [number?, hint, hdouble]

end Characters

/-- A literal is read as an integer first. -/
theorem number?_eq_int_iff {text : List Char} {n : Int64} :
    number? text = some (.int n) ↔ Integer (trim text) n.toInt := by
  rw [number?_eq, ← readInt64?_eq_some_iff]
  cases readInt64? (trim text) <;> simp

/-- It is a double if it is no integer, or one that 64 bits cannot hold. -/
theorem number?_eq_double_iff {text : List Char} {x : Float} :
    number? text = some (.double x) ↔
      Literal (trim text) x ∧ ∀ n : Int64, ¬Integer (trim text) n.toInt := by
  simp only [number?_eq, ← readInt64?_eq_some_iff, ← read?_eq_some_iff]
  cases readInt64? (trim text) <;> simp

theorem number?_eq_none_iff {text : List Char} :
    number? text = none ↔ ∀ x, ¬Literal (trim text) x := by
  simp only [number?_eq, Option.or_eq_none_iff, Option.map_eq_none_iff, ← read?_eq_some_iff,
    ← Option.eq_none_iff_forall_ne_some]
  refine and_iff_right_of_imp fun hread => Option.eq_none_iff_forall_ne_some.2 fun n hn => ?_
  obtain ⟨x, hliteral⟩ := (readInt64?_eq_some_iff.1 hn).exists_literal
  rw [← read?_eq_some_iff, hread] at hliteral
  cases hliteral

/-! ### Texts in quotes -/

theorem unquoted?_eq_some_iff {raw : String} {inner : List Char} :
    unquoted? raw.toList = some inner ↔ raw = inQuotes (String.ofList inner) := by
  constructor
  · intro h
    rw [unquoted?.eq_def] at h
    split at h
    · rename_i rest hraw
      split at h
      · rename_i hlast
        obtain ⟨front, rfl⟩ := List.getLast?_eq_some_iff.1 hlast
        rw [List.dropLast_concat, Option.some_inj] at h
        subst h
        apply String.toList_inj.1
        rw [toList_inQuotes, String.toList_ofList, hraw]
      · cases h
    · cases h
  · rintro rfl
    rw [toList_inQuotes, String.toList_ofList, unquoted?, List.getLast?_concat, if_pos rfl,
      List.dropLast_concat]

theorem unquoted?_inQuotes (s : String) : unquoted? (inQuotes s).toList = some s.toList := by
  rw [unquoted?_eq_some_iff, String.ofList_toList]

theorem unquoted?_eq_none_iff {raw : String} :
    unquoted? raw.toList = none ↔ ∀ s, raw ≠ inQuotes s := by
  constructor
  · rintro h s rfl
    rw [unquoted?_inQuotes] at h
    cases h
  · intro h
    exact Option.eq_none_iff_forall_ne_some.2 fun inner hinner =>
      h _ (unquoted?_eq_some_iff.1 hinner)

/-- A character alone is not a text in quotes, not even a quote. -/
theorem unquoted?_singleton (c : Char) : unquoted? [c] = none := by
  rw [← String.toList_singleton, unquoted?_eq_none_iff]
  intro s h
  have hlength := congrArg (List.length ∘ String.toList) h
  simp [toList_inQuotes] at hlength

theorem eq_singleton_iff {raw : String} {c : Char} : raw = String.singleton c ↔ raw.toList = [c] := by
  rw [← String.toList_inj, String.toList_singleton]

/-! ### By their looks -/

/-- The literal is neither a truth value nor a number. -/
structure IsPlain (raw : String) : Prop where
  ne_true : raw ≠ "true"
  ne_false : raw ≠ "false"
  notNumber : ∀ x, ¬Literal (trim raw.toList) x

/-- What a literal denotes by its looks. -/
inductive Denotes (raw : String) : Payload → Prop
  | true (h : raw = "true") : Denotes raw (.bool true)
  | false (h : raw = "false") : Denotes raw (.bool false)
  | int {n : Int64} (h : Integer (trim raw.toList) n.toInt) : Denotes raw (.int n)
  /-- Also the integers that need more than 64 bits are doubles. -/
  | double {x : Float} (h : Literal (trim raw.toList) x)
      (hint : ∀ n : Int64, ¬Integer (trim raw.toList) n.toInt) : Denotes raw (.double x)
  | quoted {s : String} (hplain : IsPlain raw) (h : raw = inQuotes s) : Denotes raw (.string s)
  | char {c : Char} (hplain : IsPlain raw) (h : raw = String.singleton c) : Denotes raw (.char c)
  | string (hplain : IsPlain raw) (hquoted : ∀ s, raw ≠ inQuotes s)
      (hchar : ∀ c, raw ≠ String.singleton c) : Denotes raw (.string raw)

section Looks

variable {raw : String} {p : Payload}

theorem IsPlain.number?_eq (h : IsPlain raw) : number? raw.toList = none :=
  number?_eq_none_iff.2 h.notNumber

/-- The words for the truth values are not numbers. -/
theorem ne_of_number? (h : number? raw.toList = some p) : raw ≠ "true" ∧ raw ≠ "false" := by
  have htrue : number? "true".toList = none := rfl
  have hfalse : number? "false".toList = none := rfl
  constructor
  · rintro rfl
    rw [htrue] at h
    cases h
  · rintro rfl
    rw [hfalse] at h
    cases h

theorem detectPayload_of_number? (h : number? raw.toList = some p) : detectPayload raw = p := by
  obtain ⟨htrue, hfalse⟩ := ne_of_number? h
  rw [detectPayload, if_neg htrue, if_neg hfalse, h]

theorem detectPayload_of_denotes (h : Denotes raw p) : detectPayload raw = p := by
  cases h with
  | true h => rw [detectPayload, if_pos h]
  | false h => rw [h, detectPayload, if_neg (by decide), if_pos rfl]
  | int h => exact detectPayload_of_number? (number?_eq_int_iff.2 h)
  | double h hint => exact detectPayload_of_number? (number?_eq_double_iff.2 ⟨h, hint⟩)
  | quoted hplain h =>
    rw [detectPayload, if_neg hplain.ne_true, if_neg hplain.ne_false, hplain.number?_eq]
    simp only [h, unquoted?_inQuotes, String.ofList_toList]
  | char hplain h =>
    rw [detectPayload, if_neg hplain.ne_true, if_neg hplain.ne_false, hplain.number?_eq]
    simp only [eq_singleton_iff.1 h, unquoted?_singleton]
  | string hplain hquoted hchar =>
    rw [detectPayload, if_neg hplain.ne_true, if_neg hplain.ne_false, hplain.number?_eq]
    simp only [unquoted?_eq_none_iff.2 hquoted]
    split
    · rename_i c hc
      exact absurd (eq_singleton_iff.2 hc) (hchar c)
    · rfl

theorem denotes_of_number? (h : number? raw.toList = some p) : Denotes raw p := by
  rw [number?_eq, Option.or_eq_some_iff] at h
  rcases h with h | ⟨hnone, h⟩
  · obtain ⟨n, hn, rfl⟩ := Option.map_eq_some_iff.1 h
    exact .int (readInt64?_eq_some_iff.1 hn)
  · obtain ⟨x, hx, rfl⟩ := Option.map_eq_some_iff.1 h
    refine .double (read?_eq_some_iff.1 hx) fun n hn => ?_
    rw [← readInt64?_eq_some_iff, Option.map_eq_none_iff.1 hnone] at hn
    cases hn

/-- Every literal denotes what detection finds. -/
theorem denotes_detectPayload (raw : String) : Denotes raw (detectPayload raw) := by
  rw [detectPayload]
  split
  · rename_i htrue
    exact .true htrue
  · rename_i htrue
    split
    · rename_i hfalse
      exact .false hfalse
    · rename_i hfalse
      split
      · rename_i number hnumber
        exact denotes_of_number? hnumber
      · rename_i hnumber
        have hplain : IsPlain raw := ⟨htrue, hfalse, number?_eq_none_iff.1 hnumber⟩
        split
        · rename_i inner hinner
          exact .quoted hplain (unquoted?_eq_some_iff.1 hinner)
        · rename_i hquoted
          split
          · rename_i c hc
            exact .char hplain (eq_singleton_iff.2 hc)
          · rename_i hchar
            exact .string hplain (unquoted?_eq_none_iff.1 hquoted) fun c hc =>
              hchar c (eq_singleton_iff.1 hc)

/-- The payload that is detected is the one that the literal denotes. -/
theorem detectPayload_eq_iff : detectPayload raw = p ↔ Denotes raw p :=
  ⟨fun h => h ▸ denotes_detectPayload raw, detectPayload_of_denotes⟩

theorem isPlain_inQuotes (s : String) : IsPlain (inQuotes s) where
  ne_true h := by
    have hhead := congrArg (List.head? ∘ String.toList) h
    simp [toList_inQuotes] at hhead
  ne_false h := by
    have hhead := congrArg (List.head? ∘ String.toList) h
    simp [toList_inQuotes] at hhead
  notNumber x h := by
    rw [trim_of_isTight (isTight_inQuotes s), toList_inQuotes] at h
    exact absurd (List.all_eq_true.1 (isNumeric_of_literal h) '"' List.mem_cons_self) (by decide)

/-- By its looks, a text in quotes is the text between them. -/
theorem detect_inQuotes (s : String) : detect (inQuotes s) = ⟨inQuotes s, .string s⟩ := by
  rw [detect, detectPayload_of_denotes (.quoted (isPlain_inQuotes s) rfl)]

end Looks

/-! ### Under kinds -/

/-- The literal can stand for a payload under the kind of this payload. -/
inductive Fits (raw : String) : Payload → Prop
  | true (h : raw = "true") : Fits raw (.bool true)
  | false (h : raw = "false") : Fits raw (.bool false)
  | int {n : Int64} (h : Integer (trim raw.toList) n.toInt) : Fits raw (.int n)
  | double {x : Float} (h : Literal (trim raw.toList) x) : Fits raw (.double x)
  | char {c : Char} (h : raw = String.singleton c) : Fits raw (.char c)
  | quotedChar {c : Char} (h : raw = inQuotes (String.singleton c)) : Fits raw (.char c)
  | string (h : ∀ s, raw ≠ inQuotes s) : Fits raw (.string raw)
  | quoted {s : String} (h : raw = inQuotes s) : Fits raw (.string s)

section Kinds

variable {raw : String} {kind : Kind} {p : Payload}

/-- What a literal denotes can be asked for by its kind. -/
theorem Denotes.fits (h : Denotes raw p) : Fits raw p := by
  cases h with
  | true h => exact .true h
  | false h => exact .false h
  | int h => exact .int h
  | double h _ => exact .double h
  | quoted _ h => exact .quoted h
  | char _ h => exact .char h
  | string _ hquoted _ => exact .string hquoted

theorem coerce?_of_fits (h : Fits raw p) : coerce? raw p.kind = some p := by
  cases h with
  | true h => rw [Payload.kind, coerce?, if_pos h]
  | false h => rw [h, Payload.kind, coerce?, if_neg (by decide), if_pos rfl]
  | int h => rw [Payload.kind, coerce?, readInt64?_eq_some_iff.2 h, Option.map_some]
  | double h =>
    rw [Payload.kind, coerce?, if_pos (looksNumeric_of_literal h), read?_eq_some_iff.2 h,
      Option.map_some]
  | char h =>
    simp only [Payload.kind, coerce?, eq_singleton_iff.1 h, unquoted?_singleton, Option.getD_none]
  | quotedChar h =>
    simp only [Payload.kind, coerce?, h, unquoted?_inQuotes, Option.getD_some,
      String.toList_singleton]
  | string h =>
    rw [Payload.kind, coerce?, unquoted?_eq_none_iff.2 h, Option.getD_none, String.ofList_toList]
  | quoted h =>
    rw [Payload.kind, coerce?, h, unquoted?_inQuotes, Option.getD_some, String.ofList_toList]

theorem of_coerce?_eq_some (h : coerce? raw kind = some p) : p.kind = kind ∧ Fits raw p := by
  cases kind with
  | undefined => cases h
  | int =>
    obtain ⟨n, hn, rfl⟩ := Option.map_eq_some_iff.1 h
    exact ⟨rfl, .int (readInt64?_eq_some_iff.1 hn)⟩
  | double =>
    obtain ⟨-, h⟩ := Option.ite_none_right_eq_some.1 h
    obtain ⟨x, hx, rfl⟩ := Option.map_eq_some_iff.1 h
    exact ⟨rfl, .double (read?_eq_some_iff.1 hx)⟩
  | bool =>
    rw [coerce?] at h
    split_ifs at h with htrue hfalse
    · cases h
      exact ⟨rfl, .true htrue⟩
    · cases h
      exact ⟨rfl, .false hfalse⟩
  | char =>
    rw [coerce?] at h
    split at h
    · rename_i c hc
      cases h
      refine ⟨rfl, ?_⟩
      cases hquoted : unquoted? raw.toList with
      | none =>
        rw [hquoted, Option.getD_none] at hc
        exact .char (eq_singleton_iff.2 hc)
      | some inner =>
        rw [hquoted, Option.getD_some] at hc
        rw [hc] at hquoted
        exact .quotedChar (unquoted?_eq_some_iff.1 hquoted)
    · cases h
  | string =>
    cases h
    refine ⟨rfl, ?_⟩
    cases hquoted : unquoted? raw.toList with
    | none =>
      rw [Option.getD_none, String.ofList_toList]
      exact .string (unquoted?_eq_none_iff.1 hquoted)
    | some inner => exact .quoted (unquoted?_eq_some_iff.1 hquoted)

theorem raw_ofKind (raw : String) (kind : Kind) : (ofKind raw kind).raw = raw := by
  rw [ofKind]
  split <;> rfl

theorem ofKind_of_fits (h : Fits raw p) : ofKind raw p.kind = ⟨raw, p⟩ := by
  rw [ofKind, coerce?_of_fits h]

/-- Under a kind that it does not fit, a literal is taken by its looks. -/
theorem kind_ofKind_or_eq_detect (raw : String) (kind : Kind) :
    (ofKind raw kind).kind = kind ∨ ofKind raw kind = detect raw := by
  rw [ofKind]
  split
  · rename_i payload hcoerce
    exact .inl (of_coerce?_eq_some hcoerce).1
  · exact .inr rfl

/-- Under any kind, a literal fits what it is taken for. -/
theorem fits_ofKind (raw : String) (kind : Kind) : Fits raw (ofKind raw kind).payload := by
  rw [ofKind]
  split
  · rename_i payload hcoerce
    exact (of_coerce?_eq_some hcoerce).2
  · exact (denotes_detectPayload raw).fits

end Kinds

/-- Detection keeps a literal and finds what it denotes. Under a kind, a literal is the payload of
    this kind that it fits, and if there is none, what it is by its looks. -/
theorem detect_denotes_ofKind_fits (raw : String) :
    (∀ v, detect raw = v ↔ v.raw = raw ∧ Denotes raw v.payload) ∧
      (∀ p, Fits raw p → ofKind raw p.kind = ⟨raw, p⟩) ∧
      ∀ kind, Fits raw (ofKind raw kind).payload ∧
        ((ofKind raw kind).kind = kind ∨ ofKind raw kind = detect raw) := by
  refine ⟨fun v => ?_, fun p => ofKind_of_fits, fun kind =>
    ⟨fits_ofKind raw kind, kind_ofKind_or_eq_detect raw kind⟩⟩
  rw [← detectPayload_eq_iff]
  constructor
  · rintro rfl
    exact ⟨rfl, rfl⟩
  · rintro ⟨rfl, hpayload⟩
    rw [detect, hpayload]

/-- A digit is an integer by its looks and a character if this is asked for; an exponent without
    digits makes a text. -/
theorem detect_denotes_ofKind_fits_seven :
    Denotes "7" (.int 7) ∧ Fits "7" (.char '7') ∧ ofKind "7" .char = ⟨"7", .char '7'⟩ ∧
      Denotes "7e" (.string "7e") := by
  have hfits : Fits "7" (.char '7') := .char rfl
  obtain ⟨hdetect, hofKind, -⟩ := detect_denotes_ofKind_fits "7"
  obtain ⟨hdetect', -⟩ := detect_denotes_ofKind_fits "7e"
  exact ⟨((hdetect ⟨"7", .int 7⟩).1 rfl).2, hfits, hofKind _ hfits,
    ((hdetect' ⟨"7e", .string "7e"⟩).1 rfl).2⟩

end Value

end GraphScript
