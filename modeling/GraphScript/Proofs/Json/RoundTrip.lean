import GraphScript.Proofs.Json.Number

/-!
# JSON texts read back

A value is read back from its compact text (`Readable.parse?_compact`): strings whatever
characters they hold, numbers as far as they are read back on their own, and arrays and
objects of any such values.

The reader is told how many steps it may take, twice the length of the text. The text of a
value allows for one step less, and the items or fields between two brackets take no more than
twice their own length (`Parses`, `readItems?_compact`, `readFields?_compact`).
-/

namespace GraphScript.Json

/-! ### Strings -/

theorem hexValue?_hexDigit : ∀ n < 16, hexValue? (hexDigit n) = some n := by
  decide

theorem hexValue4?_hexDigit {n : Nat} (h : n < 0x20) :
    hexValue4? '0' '0' (hexDigit (n / 16)) (hexDigit (n % 16)) = some n := by
  have hzero : hexValue? '0' = some 0 := rfl
  rw [hexValue4?, hzero, hexValue?_hexDigit (n / 16) (by omega),
    hexValue?_hexDigit (n % 16) (by omega)]
  simp only [bind, Option.bind_some, pure, Option.some.injEq]
  omega

/-- An escaped character is read as the character. -/
theorem readString?_escape (c : Char) (rest : List Char) :
    readString? (escape c ++ rest) =
      (readString? rest).map fun (s, after) => (c :: s, after) := by
  have hchar : ∀ {n : Nat}, c.toNat = n → Char.ofNat n = c := fun h => h ▸ Char.ofNat_toNat c
  rw [escape]
  dsimp only
  split
  · subst c
    rfl
  split
  · subst c
    rfl
  split
  · rw [← hchar ‹_›]
    rfl
  split
  · rw [← hchar ‹_›]
    rfl
  split
  · rw [← hchar ‹_›]
    rfl
  split
  · rw [← hchar ‹_›]
    rfl
  split
  · rw [← hchar ‹_›]
    rfl
  split
  · rename_i hcontrol
    -- The four digits are far from those of surrogates.
    have hsurrogate : ¬(0xD800 ≤ c.toNat ∧ c.toNat < 0xDC00) := by omega
    have hsurrogate' : ¬(0xDC00 ≤ c.toNat ∧ c.toNat < 0xE000) := by omega
    simp only [List.cons_append, List.nil_append, readString?, hexValue4?_hexDigit hcontrol,
      if_neg hsurrogate, if_neg hsurrogate', Char.ofNat_toNat]
  · rename_i hquote hbackslash _ _ _ _ _ hcontrol
    rw [List.singleton_append, readString?.eq_def]
    split
    · contradiction
    · simp_all
    · simp_all
    · simp_all
    · rename_i heq
      obtain ⟨rfl, rfl⟩ := List.cons.inj heq
      simp [hbackslash, hcontrol]

/-- The characters of a string are read up to the closing quote. -/
theorem readString?_flatMap_escape (s rest : List Char) :
    readString? (s.flatMap escape ++ '"' :: rest) = some (s, rest) := by
  induction s with
  | nil => rfl
  | cons c s ih => rw [List.flatMap_cons, List.append_assoc, readString?_escape, ih, Option.map_some]

/-! ### Values -/

/-- The value is read from its text, in about twice as many steps as that is long, whatever
    follows that does not go on with a number. -/
structure Parses (j : Json) : Prop where
  /-- The text does not begin with a space, nor like the end of an array. -/
  starts : ∃ c more, compactChars j = c :: more ∧ isSpace c = false ∧ c ≠ ']'
  reads : ∀ {steps : Nat} {rest : List Char}, 2 * (compactChars j).length ≤ steps + 1 →
    endsNumber rest = true → readValue? steps (compactChars j ++ rest) = some (j, rest)

theorem skipSpaces_cons {c : Char} (h : isSpace c = false) (rest : List Char) :
    skipSpaces (c :: rest) = c :: rest := by
  simp [skipSpaces, h]

theorem readValue?_string (steps : Nat) (rest : List Char) :
    readValue? (steps + 1) ('"' :: rest) =
      (readString? rest).map fun (s, after) => (.str (String.ofList s), after) := rfl

theorem readValue?_array {c : Char} (hspace : isSpace c = false) (hend : c ≠ ']') (steps : Nat)
    (rest : List Char) :
    readValue? (steps + 1) ('[' :: c :: rest) =
      (readItems? steps (c :: rest)).map fun (items, after) => (.arr items, after) := by
  have hbracket : isSpace '[' = false := by decide
  simp only [readValue?, skipSpaces_cons hbracket, skipSpaces_cons hspace]
  split
  · cases ‹c :: rest = _›
    contradiction
  · rfl

theorem readValue?_object (steps : Nat) (rest : List Char) :
    readValue? (steps + 1) ('\x7b' :: '"' :: rest) =
      (readFields? steps ('"' :: rest)).map fun (fields, after) => (.obj fields, after) := rfl

section

variable {c : Char} (hc : c = '-' ∨ c.isDigit = true)

include hc

theorem isSpace_of_number : isSpace c = false := by
  rcases hc with rfl | hc
  · rfl
  · by_contra hspace
    simp only [isSpace, Bool.not_eq_false, Bool.or_eq_true, beq_iff_eq] at hspace
    rcases hspace with ((rfl | rfl) | rfl) | rfl <;> exact absurd hc (by decide)

/-- A text that begins like a number is read as one. -/
theorem readValue?_number (steps : Nat) (rest : List Char) :
    readValue? (steps + 1) (c :: rest) = readNumber? (c :: rest) := by
  have hne : ∀ d : Char, d ≠ '-' → d.isDigit = false → c ≠ d := by
    rintro d hminus hdigit rfl
    rcases hc with hc | hc
    · exact hminus hc
    · rw [hdigit] at hc
      cases hc
  rw [readValue?, skipSpaces_cons (isSpace_of_number hc)]
  split
  · cases ‹c :: rest = _›
    exact absurd rfl (hne 'n' (by decide) (by decide))
  · cases ‹c :: rest = _›
    exact absurd rfl (hne 't' (by decide) (by decide))
  · cases ‹c :: rest = _›
    exact absurd rfl (hne 'f' (by decide) (by decide))
  · cases ‹c :: rest = _›
    exact absurd rfl (hne '"' (by decide) (by decide))
  · cases ‹c :: rest = _›
    exact absurd rfl (hne '[' (by decide) (by decide))
  · cases ‹c :: rest = _›
    exact absurd rfl (hne '\x7b' (by decide) (by decide))
  · rfl

end

namespace Parses

/-- It is enough to look at what follows the first character of the text. -/
theorem of_cons {j : Json} {c : Char} {more : List Char} (htext : compactChars j = c :: more)
    (hspace : isSpace c = false) (hend : c ≠ ']')
    (hreads : ∀ {steps : Nat} {rest : List Char}, 2 * more.length ≤ steps →
      endsNumber rest = true → readValue? (steps + 1) (c :: (more ++ rest)) = some (j, rest)) :
    Parses j where
  starts := ⟨c, more, htext, hspace, hend⟩
  reads := by
    intro steps rest hsteps hrest
    rw [htext, List.length_cons] at hsteps
    obtain ⟨steps, rfl⟩ : ∃ n, steps = n + 1 := ⟨steps - 1, by omega⟩
    rw [htext, List.cons_append]
    exact hreads (by omega) hrest

theorem of_readNumber? {j : Json} (h : readNumber? (compactChars j) = some (j, [])) :
    Parses j := by
  obtain ⟨c, more, htext, hc⟩ := exists_cons_of_readNumber? h
  have hend : c ≠ ']' := by
    rintro rfl
    rcases hc with hc | hc <;> exact absurd hc (by decide)
  refine of_cons htext (isSpace_of_number hc) hend fun {steps rest} _ hrest => ?_
  have happend := readNumber?_append hrest h
  rw [readValue?_number hc, ← List.cons_append, ← htext, happend, List.nil_append]

theorem null : Parses .null := by
  have htext : compactChars .null = 'n' :: "ull".toList := by decide
  exact of_cons htext (by decide) (by decide) fun _ _ => rfl

theorem bool (b : Bool) : Parses (.bool b) := by
  cases b with
  | true =>
    have htext : compactChars (.bool true) = 't' :: "rue".toList := by decide
    exact of_cons htext (by decide) (by decide) fun _ _ => rfl
  | false =>
    have htext : compactChars (.bool false) = 'f' :: "alse".toList := by decide
    exact of_cons htext (by decide) (by decide) fun _ _ => rfl

theorem str (s : String) : Parses (.str s) := by
  have htext : compactChars (.str s) = '"' :: (s.toList.flatMap escape ++ ['"']) := by
    rw [compactChars.eq_def]
    rfl
  refine of_cons htext (by decide) (by decide) fun {steps rest} _ _ => ?_
  rw [List.append_assoc, List.singleton_append, readValue?_string, readString?_flatMap_escape,
    Option.map_some]
  dsimp only
  rw [String.ofList_toList]

end Parses

/-! ### Arrays -/

theorem compactItems_cons_cons (item next : Json) (items : List Json) :
    compactItems (item :: next :: items) =
      compactChars item ++ ',' :: compactItems (next :: items) := by
  rw [compactItems]
  exact nofun

/-- The items of an array are read up to its closing bracket. -/
theorem readItems?_compact {items : List Json} (hne : items ≠ [])
    (hitems : ∀ item ∈ items, Parses item) (steps : Nat) (rest : List Char)
    (hsteps : 2 * (compactItems items).length ≤ steps) :
    readItems? steps (compactItems items ++ ']' :: rest) = some (items, rest) := by
  induction items generalizing steps with
  | nil => contradiction
  | cons item items ih =>
    obtain ⟨hitem, hitems⟩ := List.forall_mem_cons.1 hitems
    obtain ⟨c, more, htext, -⟩ := hitem.starts
    cases items with
    | nil =>
      rw [compactItems] at hsteps ⊢
      have hpos : 0 < (compactChars item).length := by simp [htext]
      obtain ⟨steps, rfl⟩ : ∃ n, steps = n + 1 := ⟨steps - 1, by omega⟩
      rw [readItems?, hitem.reads (by omega) rfl]
      rfl
    | cons next items =>
      rw [compactItems_cons_cons] at hsteps ⊢
      rw [List.length_append, List.length_cons] at hsteps
      obtain ⟨steps, rfl⟩ : ∃ n, steps = n + 1 := ⟨steps - 1, by omega⟩
      have htail := ih (List.cons_ne_nil next items) hitems steps (by omega)
      rw [List.append_assoc, List.cons_append, readItems?, hitem.reads (by omega) rfl]
      change (readItems? steps _).map _ = _
      rw [htail, Option.map_some]

theorem Parses.arr {items : List Json} (h : ∀ item ∈ items, Parses item) : Parses (.arr items) := by
  have htext : compactChars (.arr items) = '[' :: (compactItems items ++ [']']) := by
    rw [compactChars]
  refine of_cons htext (by decide) (by decide) fun {steps rest} hsteps _ => ?_
  rw [List.length_append] at hsteps
  rw [List.append_assoc, List.singleton_append]
  cases items with
  | nil => rfl
  | cons item items =>
    have hread := readItems?_compact (List.cons_ne_nil item items) h steps rest (by omega)
    -- The array goes on with the first item, whose text does not end it.
    obtain ⟨c, more, hstart, hspace, hend⟩ := (h item List.mem_cons_self).starts
    obtain ⟨tail, hitems⟩ : ∃ tail, compactItems (item :: items) = c :: tail := by
      cases items with
      | nil => exact ⟨more, by rw [compactItems, hstart]⟩
      | cons next items => exact ⟨_, by rw [compactItems_cons_cons, hstart, List.cons_append]⟩
    rw [hitems, List.cons_append] at hread ⊢
    rw [readValue?_array hspace hend, hread, Option.map_some]

/-! ### Objects -/

theorem compactFields_cons_cons (key : String) (value : Json) (next : String × Json)
    (fields : List (String × Json)) :
    compactFields ((key, value) :: next :: fields) =
      quote key ++ ':' :: (compactChars value ++ ',' :: compactFields (next :: fields)) := by
  rw [compactFields]
  exact nofun

section

variable {key : String} {value : Json} {steps : Nat} {rest after : List Char}

/-- A key with its colon is read, then its value, and the closing brace ends the fields. -/
theorem readFields?_last (h : readValue? steps rest = some (value, '\x7d' :: after)) :
    readFields? (steps + 1) (quote key ++ ':' :: rest) = some ([(key, value)], after) := by
  have hquote : isSpace '"' = false := by decide
  have hcolon : isSpace ':' = false := by decide
  have hbrace : isSpace '\x7d' = false := by decide
  simp only [quote, List.cons_append, List.append_assoc, List.nil_append, readFields?,
    skipSpaces_cons hquote, readString?_flatMap_escape, skipSpaces_cons hcolon, h,
    skipSpaces_cons hbrace, String.ofList_toList]

/-- A key with its colon is read, then its value, and a comma announces more fields. -/
theorem readFields?_more (h : readValue? steps rest = some (value, ',' :: after)) :
    readFields? (steps + 1) (quote key ++ ':' :: rest) =
      (readFields? steps after).map fun (fields, after) => ((key, value) :: fields, after) := by
  have hquote : isSpace '"' = false := by decide
  have hcolon : isSpace ':' = false := by decide
  have hcomma : isSpace ',' = false := by decide
  simp only [quote, List.cons_append, List.append_assoc, List.nil_append, readFields?,
    skipSpaces_cons hquote, readString?_flatMap_escape, skipSpaces_cons hcolon, h,
    skipSpaces_cons hcomma, String.ofList_toList]

end

/-- The fields of an object are read up to its closing brace. -/
theorem readFields?_compact {fields : List (String × Json)} (hne : fields ≠ [])
    (hfields : ∀ field ∈ fields, Parses field.2) (steps : Nat) (rest : List Char)
    (hsteps : 2 * (compactFields fields).length ≤ steps) :
    readFields? steps (compactFields fields ++ '\x7d' :: rest) = some (fields, rest) := by
  induction fields generalizing steps with
  | nil => contradiction
  | cons field fields ih =>
    obtain ⟨key, value⟩ := field
    obtain ⟨hvalue, hfields⟩ := List.forall_mem_cons.1 hfields
    replace hvalue : Parses value := hvalue
    cases fields with
    | nil =>
      rw [compactFields] at hsteps ⊢
      rw [List.length_append, List.length_cons] at hsteps
      obtain ⟨steps, rfl⟩ : ∃ n, steps = n + 1 := ⟨steps - 1, by omega⟩
      rw [List.append_assoc, List.cons_append]
      exact readFields?_last (hvalue.reads (by omega) rfl)
    | cons next fields =>
      rw [compactFields_cons_cons] at hsteps ⊢
      simp only [List.length_append, List.length_cons] at hsteps
      obtain ⟨steps, rfl⟩ : ∃ n, steps = n + 1 := ⟨steps - 1, by omega⟩
      have htail := ih (List.cons_ne_nil next fields) hfields steps (by omega)
      rw [List.append_assoc, List.cons_append, List.append_assoc, List.cons_append,
        readFields?_more (hvalue.reads (by omega) rfl), htail, Option.map_some]

theorem Parses.obj {fields : List (String × Json)} (h : ∀ field ∈ fields, Parses field.2) :
    Parses (.obj fields) := by
  have htext : compactChars (.obj fields) = '\x7b' :: (compactFields fields ++ ['\x7d']) := by
    rw [compactChars]
  refine of_cons htext (by decide) (by decide) fun {steps rest} hsteps _ => ?_
  rw [List.length_append] at hsteps
  rw [List.append_assoc, List.singleton_append]
  cases fields with
  | nil => rfl
  | cons field fields =>
    have hread := readFields?_compact (List.cons_ne_nil field fields) h steps rest (by omega)
    -- The object goes on with the quote of the first key.
    obtain ⟨key, value⟩ := field
    obtain ⟨tail, hfields⟩ : ∃ tail, compactFields ((key, value) :: fields) = '"' :: tail := by
      cases fields with
      | nil => exact ⟨_, by rw [compactFields, quote, List.cons_append]⟩
      | cons next fields => exact ⟨_, by rw [compactFields_cons_cons, quote, List.cons_append]⟩
    rw [hfields, List.cons_append] at hread ⊢
    rw [readValue?_object, hread, Option.map_some]

/-! ### Texts -/

/-- The numbers of the value can be read back on their own. -/
inductive Readable : Json → Prop
  | null : Readable .null
  | bool (b : Bool) : Readable (.bool b)
  | int {n : Int} (h : IsInteger n) : Readable (.int n)
  | float {x : Float} (h : ReadsBack x) : Readable (.float x)
  | str (s : String) : Readable (.str s)
  | arr {items : List Json} (h : ∀ item ∈ items, Readable item) : Readable (.arr items)
  | obj {fields : List (String × Json)} (h : ∀ field ∈ fields, Readable field.2) :
      Readable (.obj fields)

namespace Readable

theorem parses {j : Json} (h : j.Readable) : Parses j := by
  induction h with
  | null => exact .null
  | bool b => exact .bool b
  | int h =>
    refine .of_readNumber? ?_
    rw [compactChars.eq_def]
    exact readNumber?_int h
  | float h =>
    refine .of_readNumber? ?_
    rw [compactChars.eq_def]
    exact h
  | str s => exact .str s
  | arr _ ih => exact .arr ih
  | obj _ ih => exact .obj ih

/-- A value is read back from its text. -/
theorem parse?_compact {j : Json} (h : j.Readable) : parse? j.compact = some j := by
  have hlength : (compactChars j).length = j.compact.length := by
    rw [compact, String.length_ofList]
  have hread : readValue? (2 * j.compact.length + 2) (compactChars j ++ []) = some (j, []) :=
    h.parses.reads (by omega) rfl
  have htext : j.compact.toList = compactChars j ++ [] := by
    rw [compact, String.toList_ofList, List.append_nil]
  rw [parse?, htext, hread]
  rfl

end Readable

end GraphScript.Json
