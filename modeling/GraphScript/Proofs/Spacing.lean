import GraphScript.Proofs.Names
import Mathlib.Data.List.Chain

/-!
# Words put together again

Splitting a text into words and putting them together with a space in between gives back the
text exactly if it was *spaced* that way before: its blanks are single spaces
(`intercalate_words_eq_iff`). All other blanks get lost. In a spaced text, the words that do
not touch its ends are those that stand between two spaces (`mem_words_of_infix`,
`infix_of_mem_words`).
-/

namespace GraphScript.Text

/-- A text that does not begin with a blank begins with its first word. -/
theorem exists_words_cons {c : Char} (hc : isBlank c = false) (rest : List Char) :
    ∃ word more, words (c :: rest) = (c :: word) :: more := by
  rw [words, if_neg (Bool.eq_false_iff.1 hc)]
  split_ifs
  · exact ⟨[], _, rfl⟩
  · split
    · exact ⟨_, _, rfl⟩
    · exact ⟨[], _, rfl⟩

/-- What is not a blank belongs to a word: to the first one of what follows, or to one of its
    own. -/
theorem words_cons {c d : Char} (hc : isBlank c = false) (hd : isBlank d = false)
    (rest : List Char) :
    ∃ word more, words (d :: rest) = word :: more ∧
      words (c :: d :: rest) = (c :: word) :: more := by
  obtain ⟨word, more, hwords⟩ := exists_words_cons hd rest
  have hgoes : ¬(d :: rest).head?.all isBlank = true := by simp [hd]
  refine ⟨d :: word, more, hwords, ?_⟩
  rw [words, if_neg (Bool.eq_false_iff.1 hc), if_neg hgoes, hwords]

/-- A blank is the end of a word, wherever it stands. -/
theorem words_append_blank {c : Char} (hc : isBlank c = true) (text rest : List Char) :
    words (text ++ c :: rest) = words text ++ words rest := by
  induction text with
  | nil => exact words_blank hc rest
  | cons d text ih =>
    cases hd : isBlank d with
    | true => rw [List.cons_append, words_blank hd, words_blank hd, ih]
    | false =>
      have hword : IsWord [d] := ⟨List.cons_ne_nil _ _, List.forall_mem_singleton.2 hd⟩
      rcases text with _ | ⟨e, text⟩
      · have hsplit : words ([d] ++ c :: rest) = [d] :: words (c :: rest) := words_append hword hc
        rw [hsplit, words_blank hc, words_of_isWord hword, List.singleton_append]
      · cases he : isBlank e with
        | true =>
          have hsplit : words ([d] ++ e :: text) = [d] :: words (e :: text) := words_append hword he
          have hsplit' : words ([d] ++ (e :: text ++ c :: rest)) =
            [d] :: words (e :: text ++ c :: rest) := words_append hword he
          rw [List.singleton_append] at hsplit hsplit'
          rw [List.cons_append, hsplit, hsplit', ih, List.cons_append]
        | false =>
          obtain ⟨word, more, hwords, hcons⟩ := words_cons hd he text
          obtain ⟨word', more', hwords', hcons'⟩ := words_cons hd he (text ++ c :: rest)
          rw [List.cons_append, hwords, hwords', List.cons_append, List.cons.injEq] at ih
          rw [List.cons_append, List.cons_append, hcons, hcons', ih.1, ih.2, List.cons_append]

/-- The blanks of the text are single spaces. -/
structure IsSpaced (text : List Char) : Prop where
  space : ∀ c ∈ text, isBlank c = true → c = ' '
  /-- No two blanks stand side by side. -/
  single : text.IsChain fun c d => isBlank c = true → isBlank d = false

instance (text : List Char) : Decidable (IsSpaced text) :=
  decidable_of_iff (text.all (fun c => !isBlank c || c == ' ') = true ∧
      text.IsChain fun c d => isBlank c = true → isBlank d = false)
    ⟨fun h => ⟨by simpa [← Bool.not_eq_true, or_iff_not_imp_left] using h.1, h.2⟩,
      fun h => ⟨by simpa [← Bool.not_eq_true, or_iff_not_imp_left] using h.space, h.single⟩⟩

namespace IsSpaced

variable {text : List Char}

theorem of_cons {c : Char} (h : IsSpaced (c :: text)) : IsSpaced text :=
  ⟨fun d hd => h.space d (List.mem_cons_of_mem _ hd), List.isChain_of_isChain_cons h.single⟩

/-- Characters that are not blanks may be added at both ends. -/
theorem enclosed_iff {c : Char} (hc : isBlank c = false) :
    IsSpaced (c :: (text ++ [c])) ↔ IsSpaced text := by
  constructor
  · intro h
    exact ⟨fun d hd => h.space d (List.mem_cons_of_mem _ (List.mem_append_left _ hd)),
      (List.isChain_append.1 h.of_cons.single).1⟩
  · intro h
    refine ⟨fun d hd hblank => ?_, List.isChain_cons.2 ⟨fun d _ hblank => ?_, ?_⟩⟩
    · rcases List.mem_cons.1 hd with rfl | hd
      · rw [hc] at hblank
        cases hblank
      · rcases List.mem_append.1 hd with hd | hd
        · exact h.space d hd hblank
        · rw [List.mem_singleton.1 hd, hc] at hblank
          cases hblank
    · rw [hc] at hblank
      cases hblank
    · refine List.isChain_append.2 ⟨h.single, List.isChain_singleton c, fun d _ e he _ => ?_⟩
      cases he
      exact hc

theorem of_isWord {word : List Char} (h : IsWord word) : IsSpaced word := by
  have habsurd : ∀ c ∈ word, isBlank c ≠ true := fun c hc => Bool.eq_false_iff.1 (h.notBlank c hc)
  refine ⟨fun c hc hblank => absurd hblank (habsurd c hc), List.Pairwise.isChain ?_⟩
  exact List.pairwise_of_forall_mem_list fun c hc d _ hblank => absurd hblank (habsurd c hc)

/-- Words with a space in between are spaced. -/
theorem intercalate {ws : List (List Char)} (h : ∀ word ∈ ws, IsWord word) :
    IsSpaced ([' '].intercalate ws) := by
  induction ws with
  | nil => exact ⟨fun c hc => absurd hc List.not_mem_nil, List.isChain_nil⟩
  | cons word more ih =>
    obtain ⟨hword, hmore⟩ := List.forall_mem_cons.1 h
    cases more with
    | nil =>
      rw [List.intercalate_singleton]
      exact of_isWord hword
    | cons next more =>
      have hrest := ih hmore
      -- Behind the space comes the first character of a word.
      obtain ⟨c, tail, rfl⟩ := List.exists_cons_of_ne_nil (List.forall_mem_cons.1 hmore).1.ne_nil
      have hc : isBlank c = false := (List.forall_mem_cons.1 hmore).1.notBlank c List.mem_cons_self
      rw [List.intercalate_cons_cons_left] at hrest
      rw [List.intercalate_cons_cons, List.intercalate_cons_cons_left, List.append_assoc,
        List.singleton_append]
      constructor
      · intro d hd hblank
        rcases List.mem_append.1 hd with hd | hd
        · rw [hword.notBlank d hd] at hblank
          cases hblank
        · rcases List.mem_cons.1 hd with rfl | hd
          · rfl
          · exact hrest.space d hd hblank
      · refine List.isChain_append.2 ⟨(of_isWord hword).single,
          List.isChain_cons_cons.2 ⟨fun _ => hc, hrest.single⟩, fun d hd e _ hblank => ?_⟩
        rw [hword.notBlank d (List.mem_of_getLast? hd)] at hblank
        cases hblank

end IsSpaced

/-- A spaced text that does not end with a blank is put together again from its words, up to a
    blank at its beginning. -/
theorem intercalate_words_of_isSpaced {text : List Char} (h : IsSpaced text)
    (hlast : ∀ c ∈ text.getLast?, isBlank c = false) :
    [' '].intercalate (words text) = trimStart text := by
  induction text with
  | nil => rfl
  | cons c rest ih =>
    cases rest with
    | nil =>
      have hc : isBlank c = false := hlast c rfl
      simp [words, trimStart, hc]
    | cons d rest =>
      have hrest := ih h.of_cons (by rwa [List.getLast?_cons_cons] at hlast)
      obtain ⟨hnext, -⟩ := List.isChain_cons_cons.1 h.single
      cases hc : isBlank c with
      | true =>
        rw [words_blank hc, hrest, trimStart, trimStart, List.dropWhile_cons_of_pos hc]
      | false =>
        have hstart : trimStart (c :: d :: rest) = c :: d :: rest :=
          List.dropWhile_cons_of_neg (Bool.eq_false_iff.1 hc)
        cases hd : isBlank d with
        | true =>
          -- Behind the blank comes the next word, as two blanks do not stand side by side.
          obtain rfl : d = ' ' := h.space d (by simp) hd
          obtain ⟨e, rest, rfl⟩ : ∃ e rest', rest = e :: rest' := by
            cases rest with
            | nil => exact absurd (hlast ' ' rfl) (by decide)
            | cons e rest => exact ⟨e, rest, rfl⟩
          have he : isBlank e = false := (List.isChain_cons_cons.1 h.of_cons.single).1 hd
          have hword : IsWord [c] := ⟨List.cons_ne_nil _ _, List.forall_mem_singleton.2 hc⟩
          have hwords : words ([c] ++ ' ' :: e :: rest) = [c] :: words (' ' :: e :: rest) :=
            words_append hword rfl
          have htail : trimStart (' ' :: e :: rest) = e :: rest := by
            rw [trimStart, List.dropWhile_cons_of_pos hd,
              List.dropWhile_cons_of_neg (Bool.eq_false_iff.1 he)]
          have hne : words (' ' :: e :: rest) ≠ [] := by
            intro hnil
            rw [hnil, htail] at hrest
            cases hrest
          rw [List.singleton_append] at hwords
          rw [hstart, hwords, List.intercalate_cons_of_ne_nil hne, hrest, htail]
          rfl
        | false =>
          obtain ⟨word, more, hwords, hcons⟩ := words_cons hc hd rest
          rw [hcons, List.intercalate_cons_cons_left, ← hwords, hrest, hstart, trimStart,
            List.dropWhile_cons_of_neg (Bool.eq_false_iff.1 hd)]

theorem trimStart_of_isTight {text : List Char} (h : IsTight text) : trimStart text = text := by
  obtain ⟨c, rest, rfl, hc⟩ := h.head
  exact List.dropWhile_cons_of_neg (Bool.eq_false_iff.1 hc)

/-- A text without blanks at its ends is put together again from its words exactly if it is
    spaced. -/
theorem intercalate_words_eq_iff {text : List Char} (h : IsTight text) :
    [' '].intercalate (words text) = text ↔ IsSpaced text := by
  constructor
  · intro heq
    rw [← heq]
    exact IsSpaced.intercalate fun word hword => isWord_of_mem_words hword
  · intro hspaced
    have hlast : ∀ c ∈ text.getLast?, isBlank c = false := by
      obtain ⟨rest, c, rfl, hc⟩ := h.last
      intro d hd
      rw [List.getLast?_concat, Option.mem_some_iff] at hd
      exact hd ▸ hc
    rw [intercalate_words_of_isSpaced hspaced hlast, trimStart_of_isTight h]

/-- Words with a space in between are read as these words. -/
theorem words_intercalate {ws : List (List Char)} (h : ∀ word ∈ ws, IsWord word) :
    words ([' '].intercalate ws) = ws := by
  induction ws with
  | nil => rfl
  | cons word more ih =>
    obtain ⟨hword, hmore⟩ := List.forall_mem_cons.1 h
    cases more with
    | nil => rw [List.intercalate_singleton, words_of_isWord hword]
    | cons next more =>
      rw [List.intercalate_cons_cons, List.append_assoc, List.singleton_append,
        words_append_blank rfl, words_of_isWord hword, ih hmore, List.singleton_append]

theorem wordsOf_append (s t : String) : wordsOf (s ++ " " ++ t) = wordsOf s ++ wordsOf t := by
  have htext : (s ++ " " ++ t).toList = s.toList ++ ' ' :: t.toList := by
    rw [String.toList_append, String.toList_append, List.append_assoc]
    rfl
  rw [wordsOf, htext, words_append_blank rfl, List.map_append, wordsOf, wordsOf]

theorem toList_intercalate_wordsOf (s : String) :
    (" ".intercalate (wordsOf s)).toList = [' '].intercalate (words s.toList) := by
  rw [String.toList_intercalate, wordsOf, List.map_map]
  have hid : String.toList ∘ String.ofList = id := funext fun _ => String.toList_ofList
  rw [hid, List.map_id]
  rfl

theorem wordsOf_intercalate {ws : List String} (h : ∀ word ∈ ws, IsWord word.toList) :
    wordsOf (" ".intercalate ws) = ws := by
  have hwords : ∀ word ∈ ws.map String.toList, IsWord word := List.forall_mem_map.2 h
  have hid : String.ofList ∘ String.toList = id := funext fun _ => String.ofList_toList
  rw [wordsOf, String.toList_intercalate]
  change ((words ([' '].intercalate (ws.map String.toList))).map String.ofList) = ws
  rw [words_intercalate hwords, List.map_map, hid, List.map_id]

/-! ### Words inside of a text -/

theorem intercalate_append {ws ws' : List (List Char)} (h : ws ≠ []) (h' : ws' ≠ []) :
    [' '].intercalate (ws ++ ws') = [' '].intercalate ws ++ ' ' :: [' '].intercalate ws' := by
  induction ws with
  | nil => exact absurd rfl h
  | cons word more ih =>
    cases more with
    | nil =>
      rw [List.singleton_append, List.intercalate_cons_of_ne_nil h', List.intercalate_singleton,
        List.append_assoc, List.singleton_append]
    | cons next more =>
      rw [List.cons_append, List.cons_append, List.intercalate_cons_cons, ← List.cons_append,
        ih (List.cons_ne_nil _ _), List.intercalate_cons_cons, List.append_assoc,
        List.append_assoc, List.append_assoc]

/-- What stands between two spaces is a word of the text. -/
theorem mem_words_of_infix {word text : List Char} (hword : IsWord word)
    (h : ' ' :: (word ++ [' ']) <:+: text) : word ∈ words text := by
  obtain ⟨before, after, rfl⟩ := h
  have hsplit : before ++ ' ' :: (word ++ [' ']) ++ after =
      before ++ ' ' :: (word ++ ' ' :: after) := by simp
  rw [hsplit, words_append_blank rfl, words_append_blank rfl, words_of_isWord hword]
  exact List.mem_append_right _ (List.mem_append_left _ (List.mem_singleton_self word))

/-- In a spaced text, a word that does not touch its ends stands between two spaces. -/
theorem infix_of_mem_words {word text : List Char} {c : Char} (hc : isBlank c = false)
    (hspaced : IsSpaced text) (hword : c ∉ word) (h : word ∈ words (c :: (text ++ [c]))) :
    ' ' :: (word ++ [' ']) <:+: text := by
  have hword' := isWord_of_mem_words h
  have htight : IsTight (c :: (text ++ [c])) := ⟨⟨c, _, rfl, hc⟩, ⟨c :: text, c, rfl, hc⟩⟩
  have htext := (intercalate_words_eq_iff htight).2 ((IsSpaced.enclosed_iff hc).2 hspaced)
  obtain ⟨before, after, hwords⟩ := List.append_of_mem h
  rw [hwords] at htext
  have hbefore : before ≠ [] := by
    rintro rfl
    obtain ⟨d, rest, rfl⟩ := List.exists_cons_of_ne_nil hword'.ne_nil
    rw [List.nil_append, List.intercalate_cons_cons_left, List.cons.injEq] at htext
    exact hword (htext.1 ▸ List.mem_cons_self)
  rw [intercalate_append hbefore (List.cons_ne_nil _ _)] at htext
  have hafter : after ≠ [] := by
    rintro rfl
    obtain ⟨front, d, rfl, -⟩ := hword'.isTight.last
    have hends : ([' '].intercalate before ++ ' ' :: front) ++ [d] = (c :: text) ++ [c] := by
      rw [List.append_assoc, List.cons_append, List.cons_append, ← htext,
        List.intercalate_singleton]
    have hlast := List.singleton_inj.1 (List.append_inj_right' hends rfl)
    exact hword (hlast ▸ List.mem_append_right _ (List.mem_singleton_self d))
  rw [List.intercalate_cons_of_ne_nil hafter] at htext
  -- Neither of the two spaces is at an end of the whole, where `c` stands.
  have hne : ' ' ≠ c := by
    rintro rfl
    exact absurd hc (by decide)
  have hinfix : ' ' :: (word ++ [' ']) <:+: c :: (text ++ [c]) :=
    ⟨[' '].intercalate before, [' '].intercalate after, by rw [← htext]; simp⟩
  rcases List.infix_cons_iff.1 hinfix with hfirst | hinfix
  · exact absurd (List.cons_prefix_cons.1 hfirst).1 hne
  · rcases List.infix_concat_iff.1 hinfix with hlast | hinfix
    · obtain ⟨front, hfront⟩ := hlast
      rw [← List.cons_append, ← List.append_assoc] at hfront
      exact absurd (List.append_inj_right' hfront rfl) (by simpa using hne)
    · exact hinfix

end GraphScript.Text
