import GraphScript.Proofs.Names
import GraphScript.Proofs.Script.Origin

/-!
# Headers of scripts

A block of a script has a header that could be read: the others make their blocks broken. What
reading gives a header, it has in every script, then, however deep its block stands
(`Script.headersHave`). In particular, a `For` counts a variable with a proper name
(`Header.counts_of_parse`). The other way round, a `For` over such a variable, with single words
for its bounds, is read as it is meant (`Header.parse_forBlock`).
-/

namespace GraphScript

open Text

/-! ### Reading -/

/-- What the header counts, if anything, is a variable with a proper name. -/
def Header.Counts : Header → Prop
  | .forBlock counter _ _ => IsName counter.toList
  | _ => True

theorem Header.counts_of_parseRange? {text : List Char} {header : Header}
    (h : parseRange? text = some header) : header.Counts := by
  simp only [parseRange?, Option.bind_eq_bind, Option.bind_eq_some_iff] at h
  obtain ⟨⟨counter, bounds⟩, -, ⟨first, last⟩, -, h⟩ := h
  dsimp only at h
  split_ifs at h with hrefused
  cases h
  simp only [Bool.or_eq_true, not_or, List.isEmpty_iff, Bool.not_eq_true', Bool.not_eq_false]
    at hrefused
  rw [Counts, String.toList_ofList]
  exact ⟨hrefused.1.1.1, List.all_eq_true.1 hrefused.1.1.2⟩

/-- Only `For` counts, and its variable is checked when the header is read. -/
theorem Header.counts_of_parse {text : String} {header : Header} (h : parse text = .ok header) :
    header.Counts := by
  have hmap (block : Condition → Header) (hblock : ∀ c, (block c).Counts) {condition : List Char}
      (h : (Condition.parse condition).map block = .ok header) : header.Counts := by
    cases hcondition : Condition.parse condition with
    | error e =>
      rw [hcondition] at h
      cases h
    | ok c =>
      rw [hcondition] at h
      cases h
      exact hblock c
  rw [parse] at h
  split at h
  · exact hmap .ifBlock (fun _ => trivial) h
  · split at h
    · exact hmap .whileBlock (fun _ => trivial) h
    · split at h
      · split at h
        · cases h
          exact counts_of_parseRange? ‹_›
        · cases h
      · cases h

namespace Header

section Range

variable {counter first last : String} (hcounter : IsName counter.toList)
  (hfirst : IsWord first.toList) (hto : first ≠ "to") (hlast : IsWord last.toList)

include hfirst hto in
/-- A `to` between two words parts them, unless the first of them is `to` as well. -/
theorem cut?_to (last : List Char) :
    cut? " to ".toList (' ' :: (first.toList ++ (" to ".toList ++ last))) =
      some (' ' :: first.toList, last) := by
  have hspace : ' ' ∉ first.toList := fun hmem => absurd (hfirst.notBlank _ hmem) (by decide)
  have hbegin :
      " to ".toList.isPrefixOf? (' ' :: (first.toList ++ (" to ".toList ++ last))) = none := by
    -- The space in front of the first word could begin the separator only if that word is `to`.
    rw [Option.eq_none_iff_forall_ne_some]
    intro rest h
    have hwords := congrArg words (eq_append_of_isPrefixOf? h)
    have hword : IsWord "to".toList := by decide
    have hwords' : words (" to ".toList ++ rest) = "to".toList :: words (' ' :: rest) :=
      (words_blank rfl _).trans (words_append hword rfl)
    rw [words_blank rfl, words_append hfirst rfl, hwords'] at hwords
    exact hto (String.toList_injective (List.cons.inj hwords).1)
  rw [cut?, hbegin]
  exact congrArg (Option.map _) (cut?_append hspace "to ".toList last)

include hcounter hfirst hto hlast

theorem parseRange?_words :
    parseRange? (counter.toList ++ [' '] ++
        (['='] ++ (' ' :: (first.toList ++ (" to ".toList ++ last.toList))))) =
      some (.forBlock counter first last) := by
  have hequals : '=' ∉ counter.toList ++ [' '] := by
    rw [List.mem_append, not_or]
    exact ⟨fun hmem => absurd (hcounter.isNameChar _ hmem) (by decide +kernel), by decide⟩
  have hname : trim (counter.toList ++ [' ']) = counter.toList := by
    rw [trim_append_right rfl, trim_of_isWord hcounter.isWord]
  have hbound : trim (' ' :: first.toList) = first.toList := by
    rw [← List.singleton_append, trim_append_left rfl, trim_of_isWord hfirst]
  have hall : counter.toList.all isNameChar = true := List.all_eq_true.2 hcounter.isNameChar
  rw [parseRange?, cut?_append hequals]
  dsimp only [Option.bind_eq_bind, Option.bind_some]
  rw [cut?_to hfirst hto]
  dsimp only [Option.bind_some]
  rw [hname, hbound, trim_of_isWord hlast, if_neg, String.ofList_toList, String.ofList_toList,
    String.ofList_toList]
  · rfl
  · simp [hcounter.ne_nil, hfirst.ne_nil, hlast.ne_nil, hall]

/-- A `For` is read from its words. -/
theorem parse_forBlock :
    parse s!"For {counter} = {first} to {last}" = .ok (.forBlock counter first last) := by
  set range := counter.toList ++ [' '] ++
    (['='] ++ (' ' :: (first.toList ++ (" to ".toList ++ last.toList)))) with hrange
  have htext : trim (s!"For {counter} = {first} to {last}").toList = "For ".toList ++ range := by
    have hfor : IsTight "For".toList := IsWord.isTight (by decide)
    have heq : (s!"For {counter} = {first} to {last}").toList = "For".toList ++
        (" ".toList ++ counter.toList ++ " = ".toList ++ first.toList ++ " to ".toList ++
          last.toList) := by
      simp only [String.toList_append, List.append_assoc]
      rfl
    rw [heq, trim_of_isTight (hfor.append hlast.isTight _)]
    simp [hrange]
  have hif : "If ".toList.isPrefixOf? ("For ".toList ++ range) = none := rfl
  have hwhile : "While ".toList.isPrefixOf? ("For ".toList ++ range) = none := rfl
  rw [parse, htext, hif, hwhile, isPrefixOf?_append]
  dsimp only
  rw [parseRange?_words hcounter hfirst hto hlast]

end Range

end Header

/-! ### Items -/

namespace Item

/-- The header of a block. -/
def header? : Item → Option Header
  | .statement _ _ => none
  | .block _ header _ => some header
  | .broken _ _ => none

/-- The headers of the blocks among the items, at any depth, have a property. -/
def HeadersHave (P : Header → Prop) (items : List Item) : Prop :=
  ∀ item ∈ partsOf items, ∀ header ∈ item.header?, P header

variable {P : Header → Prop} {items more body : List Item} {line : Nat} {header : Header}

theorem headersHave_append :
    HeadersHave P (items ++ more) ↔ HeadersHave P items ∧ HeadersHave P more := by
  rw [HeadersHave, partsOf_append]
  exact List.forall_mem_append

theorem headersHave_cons {item : Item} :
    HeadersHave P (item :: items) ↔ HeadersHave P [item] ∧ HeadersHave P items := by
  rw [← List.singleton_append, headersHave_append]

theorem headersHave_block :
    HeadersHave P [.block line header body] ↔ P header ∧ HeadersHave P body := by
  rw [HeadersHave, partsOf_singleton, parts, List.forall_mem_cons]
  exact and_congr_left' ⟨fun h => h header rfl, fun h _ hheader => Option.some_inj.1 hheader ▸ h⟩

end Item

/-- What reading gives a header, the headers of a script have. -/
theorem Script.headersHave {P : Header → Prop}
    (hP : ∀ {text header}, Header.parse text = .ok header → P header) (source : String)
    (ceiling : Nat) : Item.HeadersHave P (parse source ceiling).items := by
  intro item hitem header hheader
  obtain ⟨token, -, hmakes | ⟨f, -, rfl⟩⟩ := exists_token hitem
  · -- Of what tokens become, only blocks have headers, and those were read.
    cases hmakes with
    | block h body => exact Option.some_inj.1 hheader ▸ hP h
    | statement | unterminated | tooDeep | unreadable | stray => cases hheader
  · cases hheader

end GraphScript
