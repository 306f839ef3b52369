import GraphScript.Proofs.Script.Assembly
import GraphScript.Proofs.Session.Effect
import GraphScript.Proofs.Spacing
import GraphScript.Proofs.Value

/-!
# Creating nodes

`Create Node` puts one more node at the end of the current graph
(`Statement.run_createNode`, `Statement.run_createNode_value`). The literal of a node comes
from the words behind `VALUE`, put together with single spaces, as far as the word `AS`
(`Statement.reads_nodeValue_raw`).

The scanner takes a text in quotes as it stands, but the words of a statement know nothing of
quotes. So a text in quotes is the literal of its node, character for character, exactly if
its blanks are single spaces and `AS` is not one of its inner words
(`Session.run_quoted_literal_iff`). In all other cases it is respaced, cut off at `AS`, or
refused for the kind that it seems to ask for.
-/

namespace GraphScript

open Text

/-- The session with one more node in its graph. -/
def Session.withNode (s : Session) (id : String) (value : Option Value) : Session :=
  s.setGraph { s.graph with nodes := s.graph.nodes ++ [Node.new id value] }

theorem Action.run_addNode {s : Session} {id : String} (hnew : s.graph.contains id = false)
    (value : Option Value) :
    (changeGraph (·.addNode id value)).run.run s = (.ok (), s.withNode id value) := by
  rw [run_changeGraph, Graph.addNode, if_neg (Bool.eq_false_iff.1 hnew)]
  rfl

namespace Statement

open GraphScript.Action

variable {st : Statement} {s : Session} {word id : String} {tokens : List String}

theorem carryOut_createNode {rest : List String} (h : st.words = "Create" :: "Node" :: rest)
    (replay : Action String) : st.carryOut replay = st.createNode := by
  simp [carryOut, create, Statement.word, h]

theorem run_createNode (hwords : st.words = ["Create", "Node", word])
    (hid : s.env.resolve word = .ok id) (hnew : s.graph.contains id = false) :
    st.createNode.run.run s = (.ok s!"Created node {id}.", s.withNode id none) := by
  have hthird : st.words[2]? = some word := by rw [hwords]; rfl
  have hend : st.words[3]? = none := by rw [hwords]; rfl
  rw [createNode, run_bind, run_resolved st hthird hid]
  dsimp only
  rw [hend]
  dsimp only
  rw [run_bind, run_addNode hnew]
  rfl

/-! ### Literals -/

theorem ne_as_of_not_mem (h : "AS" ∉ tokens) : ∀ word ∈ tokens, (word != "AS") = true :=
  fun _ hword => bne_iff_ne.2 fun heq => h (heq ▸ hword)

/-- Words without `AS` are one literal. Only a word that stands alone may be a variable. -/
theorem run_nodeValue (hne : tokens ≠ []) (has : "AS" ∉ tokens)
    (hplain : ∀ word, tokens = [word] → s.env.resolve word = .ok word) :
    (st.nodeValue tokens).run.run s =
      (.ok (.ofKind (" ".intercalate tokens) .undefined), s) := by
  have hall := ne_as_of_not_mem has
  have hsplit : st.splitKind tokens = pure (tokens, .undefined) := by
    rw [splitKind, List.span_eq_takeWhile_dropWhile, List.takeWhile_eq_self_iff.2 hall,
      List.dropWhile_eq_nil_iff.2 hall]
  rw [nodeValue, hsplit, pure_bind]
  dsimp only
  obtain ⟨first, rest, rfl⟩ := List.exists_cons_of_ne_nil hne
  cases rest with
  | nil =>
    have hresolve : (resolve first).run.run s = (.ok first, s) := by
      change (ofExcept (s.env.resolve first)).run.run s = _
      rw [hplain first rfl]
      rfl
    dsimp only
    rw [run_bind, hresolve]
    rfl
  | cons second rest => rfl

/-- The literal of a value are the words in front of `AS`. -/
theorem reads_nodeValue_raw
    (hplain : ∀ word, tokens.takeWhile (· != "AS") = [word] → s.env.resolve word = .ok word) :
    Reads (st.nodeValue tokens) s fun value =>
      value.raw = " ".intercalate (tokens.takeWhile (· != "AS")) := by
  refine (st.reads_splitKind tokens).bind fun (literal, kind) hliteral => ?_
  dsimp only at hliteral ⊢
  rw [← hliteral] at hplain ⊢
  split
  · exact Yields.throw _
  · rename_i word
    refine (Reads.resolve word).bind fun raw hraw => Yields.pure ⟨rfl, ?_⟩
    rw [hplain word rfl, Except.ok.injEq] at hraw
    rw [Value.raw_ofKind, String.intercalate_singleton, hraw]
  · exact Yields.pure ⟨rfl, Value.raw_ofKind _ _⟩

section WithValue

variable (hwords : st.words = "Create" :: "Node" :: word :: "VALUE" :: tokens)
  (hid : s.env.resolve word = .ok id)

include hwords hid

/-- Behind `VALUE`, the value is worked out first. -/
theorem run_createNode_eq :
    st.createNode.run.run s = (do
      let value ← st.nodeValue tokens
      Action.changeGraph (·.addNode id (some value))
      return s!"Created node {id} with value {value.raw}." : Action String).run.run s := by
  have hthird : st.words[2]? = some word := by rw [hwords]; rfl
  have hfourth : st.words[3]? = some "VALUE" := by rw [hwords]; rfl
  have hrest : st.words.drop 4 = tokens := by rw [hwords]; rfl
  rw [createNode, run_bind, run_resolved st hthird hid]
  dsimp only
  rw [hfourth, hrest]
  rfl

theorem run_createNode_value {value : Value} (hnew : s.graph.contains id = false)
    (hvalue : (st.nodeValue tokens).run.run s = (.ok value, s)) :
    st.createNode.run.run s =
      (.ok s!"Created node {id} with value {value.raw}.", s.withNode id (some value)) := by
  rw [run_createNode_eq hwords hid, run_bind, hvalue]
  dsimp only
  rw [run_bind, run_addNode hnew]
  rfl

theorem run_createNode_error {error : Error}
    (hvalue : (st.nodeValue tokens).run.run s = (.error error, s)) :
    st.createNode.run.run s = (.error error, s) := by
  rw [run_createNode_eq hwords hid, run_bind, hvalue]

end WithValue

end Statement

/-! ### Texts in quotes -/

section Literal

variable (s : String)

/-- The first word of a text in quotes stands for itself. -/
theorem resolve_of_wordsOf_inQuotes {env : Environment} {word : String}
    (h : [word] <+: wordsOf (inQuotes s)) : env.resolve word = .ok word := by
  obtain ⟨first, more, hwords⟩ := exists_words_cons (c := '"') rfl (s.toList ++ ['"'])
  have hword : IsWord ('"' :: first) := isWord_of_mem_words (hwords ▸ List.mem_cons_self)
  rw [wordsOf, toList_inQuotes, hwords, List.map_cons, List.cons_prefix_cons] at h
  refine Environment.resolve_of_isId ⟨?_, ?_⟩
  · rwa [h.1, String.toList_ofList]
  · rw [h.1, String.toList_ofList, List.head?_cons, ne_eq, Option.some_inj]
    decide

/-- A text in quotes is put together again from its words exactly if it is spaced. -/
theorem intercalate_wordsOf_inQuotes_iff :
    " ".intercalate (wordsOf (inQuotes s)) = inQuotes s ↔ IsSpaced s.toList := by
  rw [← String.toList_inj, toList_intercalate_wordsOf,
    intercalate_words_eq_iff (isTight_inQuotes s), toList_inQuotes, IsSpaced.enclosed_iff rfl]

/-- `AS` is a word of a spaced text in quotes exactly if it stands between two spaces there. -/
theorem as_mem_wordsOf_inQuotes_iff (h : IsSpaced s.toList) :
    "AS" ∈ wordsOf (inQuotes s) ↔ " AS ".toList <:+: s.toList := by
  have hmem : String.ofList "AS".toList ∈ wordsOf (inQuotes s) ↔
      "AS".toList ∈ words ('"' :: (s.toList ++ ['"'])) := by
    rw [wordsOf, toList_inQuotes, List.mem_map_of_injective fun _ _ => String.ofList_injective]
  rw [String.ofList_toList] at hmem
  rw [hmem]
  constructor
  · exact infix_of_mem_words rfl h (by decide)
  · intro hinfix
    refine mem_words_of_infix (by decide) (List.IsInfix.trans hinfix ?_)
    exact ⟨['"'], ['"'], rfl⟩

/-- If the words in front of `AS` make up the whole text, then there is no `AS`. -/
theorem as_not_mem_of_intercalate
    (h : " ".intercalate ((wordsOf (inQuotes s)).takeWhile (· != "AS")) = inQuotes s) :
    "AS" ∉ wordsOf (inQuotes s) := by
  have hwords : ∀ word ∈ (wordsOf (inQuotes s)).takeWhile (· != "AS"), IsWord word.toList := by
    intro word hword
    obtain ⟨chars, hchars, rfl⟩ := List.mem_map.1 ((List.takeWhile_sublist _).mem hword)
    rw [String.toList_ofList]
    exact isWord_of_mem_words hchars
  have hall := wordsOf_intercalate hwords
  rw [h] at hall
  intro hmem
  rw [hall] at hmem
  exact absurd (List.mem_takeWhile_imp hmem) (by decide)

end Literal

/-- A text in quotes and a period behind it belong to the statement in front of them. -/
theorem Token.scan_inQuotes {front s : String} {c : Char} {rest : List Char}
    (hfront : front.toList = c :: rest) (hblank : isBlank c = false) (hslash : c ≠ '/')
    (hmarks : front.toList.any isMark = false) (hfrontLine : '\n' ∉ front.toList)
    (hquote : '"' ∉ s.toList) (hnewline : '\n' ∉ s.toList) :
    scan (front ++ inQuotes s ++ ".") = [.statement 1 (front ++ inQuotes s)] := by
  have htext : (front ++ inQuotes s).toList = front.toList ++ '"' :: (s.toList ++ ['"']) := by
    rw [String.toList_append, toList_inQuotes]
  have hsource : (front ++ inQuotes s ++ ".").toList =
      front.toList ++ '"' :: (s.toList ++ '"' :: ['.']) := by
    rw [String.toList_append, htext, List.append_assoc, List.cons_append, List.append_assoc]
    rfl
  have hline : '\n' ∉ front.toList ++ '"' :: (s.toList ++ '"' :: ['.']) := by
    simp [hfrontLine, hnewline]
  have htight : IsTight (front ++ inQuotes s).toList :=
    ⟨⟨c, rest ++ '"' :: (s.toList ++ ['"']), by rw [htext, hfront, List.cons_append], hblank⟩,
      ⟨front.toList ++ '"' :: s.toList, '"', by rw [htext, List.append_assoc, List.cons_append],
        rfl⟩⟩
  have hpiece : piece ('"' :: (s.toList.reverse ++ '"' :: (front.toList.reverse ++ []))) =
      front ++ inQuotes s := by
    have hreverse : ('"' :: (s.toList.reverse ++ '"' :: (front.toList.reverse ++ []))).reverse =
        (front ++ inQuotes s).toList := by simp [htext]
    rw [piece, hreverse, trim_of_isTight htight, String.ofList_toList]
  have hscan : scan (front ++ inQuotes s ++ ".") =
      scanLine 1 false [] (front.toList ++ '"' :: (s.toList ++ '"' :: ['.'])) := by
    rw [hfront, List.cons_append] at hsource hline ⊢
    exact scan_eq_scanLine hsource hline hblank hslash
  rw [hscan, scanLine_unmarked hmarks, scanLine_quote, Bool.not_false, scanLine_enclosed hquote,
    scanLine_quote, Bool.not_true, scanLine_period rfl, scanLine, leftover_eq_nil rfl, hpiece]

namespace Session

theorem run_of_scan {s : Session} {source text : String}
    (h : Token.scan source = [.statement 1 text]) :
    s.run source = Run.perform { session := s, summary := {} } 1 (dispatch text 0) := by
  rw [run, runScript, Script.parse_eq, h]
  rfl

/-- A text in quotes is the literal of its node, character for character, exactly if its blanks
    are single spaces and none of its inner words is `AS`. -/
theorem run_quoted_literal_iff (config : Config) (syntaxReason : String → String) {s : String}
    (hquote : '"' ∉ s.toList) (hnewline : '\n' ∉ s.toList) :
    let run := (Session.new config syntaxReason).run ("Create Node a VALUE " ++ inQuotes s ++ ".")
    (run.summary.isClean = true ∧ run.summary.success = 1 ∧
        run.session.graph.nodes =
          [Node.new "a" (some { raw := inQuotes s, payload := .string s })]) ↔
      IsSpaced s.toList ∧ ¬" AS ".toList <:+: s.toList := by
  intro run
  have hwords : (Statement.ofText ("Create Node a VALUE " ++ inQuotes s)).words =
      "Create" :: "Node" :: "a" :: "VALUE" :: wordsOf (inQuotes s) :=
    (wordsOf_append "Create Node a VALUE" (inQuotes s)).trans rfl
  have hid : (Session.new config syntaxReason).env.resolve "a" = .ok "a" :=
    Environment.resolve_of_isId (by decide)
  have hscan : Token.scan ("Create Node a VALUE " ++ inQuotes s ++ ".") =
      [.statement 1 ("Create Node a VALUE " ++ inQuotes s)] :=
    Token.scan_inQuotes rfl rfl (by decide) (by decide) (by decide) hquote hnewline
  have hrun : run = Run.perform { session := Session.new config syntaxReason, summary := {} } 1
      (Statement.ofText ("Create Node a VALUE " ++ inQuotes s)).createNode := by
    rw [← Statement.carryOut_createNode hwords]
    exact run_of_scan hscan
  clear_value run
  subst hrun
  constructor
  · rintro ⟨-, -, hnodes⟩
    have hfirst (word : String) (h : (wordsOf (inQuotes s)).takeWhile (· != "AS") = [word]) :
        (Session.new config syntaxReason).env.resolve word = .ok word :=
      resolve_of_wordsOf_inQuotes s (h ▸ List.takeWhile_prefix _)
    obtain ⟨value, _, hvalue, rfl, hraw⟩ | ⟨error, hvalue⟩ :=
      Action.yields_iff.1 (Statement.reads_nodeValue_raw hfirst)
    · rw [Run.perform, Statement.run_createNode_value hwords hid rfl hvalue] at hnodes
      have hnode : Node.new "a" (some value) =
          Node.new "a" (some { raw := inQuotes s, payload := .string s }) :=
        List.singleton_inj.1 hnodes
      obtain rfl := Option.some_inj.1 (congrArg Node.value hnode)
      have has := as_not_mem_of_intercalate s hraw.symm
      rw [List.takeWhile_eq_self_iff.2 (Statement.ne_as_of_not_mem has)] at hraw
      have hspaced := (intercalate_wordsOf_inQuotes_iff s).1 hraw.symm
      exact ⟨hspaced, has ∘ (as_mem_wordsOf_inQuotes_iff s hspaced).2⟩
    · -- A statement that fails leaves the graph empty.
      rw [Run.perform, Statement.run_createNode_error hwords hid hvalue] at hnodes
      cases hnodes
  · rintro ⟨hspaced, hinfix⟩
    have hraw := (intercalate_wordsOf_inQuotes_iff s).2 hspaced
    have has := hinfix ∘ (as_mem_wordsOf_inQuotes_iff s hspaced).1
    have hne : wordsOf (inQuotes s) ≠ [] := by
      intro hnil
      rw [hnil, String.intercalate_nil] at hraw
      exact absurd (congrArg String.toList hraw) (by simp [toList_inQuotes])
    have hvalue : ((Statement.ofText ("Create Node a VALUE " ++ inQuotes s)).nodeValue
        (wordsOf (inQuotes s))).run.run (Session.new config syntaxReason) =
          (.ok (.ofKind (" ".intercalate (wordsOf (inQuotes s))) .undefined),
            Session.new config syntaxReason) :=
      Statement.run_nodeValue hne has fun word h =>
        resolve_of_wordsOf_inQuotes s (h ▸ List.prefix_refl _)
    rw [hraw, Value.ofKind, Value.coerce?, Value.detect_inQuotes] at hvalue
    rw [Run.perform, Statement.run_createNode_value hwords hid rfl hvalue]
    exact ⟨rfl, rfl, rfl⟩

/-- Periods, braces, variables and slashes do no harm in quotes, nor does `AS` at their ends. -/
theorem run_quoted_literal_marks :
    let s := "AS is: 2.5. \x7b $x \x7d // as AS"
    let run := (Session.new {}).run ("Create Node a VALUE " ++ inQuotes s ++ ".")
    ('"' ∉ s.toList ∧ '\n' ∉ s.toList) ∧ run.summary.isClean = true ∧ run.summary.success = 1 ∧
      run.session.graph.nodes =
        [Node.new "a" (some { raw := inQuotes s, payload := .string s })] := by
  intro s
  have hquote : '"' ∉ s.toList := by decide +kernel
  have hnewline : '\n' ∉ s.toList := by decide +kernel
  have hspaced : IsSpaced s.toList ∧ ¬" AS ".toList <:+: s.toList := by decide +kernel
  exact ⟨⟨hquote, hnewline⟩,
    (run_quoted_literal_iff {} Environment.plainReason hquote hnewline).2 hspaced⟩

/-- Two spaces in quotes become one, a kind behind `AS` cuts the text off, and what is no kind
    makes the statement fail. -/
theorem quoted_literal_lost :
    let run (s : String) := (Session.new {}).run ("Create Node a VALUE " ++ inQuotes s ++ ".")
    (run "x  y").session.graph.nodes =
        [Node.new "a" (some { raw := inQuotes "x y", payload := .string "x y" })] ∧
      (run "x AS int y").session.graph.nodes =
        [Node.new "a" (some { raw := "\"x", payload := .string "\"x" })] ∧
      (run "x AS y").summary.errors = 1 ∧ (run "x AS y").session.graph.nodes = [] := by
  decide +kernel

end Session

end GraphScript
